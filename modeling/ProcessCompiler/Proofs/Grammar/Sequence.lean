import ProcessCompiler.Proofs.Grammar.Depth
/-!
# Statements in sequence

How the statements of a block are read one after the other: `InSequence` has one
rule for each way to go on, and is all that reading a block does
(`stmtsIn_eq_ok_iff`). Two statements say what can be put behind statements. `stmtsIn_append`: behind a semicolon, and behind a
block before a name, other statements are read as if they stood alone, unless
the last one before them needs a semicolon. `stmtsIn_terminate`: a semicolon
ends the last statement.
-/

namespace ProcessCompiler

namespace Grammar

open Parse

variable {R R' : Rules} {t : Token} {ts u X : List Token} {note note₁ : Option Delimiter}
  {joint : Bool} {n m : ℕ} {stmts before after more : List Stmt} {s : Stream}

/-- A semicolon ahead is an empty statement. -/
theorem emptyStmts_semi :
    emptyStmts ⟨.leaf (.punct ';' joint) :: ts, note⟩ =
      (emptyStmts ⟨ts, note⟩).map fun r => (.empty :: r.1, r.2) := by
  show (emptyStmts >>= fun r => pure (Stmt.empty :: r)) ⟨ts, note⟩ = _
  rw [Parse.bind_apply]
  cases emptyStmts ⟨ts, note⟩ <;> rfl

/-- Without a semicolon ahead there is none. -/
theorem emptyStmts_other (h : isSymbol .semi ts = false) :
    emptyStmts ⟨ts, note⟩ = .ok ([], ⟨ts, note⟩) := by
  simp only [emptyStmts, repeatWhile, repeatIn, Parse.bind_apply, tokens, h]
  rfl

/-- A semicolon before statements is one more. -/
theorem stmtsIn_semi (n : ℕ) :
    stmtsIn R n ⟨.leaf (.punct ';' joint) :: ts, note⟩ =
      (stmtsIn R n ⟨ts, note⟩).map fun r => (.empty :: r.1, r.2) := by
  cases n with
  | zero => rfl
  | succ n =>
    simp only [stmtsIn, Parse.bind_apply, emptyStmts_semi, tokens]
    cases emptyStmts ⟨ts, note⟩ with
    | error e => rfl
    | ok r =>
      obtain ⟨empties, ⟨rest, note'⟩⟩ := r
      simp only [Except.map]
      split
      · rfl
      · simp only [Parse.bind_apply]
        cases stmt R ⟨rest, note'⟩ with
        | error e => rfl
        | ok r =>
          obtain ⟨s, ⟨rest, note'⟩⟩ := r
          simp only [tokens]
          split
          · rfl
          · split
            · rfl
            · simp only [Parse.bind_apply]
              cases stmtsIn R n ⟨rest, note'⟩ <;> rfl

/-- A statement at the front, and those behind it. -/
theorem stmtsIn_succ (hsemi : isSymbol .semi ts = false) (hts : ts ≠ []) (n : ℕ) :
    stmtsIn R (n + 1) ⟨ts, note⟩ =
      match stmt R ⟨ts, note⟩ with
      | .error e => .error e
      | .ok (s, rest) =>
        if rest.tokens.isEmpty then .ok ([s], rest)
        else if s.needsSemicolon then failHere .unterminated rest
        else (stmtsIn R n rest).map fun r => (s :: r.1, r.2) := by
  simp only [stmtsIn, Parse.bind_apply, emptyStmts_other hsemi, tokens]
  rw [if_neg (by simpa using hts), Parse.bind_apply]
  cases stmt R ⟨ts, note⟩ with
  | error e => rfl
  | ok r =>
    obtain ⟨s, rest⟩ := r
    simp only [Parse.bind_apply, tokens]
    split
    · rfl
    · split
      · rfl
      · rw [Parse.bind_apply]
        cases stmtsIn R n rest <;> rfl

/-- A statement with nothing behind it. -/
theorem stmtsIn_last (hsemi : isSymbol .semi ts = false) (hts : ts ≠ []) {first : Stmt}
    (hfirst : stmt R ⟨ts, note⟩ = .ok (first, ⟨[], note₁⟩)) (n : ℕ) :
    stmtsIn R (n + 1) ⟨ts, note⟩ = .ok ([first], ⟨[], note₁⟩) := by
  rw [stmtsIn_succ hsemi hts, hfirst]
  rfl

/-- A statement with others behind it. -/
theorem stmtsIn_cons (hsemi : isSymbol .semi ts = false) (hts : ts ≠ []) {first : Stmt}
    {rest : List Token} {more : List Stmt} {s : Stream} {n : ℕ}
    (hfirst : stmt R ⟨ts, note⟩ = .ok (first, ⟨rest, note₁⟩)) (hrest : rest ≠ [])
    (hclosed : first.Closed) (hmore : stmtsIn R n ⟨rest, note₁⟩ = .ok (more, s)) :
    stmtsIn R (n + 1) ⟨ts, note⟩ = .ok (first :: more, s) := by
  have hneeds : ¬first.needsSemicolon = true := Bool.eq_false_iff.1 hclosed
  rw [stmtsIn_succ hsemi hts, hfirst]
  dsimp only
  rw [if_neg (by simpa using hrest), if_neg hneeds, hmore]
  rfl

/-- Every way to read statements is one of these. -/
theorem stmtsIn_cases (hsemi : isSymbol .semi ts = false) (hts : ts ≠ []) {n : ℕ}
    {stmts : List Stmt} {s : Stream} (h : stmtsIn R (n + 1) ⟨ts, note⟩ = .ok (stmts, s)) :
    ∃ first rest note₁, stmt R ⟨ts, note⟩ = .ok (first, ⟨rest, note₁⟩) ∧
      (rest = [] ∧ stmts = [first] ∧ s = ⟨[], note₁⟩ ∨
        ∃ more, rest ≠ [] ∧ first.Closed ∧ stmtsIn R n ⟨rest, note₁⟩ = .ok (more, s) ∧
          stmts = first :: more) := by
  rw [stmtsIn_succ hsemi hts] at h
  cases hfirst : stmt R ⟨ts, note⟩ with
  | error e => simp [hfirst] at h
  | ok r =>
    obtain ⟨first, rest, note₁⟩ := r
    refine ⟨first, rest, note₁, rfl, ?_⟩
    rw [hfirst] at h
    dsimp only at h
    split at h
    · rename_i hempty
      cases h
      cases List.isEmpty_iff.1 hempty
      exact .inl ⟨rfl, rfl, rfl⟩
    · rename_i hempty
      split at h
      · cases h
      · rename_i hneeds
        cases hmore : stmtsIn R n ⟨rest, note₁⟩ with
        | error e => simp [hmore, Except.map] at h
        | ok r =>
          rw [hmore] at h
          cases h
          exact .inr ⟨_, hempty ∘ List.isEmpty_iff.2, Bool.eq_false_iff.2 hneeds, rfl, rfl⟩

/-- A token other than a semicolon. -/
theorem isSymbol_semi_cons {t : Token} (ht : ∀ joint, t ≠ .leaf (.punct ';' joint))
    (x : List Token) : isSymbol .semi (t :: x) = false := by
  rcases t with (_ | _ | _ | ⟨c, joint⟩ | _) | _
  case leaf.punct =>
    have hc : ';' ≠ c := fun hc => ht joint (hc ▸ rfl)
    exact beq_eq_false_iff_ne.2 hc
  all_goals rfl

/-- Whether a semicolon is ahead does not depend on what is behind the tokens. -/
theorem isSymbol_semi_behind (hts : ts ≠ []) (x : List Token) :
    isSymbol .semi (ts ++ x) = isSymbol .semi ts := by
  obtain ⟨t, ts, rfl⟩ := List.exists_cons_of_ne_nil hts
  exact isSymbol_semi_append _ _ _

/-- **How statements are read one after the other**, up to the end of the tokens.
Each statement takes a round; an empty one takes none. -/
inductive InSequence (R : Rules) (note₁ : Option Delimiter) :
    ℕ → List Token → Option Delimiter → List Stmt → Prop
  | done {n : ℕ} : InSequence R note₁ (n + 1) [] note₁ []
  | empty {n : ℕ} {joint : Bool} {ts : List Token} {note : Option Delimiter} {more : List Stmt}
      (hmore : InSequence R note₁ n ts note more) :
      InSequence R note₁ n (.leaf (.punct ';' joint) :: ts) note (.empty :: more)
  | last {n : ℕ} {ts : List Token} {note : Option Delimiter} {first : Stmt}
      (hsemi : isSymbol .semi ts = false) (hts : ts ≠ [])
      (hfirst : stmt R ⟨ts, note⟩ = .ok (first, ⟨[], note₁⟩)) :
      InSequence R note₁ (n + 1) ts note [first]
  | cons {n : ℕ} {ts rest : List Token} {note note' : Option Delimiter} {first : Stmt}
      {more : List Stmt} (hsemi : isSymbol .semi ts = false) (hts : ts ≠ [])
      (hfirst : stmt R ⟨ts, note⟩ = .ok (first, ⟨rest, note'⟩)) (hrest : rest ≠ [])
      (hclosed : first.Closed) (hmore : InSequence R note₁ n rest note' more) :
      InSequence R note₁ (n + 1) ts note (first :: more)

/-- **What is read as statements is read in sequence**, and nothing is left. -/
theorem stmtsIn_eq_ok_iff :
    stmtsIn R n ⟨ts, note⟩ = .ok (stmts, s) ↔
      s.tokens = [] ∧ InSequence R s.leftover n ts note stmts := by
  constructor
  · intro h
    induction n generalizing ts note stmts with
    | zero => cases h
    | succ n ihn =>
      induction ts generalizing note stmts with
      | nil =>
        cases h
        exact ⟨rfl, .done⟩
      | cons t ts ihts =>
        by_cases ht : ∃ joint, t = .leaf (.punct ';' joint)
        · obtain ⟨joint, rfl⟩ := ht
          rw [stmtsIn_semi] at h
          cases hmore : stmtsIn R (n + 1) ⟨ts, note⟩ with
          | error e => simp [hmore, Except.map] at h
          | ok r =>
            rw [hmore] at h
            cases h
            obtain ⟨hnil, hmore⟩ := ihts hmore
            exact ⟨hnil, .empty hmore⟩
        · have hsemi := isSymbol_semi_cons (not_exists.1 ht) ts
          obtain ⟨first, rest, note', hfirst, ⟨rfl, rfl, rfl⟩ | ⟨more, hrest, hclosed, hmore, rfl⟩⟩ :=
            stmtsIn_cases hsemi (List.cons_ne_nil t ts) h
          · exact ⟨rfl, .last hsemi (List.cons_ne_nil t ts) hfirst⟩
          · obtain ⟨hnil, hmore⟩ := ihn hmore
            exact ⟨hnil, .cons hsemi (List.cons_ne_nil t ts) hfirst hrest hclosed hmore⟩
  · obtain ⟨rest, note₁⟩ := s
    rintro ⟨rfl, h⟩
    induction h with
    | done => rfl
    | empty _ ih =>
      rw [stmtsIn_semi, ih]
      rfl
    | last hsemi hts hfirst => exact stmtsIn_last hsemi hts hfirst _
    | cons hsemi hts hfirst hrest hclosed _ ih => exact stmtsIn_cons hsemi hts hfirst hrest hclosed ih

/-- Nothing is read in no rounds. -/
theorem InSequence.pos (h : InSequence R note₁ n ts note stmts) : 0 < n := by
  induction h with
  | done | last | cons => exact Nat.succ_pos _
  | empty _ ih => exact ih

/-- Tokens give statements. -/
theorem InSequence.ne_nil (h : InSequence R note₁ n ts note stmts) (hts : ts ≠ []) : stmts ≠ [] := by
  cases h with
  | done => exact absurd rfl hts
  | empty | last | cons => exact List.cons_ne_nil _ _

theorem stmtsIn_ne_nil (hts : ts ≠ []) (h : stmtsIn R n ⟨ts, note⟩ = .ok (stmts, s)) :
    stmts ≠ [] :=
  (stmtsIn_eq_ok_iff.1 h).2.ne_nil hts

/-! ## Statements before statements -/

/-- A token that parts statements from what follows: a semicolon, or a block
before a name. -/
inductive Divides : Token → List Token → Prop
  | semi (joint : Bool) (X : List Token) : Divides (.leaf (.punct ';' joint)) X
  | block (inner : List Token) (name : String) (more : List Token) :
    Divides (.group .brace inner) (.leaf (.ident name) :: more)

/-- What is read before such a token, or with it, is read alike with more behind
it. -/
theorem Divides.stmt_cases (ht : Divides t X) (h : R.Agree R') {first : Stmt} {rest : List Token}
    (hfirst : stmt R ⟨u ++ [t], note⟩ = .ok (first, ⟨rest, note₁⟩)) :
    (∃ v, rest = v ++ [t] ∧ stmt R' ⟨u ++ t :: X, note⟩ = .ok (first, ⟨v ++ t :: X, note₁⟩)) ∨
      rest = [] ∧ stmt R' ⟨u ++ t :: X, note⟩ = .ok (first, ⟨X, note₁⟩) ∧
        (isSymbol .semi [t] = true → first.Closed) := by
  cases ht with
  | semi joint =>
    rcases (stmt_agree (S := .semi joint joint [] X (Nat.zero_le _)) h id).cases_ok hfirst
      with ⟨v, -, hrest, hlong⟩ | ⟨hclosed, hrest, first', heq, -, hlong⟩
    · exact .inl ⟨v, hrest, hlong⟩
    · exact .inr ⟨hrest, heq rfl ▸ hlong, fun _ => hclosed⟩
  | block inner name more =>
    rcases (stmt_agree (S := .block inner name more) h id).cases_ok hfirst
      with ⟨v, -, hrest, hlong⟩ | ⟨hrest, hlong⟩
    · exact .inl ⟨v, hrest, hlong⟩
    · exact .inr ⟨hrest, hlong, nofun⟩

/-- The last of some statements needs a semicolon before others. -/
def endsOpen (stmts : List Stmt) : Bool := stmts.getLast?.any Stmt.needsSemicolon

theorem endsOpen_cons (hmore : more ≠ []) (first : Stmt) :
    endsOpen (first :: more) = endsOpen more := by
  obtain ⟨second, more, rfl⟩ := List.exists_cons_of_ne_nil hmore
  rw [endsOpen, List.getLast?_cons_cons, endsOpen]

/-- **Statements before statements**: behind a semicolon or a block other
statements are read as if they stood alone, unless the last one before them
needs a semicolon and has none. -/
theorem stmtsIn_append (h : R.Agree R') (hR : R'.Agree R') (hX : X ≠ []) (ht : Divides t X)
    (hbefore : stmtsIn R n ⟨u ++ [t], note⟩ = .ok (before, ⟨[], note₁⟩))
    (hafter : stmtsIn R' m ⟨X, note₁⟩ = .ok (after, s)) :
    (isSymbol .semi [t] = true → endsOpen before = false) ∧
      stmtsIn R' (n + m) ⟨u ++ t :: X, note⟩ =
        if endsOpen before then .error ⟨false, .unterminated⟩ else .ok (before ++ after, s) := by
  have hlast : ∀ k, stmtsIn R' (k + m) ⟨X, note₁⟩ = .ok (after, s) := fun k =>
    (stmtsIn_agree (Q := never) hR (Nat.le_add_left m k)).ok hafter
  have hempty : X.isEmpty = false := by simpa using hX
  have hlong : ∀ {u}, isSymbol .semi (u ++ [t]) = false → isSymbol .semi (u ++ t :: X) = false := by
    intro u hshort
    rw [List.append_cons, isSymbol_semi_behind (by simp), hshort]
  rw [stmtsIn_eq_ok_iff] at hbefore
  obtain ⟨-, hbefore⟩ := hbefore
  generalize hts : u ++ [t] = ts at hbefore
  -- A statement that begins before the divider ends before it or with it.
  induction hbefore generalizing u with
  | done => simp at hts
  | @empty n joint ts note more hmore ih =>
    cases u with
    | nil =>
      -- The divider stands alone, and `X` begins the same round.
      obtain ⟨rfl, rfl⟩ := List.cons.inj hts
      cases hmore with
      | done =>
        rw [List.nil_append, stmtsIn_semi, hlast]
        exact ⟨fun _ => rfl, rfl⟩
      | last _ hts | cons _ hts => exact absurd rfl hts
    | cons t' u =>
      obtain ⟨rfl, rfl⟩ := List.cons.inj hts
      obtain ⟨hsemi, happend⟩ := ih rfl
      rw [endsOpen_cons (hmore.ne_nil (by simp)), List.cons_append, stmtsIn_semi, happend]
      refine ⟨hsemi, ?_⟩
      split <;> rfl
  | @last n ts note first hsemi hne hfirst =>
    subst hts
    rcases ht.stmt_cases h hfirst with ⟨v, hnil, -⟩ | ⟨-, hfirst', hclosed⟩
    · simp at hnil
    · refine ⟨hclosed, ?_⟩
      rw [Nat.succ_add, stmtsIn_succ (hlong hsemi) (by simp), hfirst']
      simp only [hempty, Bool.false_eq_true, if_false, hlast n]
      show _ = if first.needsSemicolon = true then _ else _
      split
      · simp only [failHere, hempty]
      · rfl
  | @cons n ts rest note note' first more hsemi hne hfirst hrest hclosed hmore ih =>
    subst hts
    rcases ht.stmt_cases h hfirst with ⟨v, rfl, hfirst'⟩ | ⟨hnil, -⟩
    · obtain ⟨hends, happend⟩ := ih rfl
      rw [endsOpen_cons (hmore.ne_nil (by simp)), Nat.succ_add, stmtsIn_succ (hlong hsemi) (by simp),
        hfirst']
      refine ⟨hends, ?_⟩
      simp only [happend, show first.needsSemicolon = false from hclosed]
      rw [if_neg (by simp), if_neg Bool.false_ne_true]
      split <;> rfl
    · exact absurd hnil hrest

/-! ## Statements before a semicolon -/

/-- Statements with a semicolon put behind them: it ends the last one, or is one
more. -/
def terminate : List Stmt → List Stmt
  | [] => [.empty]
  | [s] => s.terminate
  | s :: second :: more => s :: terminate (second :: more)

theorem terminate_cons (hmore : more ≠ []) (first : Stmt) :
    terminate (first :: more) = first :: terminate more := by
  obtain ⟨second, more, rfl⟩ := List.exists_cons_of_ne_nil hmore
  rfl

theorem terminate_empty_cons (more : List Stmt) :
    terminate (.empty :: more) = .empty :: terminate more := by
  cases more <;> rfl

/-- **A semicolon behind statements** ends the last of them. -/
theorem stmtsIn_terminate (h : R.Agree R')
    (hread : stmtsIn R n ⟨u, note⟩ = .ok (stmts, ⟨[], note₁⟩)) :
    stmtsIn R' (n + 1) ⟨u ++ [.leaf (.punct ';' joint)], note⟩ =
      .ok (terminate stmts, ⟨[], note₁⟩) := by
  rw [stmtsIn_eq_ok_iff] at hread ⊢
  obtain ⟨-, hread⟩ := hread
  refine ⟨rfl, ?_⟩
  have hlong : ∀ {u}, u ≠ [] → isSymbol .semi u = false →
      isSymbol .semi (u ++ [.leaf (.punct ';' joint)]) = false := fun hu hsemi =>
    (isSymbol_semi_behind hu _).trans hsemi
  have hterminates : ∀ u note, Terminates joint [] (stmt R ⟨u, note⟩)
      (stmt R' ⟨u ++ [.leaf (.punct ';' joint)], note⟩) := fun _ _ => stmt_terminates h
  induction hread with
  | done => exact .empty .done
  | empty _ ih =>
    rw [terminate_empty_cons]
    exact .empty ih
  | @last n ts note first hsemi hts hfirst =>
    have hfirst' := hterminates ts note
    rw [hfirst] at hfirst'
    rcases hfirst' with ⟨hfirst', hfinished⟩ | ⟨-, first', hterminate, hfirst'⟩
    · -- The semicolon is left behind the statement.
      rw [show terminate [first] = [first, .empty] from (hfinished rfl).terminate_eq]
      exact .cons (hlong hts hsemi) (by simp) hfirst' (by simp) (hfinished rfl).closed (.empty .done)
    · -- The statement takes it.
      rw [show terminate [first] = [first'] from hterminate]
      exact .last (hlong hts hsemi) (by simp) hfirst'
  | @cons n ts rest note note' first more hsemi hts hfirst hrest hclosed hmore ih =>
    have hfirst' := hterminates ts note
    rw [hfirst] at hfirst'
    rcases hfirst' with ⟨hfirst', -⟩ | ⟨hnil, -⟩
    · rw [terminate_cons (hmore.ne_nil hrest)]
      exact .cons (hlong hts hsemi) (by simp) hfirst' (by simp) hclosed ih
    · exact absurd hnil hrest

end Grammar

end ProcessCompiler
