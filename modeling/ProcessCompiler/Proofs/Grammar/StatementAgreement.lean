import ProcessCompiler.Proofs.Grammar.ExpressionAgreement
import ProcessCompiler.Proofs.Grammar.ItemAgreement
import ProcessCompiler.Grammar.Statement
/-!
# Agreement of statements

Statements, read over rules that agree, agree. A binding, a declaration and an
expression may all end with the semicolon of the seam. Where only the second
list has one, an expression that ends there takes it.
-/

namespace ProcessCompiler

namespace Grammar

open Parse

variable {R R' : Rules} {S : Seam} [S.Lax] {u : List Token} {attributes : List Token}

/-! ## The kind of a statement -/

@[simp]
theorem startsItem_right [hS : S.Unspent] :
    startsItem (u ++ S.right) = startsItem (u ++ S.left) := by
  cases u with
  | nil =>
    cases S with
    | spent name more => exact absurd rfl (hS.ne name more)
    | _ => rfl
  | cons t u =>
    have hkeyword := isKeyword_right (S := S) (u := t :: u)
    have hkeywords := isKeywordOf_right (S := S) (u := t :: u)
    have hword := isWord_right (S := S) (u := t :: u)
    have hasync : (isKeyword .async_ (u ++ S.left) &&
        !isKeywordOf [.unsafe_, .extern_, .fn_] ((u ++ S.right).drop 1)) =
        (isKeyword .async_ (u ++ S.left) &&
        !isKeywordOf [.unsafe_, .extern_, .fn_] ((u ++ S.left).drop 1)) := by
      grind -ring -linarith
    simp only [List.cons_append] at hkeyword hkeywords hword
    simp only [startsItem, List.cons_append, List.drop_succ_cons, List.drop_zero, hkeyword,
      hkeywords, hword, hasync, isKeyword_right, isKeywordOf_right, isIdent_right, isGroup_right,
      isSymbol_right (y := .colon2) (by decide), isSymbol_right (y := .bar) (by decide)]

/-- A block that ends a statement is seen alike: what may go on with it is no
name. -/
theorem startsMacroBlock_right :
    (isGroup .brace (u ++ S.right) && !isLoneDot ((u ++ S.right).drop 1) &&
        !isSymbol .question ((u ++ S.right).drop 1)) =
      (isGroup .brace (u ++ S.left) && !isLoneDot ((u ++ S.left).drop 1) &&
        !isSymbol .question ((u ++ S.left).drop 1)) := by
  cases u with
  | nil => cases S <;> rfl
  | cons t u =>
    rw [isGroup_right, List.cons_append, List.cons_append, List.drop_one, List.drop_one,
      List.tail_cons, List.tail_cons, isLoneDot_right, isSymbol_right (by decide)]

/-- A statement behind its attributes. -/
def stmtTail (R : Rules) (attributes : List Token) : Parse Stmt := do
  let ts ← tokens
  let afterPath := (← lookAhead plainPath).map (·.2)
  let called := afterPath.filter (isSymbol .bang)
  let two := (called.map (·.drop 1)).getD []
  let three := two.drop 1
  if called.isSome && isGroup .brace two && !isLoneDot three && !isSymbol .question three then
    macroStmt attributes
  else if isKeyword .let_ ts then bindingStmt R attributes
  else if startsItem ts || (called.isSome && (isIdent two || isKeyword .try_ two)) then
    return .item (← itemFrom R)
  else exprStmt R attributes

theorem stmt_eq (R : Rules) : stmt R = outerAttributes R >>= stmtTail R := rfl

/-- What holds of the readers of every kind of statement holds of statements:
both lists are seen to begin with one kind. -/
theorem stmtTail_of [S.Unspent] {note : Option Delimiter}
    {P : Except SyntaxError (Stmt × Stream) → Except SyntaxError (Stmt × Stream) → Prop}
    (hdeep : ∀ e r, e.cause = .tooDeep → P (.error e) r)
    (hcall : P (macroStmt attributes ⟨u ++ S.left, note⟩)
      (macroStmt attributes ⟨u ++ S.right, note⟩))
    (hbinding : P (bindingStmt R attributes ⟨u ++ S.left, note⟩)
      (bindingStmt R' attributes ⟨u ++ S.right, note⟩))
    (hitem : P ((Stmt.item <$> itemFrom R) ⟨u ++ S.left, note⟩)
      ((Stmt.item <$> itemFrom R') ⟨u ++ S.right, note⟩))
    (hexpr : P (exprStmt R attributes ⟨u ++ S.left, note⟩)
      (exprStmt R' attributes ⟨u ++ S.right, note⟩)) :
    P (stmtTail R attributes ⟨u ++ S.left, note⟩)
      (stmtTail R' attributes ⟨u ++ S.right, note⟩) := by
  -- The choice that is left where no macro is called in braces.
  have hplain : ∀ item : Bool,
      P ((if isKeyword .let_ (u ++ S.left) then bindingStmt R attributes
          else if startsItem (u ++ S.left) || item then itemFrom R >>= fun i => pure (.item i)
          else exprStmt R attributes) ⟨u ++ S.left, note⟩)
        ((if isKeyword .let_ (u ++ S.right) then bindingStmt R' attributes
          else if startsItem (u ++ S.right) || item then itemFrom R' >>= fun i => pure (.item i)
          else exprStmt R' attributes) ⟨u ++ S.right, note⟩) := by
    intro item
    rw [isKeyword_right, startsItem_right]
    split
    · exact hbinding
    · split
      · exact hitem
      · exact hexpr
  -- Looking ahead for a path settles the same on both sides, unless it is too deep.
  have hpath := plainPath_firm (S := S) (u := u) note
  simp only [stmtTail, Parse.bind_apply, tokens, lookAhead]
  cases hr : plainPath ⟨u ++ S.left, note⟩ with
  | error e =>
    rw [hr] at hpath
    by_cases he : e.cause = .tooDeep
    · simp only [if_pos he]
      exact hdeep e _ he
    · rcases hpath with h | ⟨e', h, he'⟩
      · exact absurd h he
      · simp only [if_neg he, h, if_neg he']
        exact hplain false
  | ok r =>
    obtain ⟨p, ⟨tokens, note'⟩⟩ := r
    rw [hr] at hpath
    obtain ⟨w, -, rfl, h⟩ := hpath
    simp only [h]
    by_cases hbang : isSymbol .bang (w ++ S.left) = true
    · have hlen : 1 ≤ w.length := isSymbol_length hbang (by decide)
      have hright : isSymbol .bang (w ++ S.right) = true := by rwa [isSymbol_right (by decide)]
      simp only [Option.map_some, Option.filter_some, hbang, hright, if_true, Option.getD_some,
        Option.isSome_some, Bool.true_and, drop_left hlen, drop_right hlen]
      rw [startsMacroBlock_right, isIdent_right, isKeyword_right (u := w.drop 1)]
      split
      · exact hcall
      · exact hplain _
    · have hright : isSymbol .bang (w ++ S.right) = false := by
        rw [isSymbol_right (by decide)]
        exact Bool.eq_false_iff.2 hbang
      simp only [Option.map_some, Option.filter_some, hbang, hright, Bool.false_eq_true, if_false]
      exact hplain false

/-! ## Statements and semicolons -/

/-- A statement behind which others may follow. -/
def Stmt.Closed (s : Stmt) : Prop := s.needsSemicolon = false

/-- What a semicolon behind a statement makes of it. It ends an expression that
had none, and is a statement of its own behind any other. -/
def Stmt.terminate : Stmt → List Stmt
  | .expr attributes e false =>
    match e.bare with
    | .macroCall m => [.macroCall attributes m true]
    | _ => [.expr attributes e true]
  | .macroCall attributes m false => [.macroCall attributes m true]
  | s => [s, .empty]

/-- A statement that has its semicolon, or needs none. -/
structure Stmt.Finished (s : Stmt) : Prop where
  closed : s.Closed
  terminate_eq : s.terminate = [s, .empty]

/-- What has been read as a statement, given whether a semicolon stands behind
it. -/
def finish {α : Type} (p : Parse α) (f : α → Bool → Stmt) : Parse Stmt := do
  let a ← p
  return f a (← symbol? .semi)

theorem macroStmt_eq (attributes : List Token) : macroStmt attributes =
    finish (plainPath >>= macroTail) (Stmt.macroCall attributes) := by
  unfold macroStmt finish
  simp only [bind_assoc]

/-- An expression as a statement, given whether a semicolon stands behind it. -/
def exprAs (attributes : List Token) (e : Expr) (terminated : Bool) : Stmt :=
  match e.bare with
  | .macroCall m =>
    if terminated || m.delimiter = .brace then .macroCall attributes m terminated
    else .expr attributes e terminated
  | _ => .expr attributes e terminated

theorem exprStmt_eq (R : Rules) (attributes : List Token) :
    exprStmt R attributes = finish R.early (exprAs attributes) := by
  unfold exprStmt finish exprAs
  refine bind_congr fun e => bind_congr fun terminated => ?_
  cases e.bare with
  | macroCall m =>
    dsimp only
    split <;> rfl
  | _ => rfl

theorem finished_macroCall (attributes : List Token) (m : MacroCall) :
    (Stmt.macroCall attributes m true).Finished := ⟨rfl, rfl⟩

theorem finished_exprAs (attributes : List Token) (e : Expr) :
    (exprAs attributes e true).Finished := by
  unfold exprAs
  cases e.bare <;> exact ⟨rfl, rfl⟩

/-- A semicolon that follows an expression ends it. -/
theorem terminate_exprAs (attributes : List Token) (e : Expr) :
    (exprAs attributes e false).terminate = [exprAs attributes e true] := by
  unfold exprAs
  cases he : e.bare with
  | macroCall m =>
    by_cases hm : m.delimiter = .brace
    · simp [hm, Stmt.terminate]
    · simp [hm, Stmt.terminate, he]
  | _ => simp [Stmt.terminate, he]

/-! ## Before a semicolon or behind a block -/

theorem finish_agree {α : Type} {p q : Parse α} {f : α → Bool → Stmt}
    (h : AgreeAt S never u p q) (hf : ∀ a, (f a true).Finished) (hS : ¬S.IsEnded) :
    AgreeAt S Stmt.Closed u (finish p f) (finish q f) :=
  .bind h fun a _ => .symbol?_semi (T := S) rfl rfl (fun _ => (hf a).closed)
    (fun hended => absurd ((Seam.isEnded_cut _).1 hended) hS) (.pure _)

omit [S.Lax] in
theorem macroPath_agree [S.Unspent] {Q : MacroCall → Prop} :
    AgreeAt S Q u (plainPath >>= macroTail) (plainPath >>= macroTail) :=
  .firmly plainPath_firm <| macroTail_agree

/-- A semicolon at the end of a binding may be that of the seam. -/
theorem bindingEnd_agree {T : Seam} [S.From T] {Q : Stmt → Prop} {pattern : List Token}
    {type : Option (List Token)} {value : Option Expr} {otherwise : Option (List Stmt)}
    (hQ : T.IsSemi → ∀ s : Stmt, s.Closed → Q s) :
    AgreeAt S Q u
      (symbol .semi >>= fun _ => pure (.binding attributes pattern type value otherwise))
      (symbol .semi >>= fun _ => pure (.binding attributes pattern type value otherwise)) :=
  (AgreeAt.symbol_semi (Q := fun _ => T.IsSemi) id).bindPure fun _ hS => hQ hS _ rfl

theorem bindingStmt_agree {Q : Stmt → Prop} (h : R.Agree R')
    (hQ : S.IsSemi → ∀ s : Stmt, s.Closed → Q s) :
    AgreeAt S Q u (bindingStmt R attributes) (bindingStmt R' attributes) := by
  unfold bindingStmt
  refine .seq (.keyword _) <| .seq (.span (h.pattern _ _ _)) <| .seq (.symbol? (by decide)) <|
    .either Iff.rfl
    (fun _ => .map _ (.span (h.type _ _ _ _))) (fun _ => .pure _) ?_
  refine .seq (.symbol? (y := .eq) (by decide)) <| .choice Iff.rfl ?_ <| bindingEnd_agree hQ
  refine .seq (h.expr _ _ _ _) <| .tokens (.choice (by simp) ?_ <| .seq (.pure _) <|
    bindingEnd_agree hQ)
  exact .seq (.keyword _) <| .seq (.map _ (plainBody_agree h)) <| bindingEnd_agree hQ

theorem item_agree [S.Unspent] {Q : Stmt → Prop} (h : R.Agree R')
    (hQ : S.IsSemi → ∀ s : Stmt, s.Closed → Q s) :
    AgreeAt S Q u (Stmt.item <$> itemFrom R) (Stmt.item <$> itemFrom R') :=
  (itemFrom_agree (Q := fun _ => S.IsSemi) h fun _ => id).bindPure fun _ hS => hQ hS _ rfl

/-- There is no statement where there is no token. -/
theorem stmtTail_refuses (h : R.Agree R') : Refuses (stmtTail R attributes) := by
  intro note s st
  show exprStmt R attributes ⟨[], note⟩ ≠ _
  rw [exprStmt_eq]
  exact h.early_refuses.bind note s st

/-- A statement is read alike before a semicolon, where it may take it, and with
a block behind which a name may follow. -/
theorem stmt_agree [S.Unspent] (h : R.Agree R') (hS : ¬S.IsEnded) :
    AgreeAt S Stmt.Closed u (stmt R) (stmt R') := by
  rw [stmt_eq, stmt_eq]
  refine .bind (outerAttributes_agree h) fun attributes v {b} => .start (stmtTail_refuses h) ?_
  have hended : ¬(S.cut b).IsEnded := fun hended => hS ((Seam.isEnded_cut b).1 hended)
  intro _ hv note
  refine stmtTail_of (fun e r he => .inr (.inl he)) ?_ (bindingStmt_agree h (fun _ _ => id) hv note)
    (item_agree h (fun _ _ => id) hv note) ?_
  · rw [macroStmt_eq]
    exact finish_agree macroPath_agree (finished_macroCall attributes) hended hv note
  · rw [exprStmt_eq, exprStmt_eq]
    exact finish_agree (h.early _ _ _) (finished_exprAs attributes) hended hv note

/-! ## With a semicolon at the end -/

/-- Whatever a reader gives has a property. -/
def Yields {α : Type} (P : α → Prop) (p : Parse α) : Prop :=
  ∀ st a st', p st = .ok (a, st') → P a

theorem Yields.pure {α : Type} {P : α → Prop} {a : α} (h : P a) : Yields P (Pure.pure a) := by
  intro st b st' hb
  cases hb
  exact h

theorem Yields.bind {α β : Type} {P : β → Prop} {p : Parse α} {f : α → Parse β}
    (h : ∀ {a}, Yields P (f a)) : Yields P (p >>= f) := by
  intro st b st' hb
  rw [Parse.bind_apply] at hb
  split at hb
  · exact h _ _ _ hb
  · cases hb

theorem yields_bindingStmt {P : Stmt → Prop}
    (hP : ∀ pattern type value otherwise, P (.binding attributes pattern type value otherwise)) :
    Yields P (bindingStmt R attributes) := by
  have hend : ∀ pattern type value otherwise, Yields P
      (symbol .semi >>= fun _ => pure (.binding attributes pattern type value otherwise)) :=
    fun _ _ _ _ => .bind <| .pure (hP _ _ _ _)
  unfold bindingStmt
  refine .bind <| .bind <| .bind fun {typed} => ?_
  split <;> refine .bind <| .bind fun {valued} => ?_ <;> split <;> try exact hend _ _ _ _
  all_goals
    refine .bind fun {value} => .bind fun {ts} => ?_
    split
    · exact .bind <| .bind <| hend _ _ _ _
    · exact .bind <| hend _ _ _ _

/-- What becomes of a statement if a semicolon is put behind its tokens, and
more: it is left there if the statement was over, and ends it otherwise. -/
def Terminates (joint : Bool) (long : List Token) :
    Except SyntaxError (Stmt × Stream) → Except SyntaxError (Stmt × Stream) → Prop
  | .error _, _ => True
  | .ok (s, st), r =>
    r = .ok (s, ⟨st.tokens ++ .leaf (.punct ';' joint) :: long, st.leftover⟩) ∧
        (st.tokens = [] → s.Finished) ∨
      st.tokens = [] ∧ ∃ s', s.terminate = [s'] ∧ r = .ok (s', ⟨long, st.leftover⟩)

variable {joint : Bool} {long : List Token} {note : Option Delimiter}

/-- A reader that leaves the semicolon, and gives statements that are over. -/
theorem terminates_of_agree {p q : Parse Stmt} (h : AgreeAt (.ended false joint long) never u p q)
    (hp : Yields Stmt.Finished p) :
    Terminates joint long (p ⟨u, note⟩) (q ⟨u ++ .leaf (.punct ';' joint) :: long, note⟩) := by
  rcases hr : p ⟨u, note⟩ with e | ⟨s, ⟨rest, note'⟩⟩
  · trivial
  · have hleft : p ⟨u ++ (Seam.ended false joint long).left, note⟩ = .ok (s, ⟨rest, note'⟩) := by
      rw [← hr, Seam.left, List.append_nil]
    rcases h.cases_ok hleft with ⟨v, -, rfl, hq⟩ | hpassed
    · exact .inl ⟨by simpa [Seam.left, Seam.right] using hq, fun _ => hp _ _ _ hr⟩
    · exact hpassed.1.elim

theorem terminates_finish {α : Type} {p q : Parse α} {f : α → Bool → Stmt}
    (h : AgreeAt (.ended false joint long) never u p q) (hf : ∀ a, (f a true).Finished)
    (hterminate : ∀ a, (f a false).terminate = [f a true]) :
    Terminates joint long (finish p f ⟨u, note⟩)
      (finish q f ⟨u ++ .leaf (.punct ';' joint) :: long, note⟩) := by
  simp only [finish, Parse.bind_apply, symbol?_apply]
  rcases hr : p ⟨u, note⟩ with e | ⟨a, ⟨rest, note'⟩⟩
  · trivial
  · have hleft : p ⟨u ++ (Seam.ended false joint long).left, note⟩ = .ok (a, ⟨rest, note'⟩) := by
      rw [← hr, Seam.left, List.append_nil]
    rcases h.cases_ok hleft with ⟨v, -, rfl, hq⟩ | hpassed
    · rw [show q ⟨u ++ .leaf (.punct ';' joint) :: long, note⟩ = _ from hq]
      simp only [Seam.left, Seam.right, List.append_nil]
      cases v with
      | nil => exact .inr ⟨rfl, f a true, hterminate a, rfl⟩
      | cons t v =>
        have hsemi := isSymbol_semi_append t (v ++ .leaf (.punct ';' joint) :: long) v
        by_cases ht : isSymbol .semi (t :: v) = true
        · simp only [List.cons_append, hsemi, ht, if_true]
          exact .inl ⟨rfl, fun _ => hf a⟩
        · simp only [List.cons_append, hsemi, ht]
          exact .inl ⟨rfl, by simp⟩
    · exact hpassed.1.elim

/-- A statement with a semicolon put behind it. -/
theorem stmt_terminates (h : R.Agree R') :
    Terminates joint long (stmt R ⟨u, note⟩)
      (stmt R' ⟨u ++ .leaf (.punct ';' joint) :: long, note⟩) := by
  simp only [stmt_eq, Parse.bind_apply]
  rcases hr : outerAttributes R ⟨u, note⟩ with e | ⟨attributes, ⟨rest, note'⟩⟩
  · trivial
  · have hleft : outerAttributes R ⟨u ++ (Seam.ended false joint long).left, note⟩ =
        .ok (attributes, ⟨rest, note'⟩) := by
      rw [← hr, Seam.left, List.append_nil]
    rcases (outerAttributes_agree (Q := never) h).cases_ok hleft with ⟨v, -, rfl, hq⟩ | hpassed
    · rw [show outerAttributes R' ⟨u ++ .leaf (.punct ';' joint) :: long, note⟩ = _ from hq]
      have hnil : v ++ (Seam.ended false joint long).left = v := List.append_nil v
      refine stmtTail_of (fun _ _ _ => trivial) ?_ ?_ ?_ ?_ <;> rw [hnil]
      · rw [macroStmt_eq]
        exact terminates_finish macroPath_agree (finished_macroCall attributes) fun _ => rfl
      · exact terminates_of_agree (bindingStmt_agree h False.elim)
          (yields_bindingStmt fun _ _ _ _ => ⟨rfl, rfl⟩)
      · exact terminates_of_agree (item_agree h False.elim) (.bind <| .pure ⟨rfl, rfl⟩)
      · rw [exprStmt_eq, exprStmt_eq]
        exact terminates_finish (h.early _ _ _) (finished_exprAs attributes)
          (terminate_exprAs attributes)
    · exact hpassed.1.elim

end Grammar

end ProcessCompiler
