import ProcessCompiler.Proofs.Grammar.Climbing
/-!
# Operands

An expression is an operand with operators behind it. An operand has attributes
and operators before it, or is an atom with calls, fields and indices behind it;
`AtomForm` is what an atom can be. Where nothing goes on behind an atom, it is the
whole expression: `expr_of_atom`.
-/

namespace ProcessCompiler

namespace Grammar

open Parse

variable {R : Rules} {ts rest : List Token} {note : Option Delimiter} {n : ℕ} {structs : Bool}
  {e e' : Expr} {st st' : Stream}

/-! ## Where an expression ends -/

/-- What is ahead goes on with an expression. -/
def goesOn (ts : List Token) : Bool :=
  takes .jump ts || isGroup .paren ts || isLoneDot ts || isGroup .bracket ts || isSymbol .question ts

theorem climbRule_of_not_goesOn (h : goesOn ts = false) :
    climbRule R e structs .jump ⟨ts, note⟩ = .ok (e, ⟨ts, note⟩) := by
  simp only [goesOn, Bool.or_eq_false_iff] at h
  exact climbRule_of_not_takes h.1.1.1.1

theorem trailersRule_of_not_goesOn (h : goesOn ts = false) :
    trailersRule R e ⟨ts, note⟩ = .ok (e, ⟨ts, note⟩) := by
  simp only [goesOn, Bool.or_eq_false_iff] at h
  simp only [trailersRule, Parse.bind_apply, tokens, h, Bool.false_and, Bool.false_eq_true, if_false]
  rfl

/-! ## Attributes -/

/-- Rounds end where no further one begins. -/
theorem repeatIn_stops {α : Type} {more : List Token → Bool} {p : Parse α} {as : List α}
    (h : repeatIn more p n st = .ok (as, st')) : more st'.tokens = false := by
  induction n generalizing st as with
  | zero => cases h
  | succ n ih =>
    obtain ⟨ts, st₁, htokens, h⟩ := bind_ok h
    cases htokens
    split at h
    · obtain ⟨a, st₁, -, h⟩ := bind_ok h
      obtain ⟨as, st₂, has, h⟩ := bind_ok h
      cases h
      exact ih has
    · rename_i hmore
      cases h
      exact Bool.eq_false_iff.2 hmore

/-- Behind the attributes there is none. -/
theorem isSymbol_hash_of_outerAttributes {attributes : List Token}
    (h : outerAttributes R st = .ok (attributes, st')) : isSymbol .hash st'.tokens = false := by
  obtain ⟨⟨as, us⟩, st₁, h, hst⟩ := bind_ok h
  cases hst
  obtain ⟨ts, st₂, htokens, h⟩ := bind_ok h
  cases htokens
  obtain ⟨as, st₂, hrepeat, h⟩ := bind_ok h
  obtain ⟨ts, st₃, htokens, h⟩ := bind_ok h
  cases htokens
  cases h
  obtain ⟨ts, st₂, htokens, hrepeat⟩ := bind_ok hrepeat
  cases htokens
  exact repeatIn_stops hrepeat

theorem outerAttributes_of_noHash (h : isSymbol .hash ts = false) :
    outerAttributes R ⟨ts, note⟩ = .ok ([], ⟨ts, note⟩) := by
  simp only [outerAttributes, span, spanned, repeatWhile, repeatIn, Parse.bind_apply, tokens, h,
    Bool.false_eq_true, if_false]
  show Except.ok (ts.take (ts.length - ts.length), _) = _
  rw [Nat.sub_self, List.take_zero]

/-- An operand behind its attributes. -/
def operand (R : Rules) (structs : Bool) : Parse Expr := do
  let ts ← tokens
  if isSymbol .amp ts then borrowExpr R structs
  else if isSymbol .star ts then
    symbol .star
    return .unary .dereference (← R.unary structs)
  else if isSymbol .bang ts then
    symbol .bang
    return .unary .invert (← R.unary structs)
  else if isSymbol .minus ts then
    symbol .minus
    return .unary .negate (← R.unary structs)
  else
    let e ← atom R structs
    R.trailers e

/-- An operand with its attributes. A range takes none. -/
def attach (attributes : List Token) (e : Expr) : Parse Expr :=
  if !attributes.isEmpty && e.isRange then fail .attributedRange
  else return withAttributes attributes e

theorem attach_unary (attributes : List Token) (op : UnaryOp) (e : Expr) :
    attach attributes (.unary op e) = pure (withAttributes attributes (.unary op e)) := by
  simp [attach, Expr.isRange, Expr.bare]

theorem attach_borrow (attributes : List Token) (kind : Borrow) (e : Expr) :
    attach attributes (.borrow kind e) = pure (withAttributes attributes (.borrow kind e)) := by
  simp [attach, Expr.isRange, Expr.bare]

theorem unaryRule_eq (R : Rules) (structs : Bool) : unaryRule R structs =
    outerAttributes R >>= fun attributes => operand R structs >>= attach attributes := by
  unfold unaryRule operand borrowExpr
  refine bind_congr fun attributes => ?_
  simp only [bind_assoc]
  refine bind_congr fun ts => ?_
  split
  · simp only [bind_assoc]
    refine bind_congr fun _ => bind_congr fun ts => ?_
    split <;> simp only [bind_assoc, pure_bind, attach_borrow]
  · split
    · simp only [bind_assoc, pure_bind, attach_unary]
    · split
      · simp only [bind_assoc, pure_bind, attach_unary]
      · split
        · simp only [bind_assoc, pure_bind, attach_unary]
        · simp only [bind_assoc]
          rfl

/-- Where no attribute is ahead the operand begins at once. -/
theorem unaryRule_of_noHash (h : isSymbol .hash ts = false) :
    unaryRule R structs ⟨ts, note⟩ = operand R structs ⟨ts, note⟩ := by
  have hattach : operand R structs >>= attach [] = operand R structs := by
    have hpure : attach [] = (pure : Expr → Parse Expr) := rfl
    rw [hpure, bind_pure]
  rw [unaryRule_eq, Parse.bind_apply, outerAttributes_of_noHash h]
  exact congrFun hattach _

/-! ## What an atom is -/

theorem exists_of_isGroup {d : Delimiter} (h : isGroup d ts = true) :
    ∃ inner x, ts = .group d inner :: x := by
  unfold isGroup at h
  split at h
  · exact ⟨_, _, by rw [eq_of_beq h]⟩
  · cases h

theorem exists_of_isLifetime (h : isLifetime ts = true) :
    ∃ name x, ts = .leaf (.lifetime name) :: x := by
  unfold isLifetime at h
  split at h
  · exact ⟨_, _, rfl⟩
  · cases h

theorem not_goesOn_of_startsPlain (h : startsPlain ts = true) (has : isKeyword .as_ ts = false)
    (hparen : isGroup .paren ts = false) (hbracket : isGroup .bracket ts = false) :
    goesOn ts = false := by
  have hno := isSymbol_of_startsPlain h
  have hop : binaryOp? ts = none := List.find?_eq_none.2 fun y _ => by simp [hno]
  simp [goesOn, takes, hop, isAssign, isLoneDot, hno, has, hparen, hbracket]

theorem not_goesOn_of_isKeyword {k : Keyword} (h : isKeyword k ts = true) (hk : k ≠ .as_) :
    goesOn ts = false := by
  obtain ⟨x, rfl⟩ := exists_of_isKeyword h
  refine not_goesOn_of_startsPlain rfl ?_ rfl rfl
  simpa [isKeyword] using hk.symm

theorem Yields.when {α : Type} {P : α → Prop} {c : Prop} [Decidable c] {p q : Parse α}
    (hp : c → Yields P p) (hq : ¬c → Yields P q) : Yields P (if c then p else q) := by
  split
  · exact hp ‹_›
  · exact hq ‹_›

theorem Yields.ite {α : Type} {P : α → Prop} {c : Prop} [Decidable c] {p q : Parse α}
    (hp : Yields P p) (hq : Yields P q) : Yields P (if c then p else q) :=
  .when (fun _ => hp) fun _ => hq

theorem yields_branchIn (k : ℕ) : Yields (·.isBlockLike = true) (branchIn R k) := by
  induction k with
  | zero => exact fun _ _ _ h => nomatch h
  | succ k ih =>
    refine .bind <| .bind <| .bind <| .bind <| .ite ?_ (.pure rfl)
    exact .bind <| .ite (.bind <| .pure rfl)
      (.ite (.bind <| .pure rfl) fun _ _ _ h => nomatch h)

theorem yields_labelledExpr : Yields (·.isBlockLike = true) (labelledExpr R) :=
  .bind <| .bind <| .bind <| .ite (.bind <| .bind <| .bind <| .pure rfl)
    (.ite (.bind <| .bind <| .bind <| .bind <| .bind <| .pure rfl)
    (.ite (.bind <| .bind <| .pure rfl)
    (.ite (.bind <| .pure rfl) fun _ _ _ h => nomatch h)))

theorem Expr.isBlockLike_of_isRange (h : e.isRange = true) : e.isBlockLike = false := by
  unfold isRange at h
  unfold isBlockLike
  split at h
  · rename_i hbare
    rw [hbare]
  · cases h

/-- An atom that is neither a path nor ends with its block, a range or the test of a
pattern. -/
def Expr.isPlainAtom : Expr → Bool
  | .literal _ | .bool _ | .paren _ | .tuple _ | .array _ | .repeated .. | .closure .. | .jump ..
  | .block (.async_ _) .. | .underscore | .verbatim _ => true
  | _ => false

/-- The kinds of atom, with what they begin with. -/
inductive AtomForm (R : Rules) (structs : Bool) (st : Stream) : Expr → Stream → Prop
  | path {e : Expr} {st' : Stream} (start : startsPathExpr st.tokens = true)
      (read : pathExpr R structs st = .ok (e, st')) : AtomForm R structs st e st'
  | block {e : Expr} {st' : Stream} (start : goesOn st.tokens = false)
      (block : e.isBlockLike = true) : AtomForm R structs st e st'
  | range {closed : Bool} {stop : Option Expr} {st' : Stream} :
      AtomForm R structs st (.range none closed stop) st'
  | letting {pattern : List Token} {e : Expr} {st' : Stream}
      (start : isKeyword .let_ st.tokens = true) : AtomForm R structs st (.letting pattern e) st'
  | plain {e : Expr} {st' : Stream} (plain : e.isPlainAtom = true) : AtomForm R structs st e st'

theorem yields_closure : Yields (·.isPlainAtom = true) (closure R structs) :=
  .bind <| .bind <| .ite (.bind <| .bind <| .pure rfl)
    (.bind <| .pure rfl)

theorem Yields.within {α : Type} {P : α → Prop} {d : Delimiter} {p : Parse α} (h : Yields P p) :
    Yields P (Parse.within d p) := by
  intro st a st' ha
  unfold Parse.within at ha
  split at ha
  · split at ha
    · split at ha
      · cases ha
        exact h _ _ _ ‹_›
      · cases ha
    · cases ha
  · cases ha

theorem yields_parenExpr : Yields (·.isPlainAtom = true) (parenExpr R) :=
  .within (.bind <| .ite (.pure rfl) (.bind <| .bind <| .ite (.pure rfl) (.bind <| .pure rfl)))

theorem yields_arrayExpr : Yields (·.isPlainAtom = true) (arrayExpr R) :=
  .within (.bind <| .ite (.pure rfl) (.bind <| .bind <|
    .ite (.bind <| .pure rfl) (.ite (.bind <| .bind <| .pure rfl)
      fun _ _ _ h => nomatch h)))

theorem yields_breakExpr : Yields (·.isPlainAtom = true) (breakExpr R structs) :=
  .bind <| .bind <| .ite (.bind fun _ _ _ h => nomatch h)
    (.bind <| .bind <| .ite (.bind <| .pure rfl) (.bind <| .pure rfl))

theorem yields_literalExpr : Yields (·.isPlainAtom = true) literalExpr := by
  refine .bind fun {ts} => ?_
  split <;> exact .bind <| .pure rfl

theorem yields_verbatim (p : Parse (List Token)) :
    Yields (·.isPlainAtom = true) (Expr.verbatim <$> p) := by
  intro st e st' h
  obtain ⟨kept, -, rfl⟩ := map_ok h
  rfl

/-- **What an atom is**, by its first tokens. -/
theorem atomForm_of_atom (h : atom R structs st = .ok (e, st')) : AtomForm R structs st e st' := by
  let Q : Parse Expr → Prop := fun p => ∀ e st', p st = .ok (e, st') → AtomForm R structs st e st'
  have hite : ∀ {c : Prop} [Decidable c] {p q : Parse Expr}, (c → Q p) → Q q →
      Q (if c then p else q) := by
    intro c _ p q hp hq
    split
    · exact hp ‹_›
    · exact hq
  have hplain : ∀ {p : Parse Expr}, Yields (·.isPlainAtom = true) p → Q p :=
    fun hp e st' h => .plain (hp _ _ _ h)
  have hblock : ∀ {k : Keyword} {p : Parse Expr}, k ≠ .as_ → Yields (·.isBlockLike = true) p →
      isKeyword k st.tokens = true → Q p :=
    fun hk hp hword e st' h => .block (not_goesOn_of_isKeyword hword hk) (hp _ _ _ h)
  obtain ⟨us, st₁, htokens, h⟩ := bind_ok h
  cases htokens
  -- The choices of `atom`, in its order; four of them are looked into below.
  refine (show Q _ from ?_) e st' h
  refine hite (fun _ => hplain yields_literalExpr) <|
    hite (fun _ => hplain (.bind <| .bind <| .bind <| .pure rfl)) <|
    hite (fun hc => hblock (k := .try_) nofun (.bind <| .bind <| .pure rfl)
      (Bool.and_eq_true_iff.1 hc).1) <|
    hite (fun _ => hplain yields_closure) <| hite (fun _ => hplain (yields_verbatim _)) <|
    hite (fun hc e st' h => .path hc h) <| hite (fun _ => hplain yields_parenExpr) <|
    hite (fun _ => hplain yields_breakExpr) <|
    hite (fun _ => hplain (.bind <| .bind <| .pure rfl)) <|
    hite (fun _ => hplain (.bind <| .bind <| .pure rfl)) <|
    hite (fun _ => hplain (yields_verbatim _)) <| hite (fun _ => hplain yields_arrayExpr) <|
    hite (fun hlet e st' h => ?letting) <| hite (hblock nofun (.bind <| yields_branchIn _)) <|
    hite (hblock nofun (.bind <| .bind <| .bind <| .pure rfl)) <|
    hite (hblock nofun (.bind <| .bind <| .bind <| .bind <| .bind <| .pure rfl)) <|
    hite (hblock nofun (.bind <| .bind <| .pure rfl)) <|
    hite (hblock nofun (.bind <| .bind <| .bind <| .pure rfl)) <|
    hite (fun _ => hplain (.bind <| .bind <| .pure rfl)) <|
    hite (hblock nofun (.bind <| .bind <| .pure rfl)) <|
    hite (hblock nofun (.bind <| .bind <| .pure rfl)) <| hite (fun hbrace e st' h => ?brace) <|
    hite (fun _ e st' h => ?range) <| hite (fun _ => hplain (.bind <| .pure rfl)) <|
    hite (fun hlifetime e st' h => ?lifetime)
      fun _ _ h => nomatch h
  case letting =>
    obtain ⟨⟨⟩, _, -, h⟩ := bind_ok h
    obtain ⟨pattern, _, -, h⟩ := bind_ok h
    obtain ⟨⟨⟩, _, -, h⟩ := bind_ok h
    obtain ⟨_, _, -, h⟩ := bind_ok h
    obtain ⟨_, _, -, h⟩ := bind_ok h
    cases h
    exact .letting hlet
  case brace =>
    obtain ⟨inner, x, hx⟩ := exists_of_isGroup hbrace
    obtain ⟨body, _, -, h⟩ := bind_ok h
    cases h
    exact .block (by rw [hx]; rfl) rfl
  case range =>
    obtain ⟨closed, stop, rfl⟩ := yields_rangeFrom _ _ _ h
    exact .range
  case lifetime =>
    obtain ⟨name, x, hx⟩ := exists_of_isLifetime hlifetime
    exact .block (by rw [hx]; rfl) (yields_labelledExpr _ _ _ h)

/-! ## What an operand is -/

/-- An expression with a call, a field, an index, a `?` or a wait behind it. -/
def Expr.isTrailed : Expr → Bool
  | .call .. | .methodCall .. | .field .. | .index .. | .propagate _ | .await _ => true
  | _ => false

/-- An operator before an operand. -/
def Expr.isPrefixed : Expr → Bool
  | .unary .. | .borrow .. => true
  | _ => false

theorem Expr.isTrailed_foldl_field {positions : List ℕ} (h : positions ≠ []) (e : Expr) :
    (positions.foldl (fun e i => Expr.field e (.position i)) e).isTrailed = true := by
  induction positions generalizing e with
  | nil => exact absurd rfl h
  | cons i positions ih =>
    rcases eq_or_ne positions [] with rfl | hne
    · rfl
    · exact ih hne _

theorem splitDots_ne_nil (text : List Char) : splitDots text ≠ [] := by
  unfold splitDots
  split
  · exact List.cons_ne_nil _ _
  · exact List.cons_ne_nil _ _
  · split <;> exact List.cons_ne_nil _ _

theorem yields_positionsOf {negative : Bool} {parts : List (List Char)} (h : parts ≠ []) :
    Yields (· ≠ []) (positionsOf negative parts) := by
  obtain ⟨part, rest, rfl⟩ := List.exists_cons_of_ne_nil h
  unfold positionsOf
  exact .ite (.bind <| .bind <| .bind <| .pure (List.cons_ne_nil _ _))
    (.bind <| .bind <| .pure (List.cons_ne_nil _ _))

theorem yields_memberFrom : Yields (·.isTrailed = true) (memberFrom R e) := by
  refine .bind fun {awaited} => .ite (.pure rfl) (.bind fun {m} => ?_)
  cases m with
  | position => exact .pure rfl
  | named name =>
    have hgo : ∀ generics : Option (List Token), Yields (Expr.isTrailed · = true) (tokens >>= fun ts =>
        if (generics.isSome || isGroup .paren ts) = true then
          within .paren (commas (R.expr true)) >>= fun arguments =>
            pure (Expr.methodCall e name generics arguments)
        else pure (.field e (.named name))) :=
      fun _ => .bind <| .ite (.bind <| .pure rfl) (.pure rfl)
    exact .bind <| .ite (.bind <| hgo _) (.bind <| hgo _)

theorem yields_dotFrom : Yields (·.isTrailed = true) (dotFrom R e) := by
  refine .bind <| .bind fun {ts} => ?_
  split
  · refine .bind fun st e' st' h => ?_
    obtain ⟨⟨e₁, open_⟩, st₁, hfields, h⟩ := bind_ok h
    obtain ⟨positions, st₂, hpositions, hfields⟩ := bind_ok hfields
    cases hfields
    dsimp only at h
    split at h
    · exact yields_memberFrom _ _ _ h
    · cases h
      exact Expr.isTrailed_foldl_field (yields_positionsOf (splitDots_ne_nil _) _ _ _ hpositions) e
  · exact yields_memberFrom

/-- What calls, fields and indices make of an expression. -/
theorem eq_or_isTrailed_of_trailers (h : (Rules.ofDepth n).trailers e st = .ok (e', st')) :
    e' = e ∧ st' = st ∨ e'.isTrailed = true := by
  induction n generalizing e st with
  | zero => cases h
  | succ n ih =>
    have hgo : ∀ {e₁ st₁}, e₁.isTrailed = true →
        (Rules.ofDepth n).trailers e₁ st₁ = .ok (e', st') → e'.isTrailed = true := by
      intro e₁ st₁ he₁ h
      rcases ih h with ⟨rfl, -⟩ | he'
      · exact he₁
      · exact he'
    obtain ⟨ts, st₁, htokens, h⟩ := bind_ok (show trailersRule _ e st = _ from h)
    cases htokens
    split_ifs at h
    · obtain ⟨arguments, st₁, -, h⟩ := bind_ok h
      exact .inr (hgo rfl h)
    · obtain ⟨e₁, st₁, hdot, h⟩ := bind_ok h
      exact .inr (hgo (yields_dotFrom _ _ _ hdot) h)
    · obtain ⟨position, st₁, -, h⟩ := bind_ok h
      exact .inr (hgo rfl h)
    · obtain ⟨position, st₁, -, h⟩ := bind_ok h
      exact .inr (hgo rfl h)
    · cases h
      exact .inl ⟨rfl, rfl⟩

/-- **What an operand is**: it has an operator before it, or is an atom with what
stands behind that. -/
theorem operand_cases (h : operand R structs st = .ok (e, st')) :
    e.isPrefixed = true ∨ ∃ e₁ st₁, atom R structs st = .ok (e₁, st₁) ∧
      R.trailers e₁ st₁ = .ok (e, st') := by
  have hunary : ∀ {y op}, Yields (Expr.isPrefixed · = true) (symbol y >>= fun _ =>
      R.unary structs >>= fun e => pure (Expr.unary op e)) :=
    .bind <| .bind <| .pure rfl
  have hborrow : Yields (·.isPrefixed = true) (borrowExpr R structs) :=
    .bind <| .bind <| .ite (.bind <| .bind <| .pure rfl)
      (.bind <| .bind <| .pure rfl)
  obtain ⟨us, st₁, htokens, h⟩ := bind_ok h
  cases htokens
  split at h
  · exact .inl (hborrow _ _ _ h)
  split at h
  · exact .inl (hunary _ _ _ h)
  split at h
  · exact .inl (hunary _ _ _ h)
  split at h
  · exact .inl (hunary _ _ _ h)
  · obtain ⟨e₁, st₁, hatom, h⟩ := bind_ok h
    exact .inr ⟨e₁, st₁, hatom, h⟩

/-- An operator before an operand begins here. -/
def startsUnary (ts : List Token) : Bool :=
  isSymbol .amp ts || isSymbol .star ts || isSymbol .bang ts || isSymbol .minus ts

theorem not_startsUnary_of_startsPlain (h : startsPlain ts = true) : startsUnary ts = false := by
  simp [startsUnary, isSymbol_of_startsPlain h]

/-- Where no operator stands before it, an operand begins with an atom. -/
theorem operand_of_atom (h : startsUnary st.tokens = false) :
    operand R structs st = (atom R structs >>= R.trailers) st := by
  simp only [startsUnary, Bool.or_eq_false_iff] at h
  simp only [operand, Parse.bind_apply, tokens, h, Bool.false_eq_true, if_false]

/-! ### Ranges and tests of patterns -/

/-- Neither the test of a pattern nor a range. -/
def Expr.Simple (e : Expr) : Prop := e.isLetting = false ∧ e.isRange = false

theorem Expr.simple_of_isBlockLike (h : e.isBlockLike = true) : e.Simple := by
  unfold isBlockLike at h
  unfold Simple isLetting isRange
  split at h <;> rename_i hbare <;> first | exact ⟨by rw [hbare], by rw [hbare]⟩ | cases h

theorem Expr.simple_of_isPlainAtom (h : e.isPlainAtom = true) : e.Simple := by
  unfold isPlainAtom at h
  split at h <;> first | exact ⟨rfl, rfl⟩ | cases h

theorem Expr.simple_of_isTrailed (h : e.isTrailed = true) : e.Simple := by
  unfold isTrailed at h
  split at h <;> first | exact ⟨rfl, rfl⟩ | cases h

theorem Expr.simple_of_isPrefixed (h : e.isPrefixed = true) : e.Simple := by
  unfold isPrefixed at h
  split at h <;> first | exact ⟨rfl, rfl⟩ | cases h

theorem yields_pathExpr : Yields Expr.Simple (pathExpr R structs) :=
  .bind <| .bind <| .ite (.bind <| .pure ⟨rfl, rfl⟩)
    (.ite (.bind <| .pure ⟨rfl, rfl⟩) (.pure ⟨rfl, rfl⟩))

/-- Of the operands only a `let` begins the test of a pattern, and a range has no
start. -/
theorem operand_shape (h : operand (Rules.ofDepth n) structs st = .ok (e, st')) :
    e.Simple ∨ e.isStartless = true ∨ isKeyword .let_ st.tokens = true ∧ e.isLetting = true := by
  rcases operand_cases h with hop | ⟨e₁, st₁, hatom, h⟩
  · exact .inl (Expr.simple_of_isPrefixed hop)
  rcases eq_or_isTrailed_of_trailers h with ⟨rfl, -⟩ | htrailed
  · cases atomForm_of_atom hatom with
    | path start read => exact .inl (yields_pathExpr _ _ _ read)
    | block start block => exact .inl (Expr.simple_of_isBlockLike block)
    | range => exact .inr (.inl rfl)
    | letting start => exact .inr (.inr ⟨start, rfl⟩)
    | plain plain => exact .inl (Expr.simple_of_isPlainAtom plain)
  · exact .inl (Expr.simple_of_isTrailed htrailed)

/-! ## Attributes before an expression -/

/-- An expression is the same at every depth at which it is read. -/
theorem expr_unique {m : ℕ} {st₁ st₂ : Stream}
    (h : (Rules.ofDepth n).expr structs st = .ok (e, st₁))
    (h' : (Rules.ofDepth m).expr structs st = .ok (e', st₂)) : e = e' ∧ st₁ = st₂ :=
  Rules.ok_unique (p := fun R => R.expr structs) (fun h _ => h.expr _ _ _ _) h h'

/-- **An expression begins with an operand**, behind its attributes. -/
theorem exists_operand_of_expr {attributes : List Token} {st₀ : Stream}
    (h : (Rules.ofDepth n).expr structs st = .ok (e, st')) {m : ℕ}
    (hattributes : outerAttributes (Rules.ofDepth m) st = .ok (attributes, st₀)) :
    ∃ k e₁ st₁, operand (Rules.ofDepth k) structs st₀ = .ok (e₁, st₁) ∧
      attach attributes e₁ st₁ = .ok (withAttributes attributes e₁, st₁) ∧
      (Rules.ofDepth k).climb (withAttributes attributes e₁) structs .jump st₁ = .ok (e, st') := by
  rcases n with _ | _ | n
  · cases h
  · cases h
  obtain ⟨e₀, st₁, hunary, hclimb⟩ := bind_ok h
  -- At one depth for both, the attributes are the same.
  generalize hk : max (n + 1) m = k
  have hdeep := (unaryRule_agree (S := .closed) (Q := never)
    (Rules.agree_ofDepth (show n ≤ k by omega))).ok hunary
  rw [unaryRule_eq, Parse.bind_apply, (outerAttributes_agree (S := .closed) (Q := never)
    (Rules.agree_ofDepth (show m ≤ k by omega))).ok hattributes] at hdeep
  obtain ⟨e₁, st₂, hoperand, hattach⟩ := bind_ok hdeep
  obtain ⟨rfl, rfl⟩ : st₂ = st₁ ∧ withAttributes attributes e₁ = e₀ := by
    unfold attach at hattach
    split at hattach
    · cases hattach
    · cases hattach
      exact ⟨rfl, rfl⟩
  exact ⟨k, e₁, st₂, hoperand, hattach,
    ((Rules.agree_ofDepth (show n + 1 ≤ k by omega)).climb .closed never _ _ _ _).ok hclimb⟩

/-- An operand behind attributes, with the operators behind it, is an expression. -/
theorem expr_of_operand {attributes : List Token} {st₀ st₁ : Stream} {e₁ : Expr}
    (hattributes : outerAttributes (Rules.ofDepth n) st = .ok (attributes, st₀))
    (hoperand : operand (Rules.ofDepth n) structs st₀ = .ok (e₁, st₁))
    (hattach : attach attributes e₁ st₁ = .ok (withAttributes attributes e₁, st₁))
    (hclimb : (Rules.ofDepth n).climb (withAttributes attributes e₁) structs .jump st₁ =
      .ok (e, st')) :
    (Rules.ofDepth (n + 2)).expr structs st = .ok (e, st') := by
  have hunary : unaryRule (Rules.ofDepth n) structs st =
      .ok (withAttributes attributes e₁, st₁) := by
    rw [unaryRule_eq, Parse.bind_apply, hattributes]
    show (operand (Rules.ofDepth n) structs >>= attach attributes) st₀ = _
    rw [Parse.bind_apply, hoperand]
    exact hattach
  show (unaryRule (Rules.ofDepth n) structs >>= fun lhs =>
    (Rules.ofDepth (n + 1)).climb lhs structs .jump) st = _
  rw [Parse.bind_apply, hunary]
  exact ((Rules.agree_ofDepth (Nat.le_succ n)).climb .closed never _ _ _ _).ok hclimb

section

variable {attributes : List Token} {st₀ st₁ : Stream} {a : Expr}

/-- **An atom is the whole expression**, if nothing goes on behind it. -/
theorem expr_of_atom (hattributes : outerAttributes (Rules.ofDepth n) st = .ok (attributes, st₀))
    (hstart : startsUnary st₀.tokens = false) (hatom : ∀ R, atom R structs st₀ = .ok (a, st₁))
    (hrange : a.isRange = false) (hend : goesOn st₁.tokens = false) :
    (Rules.ofDepth (n + 3)).expr structs st = .ok (withAttributes attributes a, st₁) := by
  have hup := Rules.agree_ofDepth (Nat.le_succ n)
  have hoperand : operand (Rules.ofDepth (n + 1)) structs st₀ = .ok (a, st₁) := by
    rw [operand_of_atom hstart, Parse.bind_apply, hatom]
    exact trailersRule_of_not_goesOn hend
  refine expr_of_operand ((outerAttributes_agree (S := .closed) (Q := never) hup).ok hattributes)
    hoperand ?_ (climbRule_of_not_goesOn hend)
  · unfold attach
    rw [if_neg (by simp [hrange])]
    rfl

/-- Where no atom begins there is no expression. -/
theorem not_expr_of_atom {m : ℕ}
    (hattributes : outerAttributes (Rules.ofDepth n) st = .ok (attributes, st₀))
    (hstart : startsUnary st₀.tokens = false)
    (hatom : ∀ R a st₁, atom R structs st₀ ≠ .ok (a, st₁)) :
    (Rules.ofDepth m).expr structs st ≠ .ok (e, st') := by
  intro h
  obtain ⟨k, e₁, st₁, hoperand, -, -⟩ := exists_operand_of_expr h hattributes
  rw [operand_of_atom hstart] at hoperand
  obtain ⟨a, st₂, hread, -⟩ := bind_ok hoperand
  exact hatom _ a st₂ hread

end

end Grammar

end ProcessCompiler
