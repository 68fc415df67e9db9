import ProcessCompiler.Proofs.Grammar.StatementStart
/-!
# The last token of a statement

A statement that others can follow ends in a semicolon or in a block. What a
reader takes before makes no difference, so each reader is judged by what it
reads last. All readers of declarations stop there, and so do those of
expressions that end with their block. Main statements: `exists_isStop_of_stmt`
and `IsBlock.exists_isStop`.
-/

namespace ProcessCompiler

namespace Grammar

open Parse

variable {α β : Type} {R : Rules} {ts rest : List Token} {note note' : Option Delimiter} {n : ℕ}
  {structs : Bool} {e : Expr} {s : Stmt} {st st' : Stream}

/-- A semicolon or a block. -/
def Token.isStop (t : Token) : Bool := t.isSemi || t.isBraces

/-- The last token that is taken is a semicolon or a block, if what is read is
as `P` says. -/
abbrev Stops (P : α → Prop) (p : Parse α) : Prop := Ends Token.isStop P p

namespace Ends

variable {T : Token → Bool} {P : α → Prop} {p q : Parse α}

theorem discard {P : Unit → Prop} (h : Ends T (fun _ => P ()) p) : Ends T P (Functor.discard p) :=
  bindPure h

theorem when {p : Parse PUnit} {f : PUnit → Parse α} {c : Prop} [Decidable c]
    (hp : ∀ {u}, AgreeAt .closed never u p p) (hf : Ends T P (f ⟨⟩)) :
    Ends T P (if c then p >>= f else f ⟨⟩) := .ite (.seq hp hf) hf

theorem expect (what : List Expectation) : Ends T P (Parse.expect what) := fun _ _ _ => nofun

theorem fail (c : Cause) : Ends T P (Parse.fail c) := fun _ _ _ => nofun

theorem refuse (f : Stream → SyntaxError) : Ends T P (fun st => .error (f st)) :=
  fun _ _ _ => nofun

theorem stop {P : Unit → Prop} : Stops P (symbol .semi) := semi fun _ => rfl

/-- A semicolon, or what is read where there is none. -/
theorem stop? {f : Bool → Parse α} (hf : ∃ b, f true = pure b) (h : Stops P (f false)) :
    Stops P (symbol? .semi >>= f) := by
  rintro ⟨ts, note⟩ a st' hread ha
  obtain ⟨b, hb⟩ := hf
  rw [Parse.bind_apply, symbol?_apply] at hread
  by_cases hsemi : isSymbol .semi ts = true
  · obtain ⟨joint, x, rfl⟩ := exists_of_isSymbol_semi hsemi
    rw [if_pos hsemi] at hread
    simp only [hb] at hread
    cases hread
    exact ⟨_, rfl, List.suffix_refl _⟩
  · rw [if_neg hsemi] at hread
    exact h _ _ _ hread ha

theorem braces : Stops P (within .brace p) := by
  rintro ⟨_ | ⟨_ | ⟨d, inner⟩, x⟩, note⟩ a st' h -
  · cases h
  · cases h
  · unfold within at h
    dsimp only at h
    split at h
    · rename_i hd
      obtain rfl := eq_of_beq hd
      split at h
      · cases h
        exact ⟨_, rfl, List.suffix_refl _⟩
      · cases h
    · cases h

/-- Braces may be passed over. -/
theorem skipBraces {P : Unit → Prop} {f : List Token → Parse Unit}
    (hf : ∀ ts, Stops P (f ts) ∨ isGroup .brace ts = true ∧ f ts = Parse.skip 1) :
    Stops P (Parse.tokens >>= f) := by
  rintro ⟨ts, note⟩ a st' hread ha
  obtain ⟨us, st, htokens, hread⟩ := bind_ok hread
  cases htokens
  rcases hf ts with hstops | ⟨hbrace, hskip⟩
  · exact hstops _ _ _ hread ha
  · obtain ⟨inner, x, rfl⟩ := exists_of_isGroup hbrace
    rw [hskip] at hread
    cases hread
    exact ⟨_, rfl, List.suffix_refl _⟩

/-- A word may follow, and then more has to. -/
theorem word? {Q : β → Prop} {k : Keyword} {f : α → Bool → Parse β}
    (hagree : ∀ {u}, AgreeAt .closed never u p p) (hp : ∀ {P}, Ends T P p)
    (htrue : ∀ {a}, Ends T Q (f a true)) (hfalse : ∀ a, ∃ b, f a false = pure b) :
    Ends T Q (p >>= fun a => keyword? k >>= f a) := by
  intro st b st' h hb
  obtain ⟨a, ⟨ts, note⟩, hread, hrest⟩ := bind_ok h
  have hsuffix := (hagree.ok_suffix hread).1
  obtain ⟨word, mid, hword, hrest⟩ := bind_ok hrest
  obtain ⟨us, _, htokens, hword⟩ := bind_ok hword
  cases htokens
  split at hword
  · cases hword
    obtain ⟨t, ht, hmid⟩ := htrue _ _ _ hrest hb
    exact ⟨t, ht, (hmid.trans (List.drop_suffix 1 ts)).trans hsuffix⟩
  · cases hword
    obtain ⟨c, hc⟩ := hfalse a
    rw [hc] at hrest
    cases hrest
    exact hp (P := fun _ => True) _ _ _ hread trivial

/-- What is only looked at is not taken, and what is not there cannot be read. -/
theorem lookAhead {p : Parse β} {f : Option (β × List Token) → Parse α} {g : PUnit → Parse α}
    (hnone : f none = Functor.discard p >>= g) (hsome : ∀ r, Ends T P (f (some r))) :
    Ends T P (Parse.lookAhead p >>= f) := by
  intro st a st' h ha
  obtain ⟨r, mid, hlook, hread⟩ := bind_ok h
  unfold Parse.lookAhead at hlook
  split at hlook
  · cases hlook
    exact hsome _ _ _ _ hread ha
  · rename_i e hp
    split at hlook
    · cases hlook
    · cases hlook
      rw [hnone] at hread
      obtain ⟨_, _, hdiscard, -⟩ := bind_ok hread
      obtain ⟨b, _, hb, -⟩ := bind_ok (show (p >>= fun _ => pure PUnit.unit) _ = _ from hdiscard)
      rw [hp] at hb
      cases hb

/-- Nothing is said of an expression that needs a semicolon. -/
theorem opens {p : Parse Expr} (h : Yields (·.needsSemicolon = true) p) :
    Ends T (·.needsSemicolon = false) p := by
  intro st e st' hread he
  rw [h _ _ _ hread] at he
  cases he

theorem plain {p : Parse Expr} (h : Yields (·.isPlainAtom = true) p) :
    Ends T (·.needsSemicolon = false) p :=
  opens fun _ _ _ hread => Expr.needsSemicolon_of_isPlainAtom (h _ _ _ hread)

end Ends

/-! ## Declarations -/

section Items

variable {P : Unit → Prop} (h : R.Agree R)
include h

theorem stops_functionItem : Stops P (functionItem R) := by
  unfold functionItem
  exact .seq (.discard visibility_agree) <| .seq (signature_agree h) <|
    .stop? ⟨_, rfl⟩ (.discard .braces)

theorem stops_aliasItem {defaultAllowed : Bool} {place : WherePlace} :
    Stops P (aliasItem R defaultAllowed place) := by
  unfold aliasItem
  refine .seq (.discard visibility_agree) <| .tokens <| .when (.skip_closed _) ?_
  refine .seq (.keyword _) <| .seq (.discard .ident) <| .seq (generics_agree h) <|
    .seq (.symbol? (by decide)) <|
    .when (.discard (separatedBounds_agree h (fun _ => by simp) rfl)) <| .tokens ?_
  exact .when (whereClause?_agree h) <| .seq (.symbol? (by decide)) <|
    .when (.discard (h.type _ _ _ _)) <| .when (whereClause?_agree h) .stop

theorem stops_structItem (hfields : ∀ {P}, Stops P R.namedFields) : Stops P (structItem R) := by
  unfold structItem structBody
  refine .seq (.discard visibility_agree) <| .seq (.keyword _) <| .seq (.discard .ident) <|
    .seq (generics_agree h) <| .tokens <| .seq (whereClause?_agree h) <| .tokens ?_
  refine .ite (.seq (unnamedFields_agree h) <| .tokens <| .seq (whereClause?_agree h) <| .tokens <|
        .ite .stop <| .expect _) ?_
  exact .ite hfields <| .ite .stop <| .ite (.expect _) <| .expect _

theorem stops_enumItem : Stops P (enumItem R) := by
  unfold enumItem
  exact .seq (.discard visibility_agree) <| .seq (.keyword _) <| .seq (.discard .ident) <|
    .seq (generics_agree h) <| .seq (whereClause?_agree h) <| .discard .braces

theorem stops_unionItem (hfields : ∀ {P}, Stops P R.namedFields) : Stops P (unionItem R) := by
  unfold unionItem
  exact .seq (.discard visibility_agree) <| .tokens <| .either (.skip_closed _) (.expect _ _) <|
    .seq (.discard .ident) <| .seq (generics_agree h) <| .seq (whereClause?_agree h) <| hfields

theorem stops_useItem : Stops P (useItem R) := by
  unfold useItem
  exact .seq (.discard visibility_agree) <| .seq (.keyword _) <| .seq (.symbol? (by decide)) <|
    .seq (h.useTree _ _ _ _) .stop

omit h in
theorem stops_externCrateItem : Stops P externCrateItem := by
  unfold externCrateItem
  refine .seq (.discard visibility_agree) <| .seq (.keyword _) <| .seq (.keyword _) <| .tokens <|
    .either (.skip_closed _) (.discard .ident) ?_
  exact .seq (.keyword? _) <|
    .ite (.tokens <| .either (.skip_closed _) (.discard .ident) .stop) .stop

omit h in
theorem stops_moduleItem : Stops P (moduleItem R) := by
  unfold moduleItem
  exact .seq (.discard visibility_agree) <| .seq (.discard (.keyword? _)) <| .seq (.keyword _) <|
    .tokens <| .either (.skip_closed _) (.discard .ident) <| .tokens <| .ite .stop <|
    .ite (.discard .braces) <| .expect _

theorem stops_constItem : Stops P (constItem R) := by
  unfold constItem constTail
  exact .seq (.discard visibility_agree) <| .seq (.keyword _) <| .seq constName_agree <|
    .seq (generics_agree h) <| .seq (.symbol (by decide)) <| .seq (.discard (h.type _ _ _ _)) <|
    .seq (.symbol? (by decide)) <| .when (.discard (h.expr _ _ _ _)) <|
    .seq (whereClause?_agree h) .stop

theorem stops_staticItem : Stops P (staticItem R) := by
  unfold staticItem
  refine .seq (.discard visibility_agree) <| .seq (.keyword _) <| .seq (.discard (.keyword? _)) <|
    .seq (.discard .ident) <| .seq (.symbol? (by decide)) <|
    .ite (.seq (.discard (h.expr _ _ _ _)) .stop) ?_
  exact .seq (.symbol (by decide)) <| .seq (.discard (h.type _ _ _ _)) <|
    .stop? ⟨_, rfl⟩ (.seq (.symbol (by decide)) <| .seq (.discard (h.expr _ _ _ _)) .stop)

omit h in
theorem stops_macroItem : Stops P macroItem := by
  unfold macroItem
  refine .seq (.discard plainPath_firm.agree) <| .seq (.symbol (by decide)) <| .tokens <|
    .when (.skip_closed _) ?_
  rintro ⟨_ | ⟨_ | ⟨d, inner⟩, x⟩, note⟩ a st' hread -
  · cases hread
  · cases hread
  · cases d with
    | brace =>
      cases hread
      exact ⟨_, rfl, List.suffix_refl _⟩
    | paren | bracket =>
      obtain ⟨t, ht, hsuffix⟩ := Ends.stop (P := fun _ => True) ⟨x, note⟩ a st' hread trivial
      exact ⟨t, ht, hsuffix.trans (List.suffix_cons _ x)⟩

omit h in
theorem stops_macroDefinition : Stops P macroDefinition := by
  unfold macroDefinition
  refine .seq (.discard visibility_agree) <| .seq (.keyword _) <| .seq (.discard .ident) <|
    .skipBraces fun ts => ?_
  split
  · refine .inl (.seq (.skip_closed _) <| .skipBraces fun ts => ?_)
    split
    · exact .inr ⟨‹_›, rfl⟩
    · exact .inl (.expect _)
  · split
    · exact .inr ⟨‹_›, rfl⟩
    · exact .inl (.expect _)

theorem stops_traitTail : Stops P (traitTail R) := by
  unfold traitTail
  exact .seq (.symbol? (by decide)) <| .when (.discard (.separated
    (fun _ => .inl (by simp)) (fun _ => ⟨rfl, nofun⟩) (fun _ => .symbol (by decide))
    fun _ => h.bound _ _ _ _ _)) <| .seq (whereClause?_agree h) <| .discard .braces

theorem stops_wordedTrait : Stops P (wordedTrait R) := by
  unfold wordedTrait
  exact .seq (.discard visibility_agree) <| .seq (.discard (.keyword? _)) <| .tokens <|
    .when (.skip_closed _) <| .seq (.keyword _) <| .seq (.discard .ident) <|
    .seq (generics_agree h) <| stops_traitTail h

theorem stops_traitItem : Stops P (traitItem R) := by
  unfold traitItem
  refine .seq (.discard visibility_agree) <| .seq (.keyword _) <| .seq (.discard .ident) <|
    .seq (generics_agree h) <| .tokens <| .ite (stops_traitTail h) ?_
  exact .seq (.symbol? (by decide)) <| .ite (.seq (.discard
    (separatedBounds_agree h (fun _ => isKeyword_right _) rfl)) <|
      .seq (whereClause?_agree h) .stop) <| .expect _

theorem stops_implItem : Stops P (implItem R) := by
  unfold implItem
  refine .seq (.discard visibility_agree) <| .tokens <| .when (.skip_closed _) <|
    .seq (.discard (.keyword? _)) <| .seq (.keyword _) <| .tokens <| .when (generics_agree h) <|
    .tokens ?_
  refine .ite (.seq (.discard (.symbol? (by decide))) <| .seq (.keyword _) <|
    .tokens ?_) <| .tokens ?_
  all_goals
    refine .when (.symbol (by decide)) <| .seq (.discard (h.type _ _ _ _)) <| .seq (.keyword? _) <|
      .ite (.seq (.discard (h.type _ _ _ _)) ?_) <| .ite (.seq (.fail _) ?_) ?_
    all_goals exact .seq (whereClause?_agree h) <| .discard .braces

omit h in
theorem stops_foreignItem : Stops P (foreignItem R) := by
  unfold foreignItem
  exact .seq (.discard (.keyword? _)) <| .seq (.keyword _) <| .tokens <|
    .when (.skip_closed _) (.discard .braces)

variable {P : ItemKind → Prop}

omit h in
theorem stops_itemOf {kind : ItemKind} {p : Parse Unit} (hp : ∀ {P}, Stops P p) :
    Stops P (itemOf kind p) := .bindPure hp

omit h in
theorem stops_externItem (ts : List Token) : Stops P (externItem R ts) := by
  unfold externItem
  exact .ite (stops_itemOf stops_externCrateItem) <| .ite (stops_itemOf stops_foreignItem) <|
    .ite (.ite (stops_itemOf stops_foreignItem) <| .refuse _) <| .refuse _

theorem stops_unsafeItem (ts : List Token) : Stops P (unsafeItem R ts) := by
  unfold unsafeItem
  exact .ite (stops_itemOf (stops_wordedTrait h)) <| .ite (stops_itemOf (stops_implItem h)) <|
    .ite (stops_itemOf stops_foreignItem) <| .ite (stops_itemOf stops_moduleItem) <| .refuse _

/-- **A declaration ends in a semicolon or a block.** -/
theorem stops_itemTail (hfields : ∀ {P}, Stops P R.namedFields) : Stops P (itemTail R) := by
  unfold itemTail
  refine .lookAhead rfl fun r => ?_
  exact .ite (stops_itemOf (stops_functionItem h)) <| .ite (stops_externItem _) <|
    .ite (stops_itemOf (stops_useItem h)) <| .ite (stops_itemOf (stops_staticItem h)) <|
    .ite (stops_itemOf (stops_constItem h)) <| .ite (stops_unsafeItem h _) <|
    .ite (stops_itemOf stops_moduleItem) <| .ite (stops_itemOf (stops_aliasItem h)) <|
    .ite (stops_itemOf (stops_structItem h hfields)) <| .ite (stops_itemOf (stops_enumItem h)) <|
    .ite (stops_itemOf (stops_unionItem h hfields)) <| .ite (stops_itemOf (stops_traitItem h)) <|
    .ite (stops_itemOf (stops_wordedTrait h)) <| .ite (stops_itemOf (stops_implItem h)) <|
    .ite (stops_itemOf stops_macroDefinition) <| .ite (stops_itemOf stops_macroItem) <|
    .seq (.discard visibility_agree) <| .expect _

end Items

/-! ## Expressions that end with their block -/

section Blocks

variable {P : Expr → Prop} (h : R.Agree R)
include h

theorem stops_branchIn (k : ℕ) : Stops P (branchIn R k) := by
  induction k generalizing P with
  | zero => exact .fail _
  | succ k ih =>
    unfold branchIn
    exact .seq (.keyword _) <| .seq (h.expr _ _ _ _) <| .word? (plainBody_agree h) .braces
      (.tokens <| .ite (.bindPure ih) <| .ite (.bindPure .braces) <| .expect _) fun _ => ⟨_, rfl⟩

theorem stops_whileExpr {label : Option String} : Stops P (whileExpr R label) :=
  .seq (.keyword _) <| .seq (h.expr _ _ _ _) <| .bindPure .braces

theorem stops_forExpr {label : Option String} : Stops P (forExpr R label) :=
  .seq (.keyword _) <| .seq (.span (alternatives_agree h)) <| .seq (.keyword _) <|
    .seq (h.expr _ _ _ _) <| .bindPure .braces

omit h in
theorem stops_loopExpr {label : Option String} : Stops P (loopExpr R label) :=
  .seq (.keyword _) <| .bindPure .braces

theorem stops_selectExpr : Stops P (selectExpr R) :=
  .seq (.keyword _) <| .seq (h.expr _ _ _ _) <| .bindPure .braces

theorem stops_labelledExpr : Stops P (labelledExpr R) :=
  .seq .lifetime <| .seq (.symbol (by decide)) <| .tokens <| .ite (stops_whileExpr h) <|
    .ite (stops_forExpr h) <| .ite stops_loopExpr <| .ite (.bindPure .braces) <| .expect _

omit h in
theorem stops_macroTail {p : Path} : Stops (·.delimiter = .brace) (macroTail p) := by
  refine .seq (.symbol (by decide)) ?_
  rintro ⟨⟩ ⟨_ | ⟨_ | ⟨d, inner⟩, x⟩, note⟩ call st' hread hcall
  · cases hread
  · cases hread
  · cases hread
    obtain rfl : d = .brace := hcall
    exact ⟨_, rfl, List.suffix_refl _⟩

/-- Of the paths only the call of a macro needs no semicolon, and only one with
braces. -/
theorem stops_pathExpr : Stops (·.needsSemicolon = false) (pathExpr R structs) := by
  refine .seq (path_agree h) <| .tokens <| .ite (.bindPure ?_) <| .opens ?_
  · intro st call st' hread hcall
    exact stops_macroTail _ _ _ hread (by simpa [Expr.needsSemicolon, Expr.bare] using hcall)
  · exact .ite (.bind <| .pure rfl) (.pure rfl)

/-- **An atom that needs no semicolon ends in a block.** -/
theorem stops_atom : Stops (·.needsSemicolon = false) (atom R structs) := by
  have hword : ∀ {k : Keyword} {q : Parse (List Stmt)} {f : List Stmt → Expr},
      Stops (·.needsSemicolon = false)
        (keyword k >>= fun _ => within .brace q >>= fun b => pure (f b)) :=
    .seq (.keyword _) <| .bindPure .braces
  refine .tokens <| .ite (.plain yields_literalExpr) <|
    .ite (.plain (.bind <| .bind <| .bind <| .pure rfl)) <| .ite hword <|
    .ite (.plain yields_closure) <| .ite (.plain (yields_verbatim _)) <| .ite (stops_pathExpr h) <|
    .ite (.plain yields_parenExpr) <| .ite (.plain yields_breakExpr) <|
    .ite (.plain (.bind <| .bind <| .pure rfl)) <| .ite (.plain (.bind <| .bind <| .pure rfl)) <|
    .ite (.plain (yields_verbatim _)) <| .ite (.plain yields_arrayExpr) <|
    .ite (.opens (.bind <| .bind <| .bind <| .bind <| .bind <| .pure rfl)) <|
    .ite (.tokens (stops_branchIn h _)) <| .ite (stops_whileExpr h) <| .ite (stops_forExpr h) <|
    .ite stops_loopExpr <| .ite (stops_selectExpr h) <|
    .ite (.plain (.bind <| .bind <| .pure rfl)) <| .ite hword <| .ite hword <|
    .ite (.bindPure .braces) <| .ite (.opens ?_) <| .ite (.plain (.bind <| .pure rfl)) <|
    .ite (stops_labelledExpr h) (.expect _)
  intro st e st' hrange
  obtain ⟨closed, stop, rfl⟩ := yields_rangeFrom _ _ _ hrange
  rfl

end Blocks

theorem stops_namedFields {P : Unit → Prop} (n : ℕ) : Stops P (Rules.ofDepth n).namedFields := by
  cases n with
  | zero => exact .fail _
  | succ n => exact .discard .braces

theorem stops_operand : Stops (·.needsSemicolon = false) (operand (Rules.ofDepth n) structs) := by
  intro st e st' h he
  rcases operand_cases h with hop | ⟨a, st₁, hatom, htrailers⟩
  · rw [Expr.needsSemicolon_of_isPrefixed hop] at he
    cases he
  rcases eq_or_isTrailed_of_trailers htrailers with ⟨rfl, rfl⟩ | htrailed
  · exact stops_atom (Rules.agree_ofDepth (Nat.le_refl n)) _ _ _ hatom he
  · rw [Expr.needsSemicolon_of_isTrailed htrailed] at he
    cases he

/-- **An expression in the place of a statement ends in a block**, if it needs no
semicolon. -/
theorem exists_isStop_of_early (hhash : isSymbol .hash ts = false)
    (h : (Rules.ofDepth n).early ⟨ts, note⟩ = .ok (e, st')) (he : e.needsSemicolon = false) :
    ∃ t, t.isStop = true ∧ t :: st'.tokens <:+ ts := by
  obtain ⟨k, hatom⟩ := earlyAtom_of_early hhash h he
  by_cases hstart : startsBlock ts = true
  · rw [earlyAtom_apply, if_pos hstart] at hatom
    exact stops_atom (Rules.agree_ofDepth (Nat.le_refl k)) _ _ _ hatom he
  · obtain ⟨k, hoperand⟩ := operand_of_earlyAtom hhash hstart hatom
    exact stops_operand _ _ _ hoperand he

/-! ## Statements -/

/-- The semicolon behind what has been read, or what was read last. -/
theorem exists_isStop_of_finish {p : Parse α} {f : α → Bool → Stmt}
    (hp : ∀ u, AgreeAt .closed never u p p) (hf : ∀ a t, (f a t).endsInSemi = t)
    (h : finish p f ⟨ts, note⟩ = .ok (s, ⟨rest, note'⟩))
    (hstop : ∀ a, p ⟨ts, note⟩ = .ok (a, ⟨rest, note'⟩) → s = f a false →
      ∃ t, t.isStop = true ∧ t :: rest <:+ ts) :
    ∃ t, t.isStop = true ∧ t :: rest <:+ ts := by
  obtain ⟨a, w, terminated, hread, rfl, ⟨rfl, hopen⟩ | ⟨joint, rfl, -⟩⟩ := exists_of_finish hf h
  · obtain rfl : terminated = false := by rwa [hf] at hopen
    exact hstop a hread rfl
  · exact ⟨_, rfl, ((hp ts).ok_suffix hread).1⟩

/-- **A statement that others can follow ends in a semicolon or a block.** -/
theorem exists_isStop_of_stmt (h : stmt (Rules.ofDepth n) ⟨ts, note⟩ = .ok (s, ⟨rest, note'⟩))
    (hs : s.Closed) : ∃ t, t.isStop = true ∧ t :: rest <:+ ts := by
  have hagree := Rules.agree_ofDepth (Nat.le_refl n)
  rw [stmt_eq] at h
  obtain ⟨attributes, ⟨mid, note₁⟩, hattributes, htail⟩ := bind_ok h
  have hhash := isSymbol_hash_of_outerAttributes hattributes
  have hsuffix := ((outerAttributes_agree (S := .closed) (Q := never) hagree).ok_suffix hattributes).1
  suffices hmid : ∃ t, t.isStop = true ∧ t :: rest <:+ mid by
    obtain ⟨t, ht, hstop⟩ := hmid
    exact ⟨t, ht, hstop.trans hsuffix⟩
  cases stmtForm_of_stmtTail htail with
  | call p st called brace dot question read =>
    rw [macroStmt_eq] at read
    refine exists_isStop_of_finish (fun _ => macroPath_agree) (fun _ _ => rfl) read ?_
    rintro call hcall rfl
    obtain ⟨p, ⟨ts₁, note₂⟩, hpath, hmacro⟩ := bind_ok hcall
    obtain ⟨t, ht, hstop⟩ := stops_macroTail _ _ _ hmacro
      (by simpa [Stmt.Closed, Stmt.needsSemicolon] using hs)
    exact ⟨t, ht, hstop.trans ((plainPath_firm (S := .closed).agree (Q := never)).ok_suffix hpath).1⟩
  | binding start read =>
    obtain ⟨t, ht, hstop⟩ := ends_bindingStmt (P := fun _ => True) hagree _ _ _ read trivial
    exact ⟨t, by rw [Token.isStop, ht, Bool.true_or], hstop⟩
  | item start read =>
    obtain ⟨i, hitem, rfl⟩ := map_ok read
    obtain ⟨r, st, hspanned, hi⟩ := bind_ok hitem
    cases hi
    obtain ⟨us, st, htokens, hspanned⟩ := bind_ok hspanned
    cases htokens
    obtain ⟨kind, st, hkind, hspanned⟩ := bind_ok hspanned
    obtain ⟨us, st₁, htokens, hspanned⟩ := bind_ok hspanned
    cases htokens
    cases hspanned
    exact stops_itemTail (P := fun _ => True) hagree (stops_namedFields n) _ _ _ hkind trivial
  | expr noLet noItem read =>
    rw [exprStmt_eq] at read
    refine exists_isStop_of_finish (fun _ => hagree.early _ _ _) (endsInSemi_exprAs attributes) read ?_
    rintro e hearly rfl
    rw [Stmt.Closed, needsSemicolon_exprAs] at hs
    exact exists_isStop_of_early hhash hearly hs

theorem InSequence.exists_isStop {k : ℕ} {note₁ : Option Delimiter} {stmts : List Stmt}
    (h : InSequence (Rules.ofDepth n) note₁ k ts note stmts) (hts : ts ≠ [])
    (hclosed : endsOpen stmts = false) : ∃ t, t.isStop = true ∧ [t] <:+ ts := by
  induction h with
  | done => exact absurd rfl hts
  | @empty k joint ts note more hmore ih =>
    rcases eq_or_ne ts [] with rfl | hne
    · exact ⟨_, rfl, List.suffix_refl _⟩
    · rw [endsOpen_cons (hmore.ne_nil hne)] at hclosed
      obtain ⟨t, ht, hsuffix⟩ := ih hne hclosed
      exact ⟨t, ht, hsuffix.trans (List.suffix_cons _ ts)⟩
  | last hsemi hts hfirst => exact exists_isStop_of_stmt hfirst hclosed
  | @cons k ts rest note note' first more hsemi hts hfirst hrest _ hmore ih =>
    rw [endsOpen_cons (hmore.ne_nil hrest)] at hclosed
    obtain ⟨t, ht, hsuffix⟩ := ih hrest hclosed
    have hagree := Rules.agree_ofDepth (Nat.le_refl n)
    exact ⟨t, ht, hsuffix.trans ((stmt_agree (S := .closed) hagree id).ok_suffix hfirst).1⟩

/-- **Statements that others can follow end in a semicolon or a block.** -/
theorem IsBlock.exists_isStop {stmts : List Stmt} (h : IsBlock ts stmts) (hts : ts ≠ [])
    (hclosed : endsOpen stmts = false) : ∃ u t, ts = u ++ [t] ∧ t.isStop = true := by
  obtain ⟨-, hread⟩ := stmtsIn_eq_ok_iff.1 (h.stmtsIn (Nat.le_refl _))
  obtain ⟨t, ht, u, hu⟩ := hread.exists_isStop hts hclosed
  exact ⟨u, t, hu.symm, ht⟩

/-- Such a token parts them from a name. -/
theorem Divides.of_isStop {t : Token} (h : t.isStop = true) (name : String) (more : List Token) :
    Divides t (.leaf (.ident name) :: more) := by
  rcases Bool.or_eq_true_iff.1 h with hsemi | hbraces
  · obtain ⟨joint, rfl⟩ := Token.isSemi_iff.1 hsemi
    exact .semi joint _
  · unfold Token.isBraces at hbraces
    split at hbraces
    · exact .block _ name more
    · cases hbraces

end Grammar

end ProcessCompiler
