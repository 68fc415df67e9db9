import ProcessCompiler.Proofs.Grammar.Operand
/-!
# Expressions in the place of statements

An expression in the place of a statement is over where its block ends. Where
nothing goes on behind it, it is read as it is anywhere else.
-/

namespace ProcessCompiler

namespace Grammar

open Parse

variable {R : Rules} {ts rest : List Token} {note note' : Option Delimiter} {n : ℕ}
  {structs : Bool} {e e' : Expr} {st st' : Stream}

/-! ## Blocks -/

/-- An expression begins here that ends with its block. -/
def startsBlock (ts : List Token) : Bool :=
  isKeywordOf [.if_, .while_, .loop_, .match_, .unsafe_] ts ||
    (isKeyword .for_ ts && !isSymbol .lt (ts.drop 1)) ||
    (isKeywordOf [.try_, .const_] ts && isGroup .brace (ts.drop 1)) ||
    isGroup .brace ts || isLifetime ts

/-- Such an expression is the atom that begins there, and other expressions are
read up to their first operator. -/
theorem earlyAtom_apply : earlyAtom R ⟨ts, note⟩ =
    if startsBlock ts then atom R true ⟨ts, note⟩ else R.unary true ⟨ts, note⟩ := by
  by_cases hstart : startsBlock ts = true
  · rw [if_pos hstart]
    simp only [startsBlock, isKeywordOf, List.any_cons, List.any_nil, Bool.or_false, Bool.or_eq_true,
      Bool.and_eq_true, Bool.not_eq_true'] at hstart
    rcases hstart with (((hword | ⟨hfor, hangle⟩) | ⟨hword, hbrace⟩) | hbrace) | hlifetime
    · rcases hword with h | h | h | h | h <;>
      · obtain ⟨x, rfl⟩ := exists_of_isKeyword h
        rfl
    · obtain ⟨x, rfl⟩ := exists_of_isKeyword hfor
      have hno : isSymbol .bar (.leaf (.keyword .for_) :: x) = false := isSymbol_of_startsPlain rfl .bar
      have hangle : isSymbol .lt x = false := hangle
      have hclosure : startsClosure (.leaf (.keyword .for_) :: x) = false := by
        simp [startsClosure, hangle, hno, isKeyword]
      have hearly : earlyAtom R ⟨.leaf (.keyword .for_) :: x, note⟩ =
          (if !isSymbol .lt x then forExpr R none else R.unary true)
            ⟨.leaf (.keyword .for_) :: x, note⟩ := rfl
      have hatom : atom R true ⟨.leaf (.keyword .for_) :: x, note⟩ =
          (if startsClosure (.leaf (.keyword .for_) :: x) then closure R true else forExpr R none)
            ⟨.leaf (.keyword .for_) :: x, note⟩ := rfl
      rw [hearly, hatom, hclosure, hangle]
      rfl
    · rcases hword with h | h <;> obtain ⟨x, rfl⟩ := exists_of_isKeyword h
      all_goals
        obtain ⟨inner, y, rfl⟩ := exists_of_isGroup hbrace
        rfl
    · obtain ⟨inner, x, rfl⟩ := exists_of_isGroup hbrace
      rfl
    · obtain ⟨name, x, rfl⟩ := exists_of_isLifetime hlifetime
      rfl
  · rw [if_neg hstart]
    simp only [startsBlock, isKeywordOf, List.any_cons, List.any_nil, Bool.or_false, Bool.or_eq_true,
      Bool.and_eq_true, Bool.not_eq_true', not_or, not_and] at hstart
    obtain ⟨⟨⟨⟨⟨hif, hwhile, hloop, hmatch, hunsafe⟩, hfor⟩, hword⟩, hbrace⟩, hlifetime⟩ := hstart
    simp only [earlyAtom, Parse.bind_apply, tokens]
    rw [if_neg hif, if_neg hwhile, if_neg (by simpa using hfor), if_neg hloop, if_neg hmatch,
      if_neg (by simpa using fun h => hword (.inl h)), if_neg hunsafe,
      if_neg (by simpa using fun h => hword (.inr h)), if_neg hbrace, if_neg hlifetime]

theorem isBlockLike_of_earlyAtom (hstart : startsBlock ts = true)
    (h : earlyAtom R ⟨ts, note⟩ = .ok (e, st)) : e.isBlockLike = true := by
  obtain ⟨us, st₁, htokens, h⟩ := bind_ok h
  cases htokens
  refine (show Yields (·.isBlockLike = true) _ from ?_) _ _ _ h
  refine .when (fun _ => .bind <| yields_branchIn _) fun hif =>
    .when (fun _ => .bind <| .bind <| .bind <| .pure rfl) fun hwhile =>
    .when (fun _ => .bind <| .bind <| .bind <| .bind <| .bind <| .pure rfl) fun hfor =>
    .when (fun _ => .bind <| .bind <| .pure rfl) fun hloop =>
    .when (fun _ => .bind <| .bind <| .bind <| .pure rfl) fun hmatch =>
    .when (fun _ => .bind <| .bind <| .pure rfl) fun htry =>
    .when (fun _ => .bind <| .bind <| .pure rfl) fun hunsafe =>
    .when (fun _ => .bind <| .bind <| .pure rfl) fun hconst =>
    .when (fun _ => .bind <| .pure rfl) fun hbrace =>
    .when (fun _ => yields_labelledExpr) fun hlifetime => ?_
  -- Nothing else begins a block.
  simp only [startsBlock, isKeywordOf, List.any_cons, List.any_nil] at hstart
  grind

/-- Behind calls, fields and indices there are no more of them. -/
theorem trailers_stop (h : (Rules.ofDepth n).trailers e st = .ok (e', st')) :
    e'.isRange = true ∨ isLoneDot st'.tokens = false ∧ isSymbol .question st'.tokens = false := by
  induction n generalizing e st with
  | zero => cases h
  | succ n ih =>
    obtain ⟨ts, st₁, htokens, h⟩ := bind_ok (show trailersRule _ e st = _ from h)
    cases htokens
    split at h
    · obtain ⟨arguments, st₁, -, h⟩ := bind_ok h
      exact ih h
    split at h
    · obtain ⟨e₁, st₁, -, h⟩ := bind_ok h
      exact ih h
    rename_i hdot
    split at h
    · obtain ⟨position, st₁, -, h⟩ := bind_ok h
      exact ih h
    split at h
    · obtain ⟨position, st₁, -, h⟩ := bind_ok h
      exact ih h
    · rename_i hquestion
      cases h
      cases hrange : e'.isRange with
      | true => exact .inl rfl
      | false =>
        rw [hrange] at hdot hquestion
        simp only [Bool.not_false, Bool.and_true, Bool.not_eq_true] at hdot hquestion
        exact .inr ⟨hdot, hquestion⟩

theorem Expr.isBlockLike_of_isPrefixed (h : e.isPrefixed = true) : e.isBlockLike = false := by
  unfold isPrefixed at h
  split at h <;> first | rfl | cases h

/-- An operand that ends with its block is followed by no field and no `?`. -/
theorem operand_stop (h : operand (Rules.ofDepth n) structs st = .ok (e, st'))
    (he : e.isBlockLike = true) :
    isLoneDot st'.tokens = false ∧ isSymbol .question st'.tokens = false := by
  rcases operand_cases h with hop | ⟨e₁, st₁, -, h⟩
  · rw [Expr.isBlockLike_of_isPrefixed hop] at he
    cases he
  · refine (trailers_stop h).resolve_left fun hrange => ?_
    rw [Expr.isBlockLike_of_isRange hrange] at he
    cases he

theorem startsPlain_of_startsBlock (h : startsBlock ts = true) : startsPlain ts = true := by
  rcases ts with _ | ⟨(_ | _ | _ | _ | _) | _, x⟩
  case nil => cases h
  case cons.leaf.punct => cases h
  all_goals rfl

/-- **An expression in the place of a statement** is read as anywhere else, if
nothing goes on behind it. -/
theorem exists_of_early (hhash : isSymbol .hash ts = false)
    (h : (Rules.ofDepth n).early ⟨ts, note⟩ = .ok (e, ⟨rest, note'⟩)) (hrest : goesOn rest = false) :
    ∃ e₁ st₁, unaryRule (Rules.ofDepth n) true ⟨ts, note⟩ = .ok (e₁, st₁) ∧
      (Rules.ofDepth n).climb e₁ true .jump st₁ = .ok (e, ⟨rest, note'⟩) := by
  cases n with
  | zero => cases h
  | succ n =>
    have hup : (Rules.ofDepth n).Agree (Rules.ofDepth (n + 1)) := Rules.agree_ofDepth (Nat.le_succ n)
    obtain ⟨attributes, st₁, hattributes, h⟩ := bind_ok h
    rw [outerAttributes_of_noHash hhash] at hattributes
    cases hattributes
    obtain ⟨e₀, ⟨ts₀, note₀⟩, hatom, h⟩ := bind_ok h
    obtain ⟨ts', st', htokens, h⟩ := bind_ok h
    cases htokens
    by_cases hstart : startsBlock ts = true
    · have hblock := isBlockLike_of_earlyAtom hstart hatom
      rw [earlyAtom_apply, if_pos hstart] at hatom
      -- The atom and what is behind it make the operand.
      have hunary : ∀ {e₁ st₁}, (Rules.ofDepth (n + 1)).trailers e₀ ⟨ts₀, note₀⟩ = .ok (e₁, st₁) →
          unaryRule (Rules.ofDepth (n + 1)) true ⟨ts, note⟩ = .ok (e₁, st₁) := by
        intro e₁ st₁ htrailers
        have hno := not_startsUnary_of_startsPlain (startsPlain_of_startsBlock hstart)
        have hlifted := (atom_agree (S := .closed) (Q := never) hup).ok hatom
        rw [unaryRule_of_noHash hhash, operand_of_atom hno, Parse.bind_apply, hlifted]
        exact htrailers
      rw [if_neg (by simp [hblock])] at h
      split at h
      · obtain ⟨e₁, ⟨ts₁, note₁⟩, htrailers, hclimb⟩ := bind_ok h
        exact ⟨e₁, _, hunary ((hup.trailers .closed never _ _).ok htrailers),
          (hup.climb .closed never _ _ _ _).ok hclimb⟩
      · cases h
        exact ⟨e₀, _, hunary (trailersRule_of_not_goesOn hrest), climbRule_of_not_goesOn hrest⟩
    · rw [earlyAtom_apply, if_neg hstart] at hatom
      cases n with
      | zero => cases hatom
      | succ n =>
        have hunary := (unaryRule_agree (S := .closed) (Q := never)
          (Rules.agree_ofDepth (Nat.le_add_right n 2))).ok hatom
        refine ⟨e₀, ⟨ts₀, note₀⟩, hunary, ?_⟩
        split at h
        · exact (hup.climb .closed never _ _ _ _).ok h
        · rename_i hblock
          rw [unaryRule_of_noHash hhash] at hunary
          obtain ⟨hdot, hquestion⟩ := operand_stop hunary (by simpa using hblock)
          rw [if_neg (by simp only [hdot, hquestion]; decide)] at h
          cases h
          exact climbRule_of_not_goesOn hrest

/-! ## Attributes before an expression -/

/-- **An expression in the place of a statement, with its attributes**, is one
anywhere else, unless attributes stand before a range without a start. -/
theorem exists_expr_iff_of_early {attributes : List Token}
    (hattributes : outerAttributes (Rules.ofDepth n) st = .ok (attributes, ⟨ts, note⟩))
    (hlet : isKeyword .let_ ts = false)
    (h : (Rules.ofDepth n).early ⟨ts, note⟩ = .ok (e, ⟨rest, note'⟩)) (hrest : goesOn rest = false) :
    (∃ e' m, (Rules.ofDepth m).expr true st = .ok (e', ⟨rest, note'⟩) ∧ e'.isLetting = false) ↔
      attributes = [] ∨ e.isStartless = false := by
  have hhash := isSymbol_hash_of_outerAttributes hattributes
  obtain ⟨e₁, ⟨ts₁, note₁⟩, hunary, hclimb⟩ := exists_of_early hhash h hrest
  have hshape := hunary
  rw [unaryRule_of_noHash hhash] at hshape
  have hletting : e₁.isLetting = false := by
    rcases operand_shape hshape with hsimple | hstartless | ⟨hletting, -⟩
    · exact hsimple.1
    · exact Expr.isLetting_of_isStartless hstartless
    · rw [hlet] at hletting
      cases hletting
  have hrange : e₁.isRange = true ↔ e.isStartless = true := by
    constructor
    · intro hrange
      obtain ⟨rfl, -⟩ := climb_of_isRange hrange hclimb
      rcases operand_shape hshape with hsimple | hstartless | ⟨hletting, -⟩
      · rw [hsimple.2] at hrange
        cases hrange
      · exact hstartless
      · rw [hlet] at hletting
        cases hletting
    · intro hstartless
      rcases (climb_cases hclimb).1 with ⟨rfl, -⟩ | hr
      · exact Expr.isRange_of_isStartless hstartless
      · rw [(Expr.shape_of_isOperation hr).2.1] at hstartless
        cases hstartless
  constructor
  · rintro ⟨e', m, hexpr, -⟩
    refine or_iff_not_imp_left.2 fun hne => Bool.eq_false_iff.2 fun hstartless => ?_
    obtain ⟨k, e₂, st₂, hoperand, hattach, -⟩ := exists_operand_of_expr hexpr hattributes
    -- The attributes before the range are refused.
    rw [← unaryRule_of_noHash hhash] at hoperand
    obtain ⟨rfl, -⟩ := Rules.ok_unique (fun h u => unaryRule_agree h) hunary hoperand
    simp only [attach, hrange.2 hstartless, List.isEmpty_eq_false_iff.2 hne] at hattach
    cases hattach
  · intro hcases
    have hattach : attach attributes e₁ ⟨ts₁, note₁⟩ =
        .ok (withAttributes attributes e₁, ⟨ts₁, note₁⟩) := by
      unfold attach
      rw [if_neg]
      · rfl
      · rcases hcases with rfl | hstartless
        · exact Bool.false_ne_true
        · simp [Bool.eq_false_iff.2 (hrange.not.2 (by simp [hstartless]))]
    obtain ⟨e', hclimb', halike⟩ := climb_alike (Expr.alike_withAttributes attributes e₁) hclimb
    rw [unaryRule_of_noHash hhash] at hunary
    refine ⟨e', n + 2, expr_of_operand hattributes hunary hattach hclimb', ?_⟩
    rw [← halike.letting]
    rcases (climb_cases hclimb).1 with ⟨rfl, -⟩ | hr
    · exact hletting
    · exact (Expr.shape_of_isOperation hr).1

end Grammar

end ProcessCompiler
