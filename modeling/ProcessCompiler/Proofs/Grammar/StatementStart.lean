import ProcessCompiler.Proofs.Grammar.ItemStart
import ProcessCompiler.Proofs.Grammar.LastStatement
import ProcessCompiler.Proofs.Grammar.Letting
/-!
# Expressions that begin with a statement

A statement that needs no semicolon does not begin with what goes on with an
expression, and neither does a declaration. So where one of them follows a
statement without a semicolon, an expression that begins with that statement is
over behind it: `eq_of_expr_of_stmt`. A declaration that stands alone is an
expression in two cases: `exists_isExpr_iff_of_isDeclaration`.
-/

namespace ProcessCompiler

namespace Grammar

open Parse

variable {R : Rules} {ts v w rest : List Token} {note note' : Option Delimiter} {n m : ℕ}
  {structs : Bool} {e : Expr} {s : Stmt} {st : Stream}

/-- A binding or an item. -/
def Stmt.isDeclaration : Stmt → Bool
  | .binding .. | .item _ => true
  | _ => false

/-! ## What a statement does not begin with -/

theorem Expr.needsSemicolon_of_isPlainAtom (h : e.isPlainAtom = true) : e.needsSemicolon = true := by
  unfold isPlainAtom at h
  split at h <;> first | rfl | cases h

theorem Expr.needsSemicolon_of_isTrailed (h : e.isTrailed = true) : e.needsSemicolon = true := by
  unfold isTrailed at h
  split at h <;> first | rfl | cases h

theorem Expr.needsSemicolon_of_isPrefixed (h : e.isPrefixed = true) : e.needsSemicolon = true := by
  unfold isPrefixed at h
  split at h <;> first | rfl | cases h

theorem not_goesOn_of_startsBlock (h : startsBlock ts = true) : goesOn ts = false := by
  simp only [startsBlock, isKeywordOf, List.any_cons, List.any_nil, Bool.or_false, Bool.or_eq_true,
    Bool.and_eq_true] at h
  rcases h with (((hword | ⟨hword, -⟩) | ⟨hword, -⟩) | hbrace) | hlifetime
  · rcases hword with h | h | h | h | h <;> exact not_goesOn_of_isKeyword h (by decide)
  · exact not_goesOn_of_isKeyword hword (by decide)
  · rcases hword with h | h <;> exact not_goesOn_of_isKeyword h (by decide)
  · obtain ⟨inner, x, rfl⟩ := exists_of_isGroup hbrace
    rfl
  · obtain ⟨name, x, rfl⟩ := exists_of_isLifetime hlifetime
    rfl

theorem qualifier_of_path {inExpr : Bool} {p : Path} (hlt : isSymbol .lt ts = true)
    (h : path R inExpr ⟨ts, note⟩ = .ok (p, st)) : p.qualifier.isNone = false := by
  obtain ⟨us, st₁, htokens, h⟩ := bind_ok h
  cases htokens
  rw [if_pos hlt] at h
  refine (show Yields (fun p : Path => p.qualifier.isNone = false) _ from ?_) _ _ _ h
  exact .bind <| .bind <| .bind <| .bind <| .bind <| .bind <| .pure rfl

/-- Of what begins with a path only the call of a macro needs no semicolon, and that
path has no qualifier. -/
theorem not_goesOn_of_pathExpr (hstart : startsPathExpr ts = true)
    (h : pathExpr R structs ⟨ts, note⟩ = .ok (e, st)) (he : e.needsSemicolon = false) :
    goesOn ts = false := by
  obtain ⟨p, st₁, hpath, h⟩ := bind_ok h
  obtain ⟨us, st₂, htokens, h⟩ := bind_ok h
  cases htokens
  have hlt : isSymbol .lt ts = false := by
    refine Bool.eq_false_iff.2 fun hlt => ?_
    rw [qualifier_of_path hlt hpath, Bool.false_and, Bool.false_and, if_neg Bool.false_ne_true] at h
    have hyields : Yields (Expr.needsSemicolon · = true) (if structs && isGroup .brace st₁.tokens then
        (within .brace do fieldInits R ((← tokens).length + 1)) >>= fun r => pure (.record p r.1 r.2)
        else pure (.path p)) := .ite (.bind <| .pure rfl) (.pure rfl)
    rw [hyields _ _ _ h] at he
    cases he
  simp only [startsPathExpr, isPathWord, isKeywordOf, List.any_cons, List.any_nil, Bool.or_false,
    Bool.or_eq_true, Bool.and_eq_true, hlt] at hstart
  rcases hstart with ((hident | hword) | hcolon) | ⟨hword, -⟩
  · obtain ⟨name, x, rfl⟩ := exists_of_isIdent hident
    rfl
  · rcases hword with h | h | h | h <;> exact not_goesOn_of_isKeyword h (by decide)
  · obtain ⟨joint, x, rfl⟩ := exists_of_startsPunct hcolon
    cases joint <;> rfl
  · exact not_goesOn_of_isKeyword hword (by decide)

/-- An operand that needs no semicolon does not begin with what goes on with an
expression. -/
theorem not_goesOn_of_operand (h : operand (Rules.ofDepth n) structs ⟨ts, note⟩ = .ok (e, st))
    (he : e.needsSemicolon = false) : goesOn ts = false := by
  rcases operand_cases h with hop | ⟨a, st₁, hatom, htrailers⟩
  · rw [Expr.needsSemicolon_of_isPrefixed hop] at he
    cases he
  rcases eq_or_isTrailed_of_trailers htrailers with ⟨rfl, -⟩ | htrailed
  · cases atomForm_of_atom hatom with
    | path start read => exact not_goesOn_of_pathExpr start read he
    | block start block => exact start
    | range => cases he
    | letting start => cases he
    | plain plain =>
      rw [Expr.needsSemicolon_of_isPlainAtom plain] at he
      cases he
  · rw [Expr.needsSemicolon_of_isTrailed htrailed] at he
    cases he

/-- An expression that needs no semicolon is an atom or an operand: nothing is taken
behind its block. -/
theorem earlyAtom_of_early (hhash : isSymbol .hash ts = false)
    (h : (Rules.ofDepth n).early ⟨ts, note⟩ = .ok (e, st)) (he : e.needsSemicolon = false) :
    ∃ k, earlyAtom (Rules.ofDepth k) ⟨ts, note⟩ = .ok (e, st) := by
  rcases n with _ | n
  · cases h
  obtain ⟨attributes, st₁, hattributes, h⟩ := bind_ok h
  rw [outerAttributes_of_noHash hhash] at hattributes
  cases hattributes
  obtain ⟨e₀, st₀, hatom, h⟩ := bind_ok h
  obtain ⟨us, st₂, htokens, h⟩ := bind_ok h
  cases htokens
  have hkeep : ∀ {e₁ : Expr} {st₁ : Stream},
      (Rules.ofDepth n).climb (withAttributes [] e₁) true .jump st₁ = .ok (e, st) →
      e = e₁ ∧ st = st₁ := by
    intro e₁ st₁ hclimb
    rcases (climb_cases hclimb).1 with hkept | hop
    · exact hkept
    · rw [(Expr.shape_of_isOperation hop).2.2] at he
      cases he
  obtain ⟨rfl, rfl⟩ : e = e₀ ∧ st = st₀ := by
    split at h
    · exact hkeep h
    split at h
    · obtain ⟨e₁, st₁, htrailers, hclimb⟩ := bind_ok h
      obtain ⟨rfl, rfl⟩ := hkeep hclimb
      rcases eq_or_isTrailed_of_trailers htrailers with hkept | htrailed
      · exact hkept
      · rw [Expr.needsSemicolon_of_isTrailed htrailed] at he
        cases he
    · cases h
      exact ⟨rfl, rfl⟩
  exact ⟨n, hatom⟩

/-- Where it does not begin with a block it is an operand. -/
theorem operand_of_earlyAtom (hhash : isSymbol .hash ts = false) (hstart : ¬startsBlock ts = true)
    (h : earlyAtom (Rules.ofDepth n) ⟨ts, note⟩ = .ok (e, st)) :
    ∃ k, operand (Rules.ofDepth k) true ⟨ts, note⟩ = .ok (e, st) := by
  rw [earlyAtom_apply, if_neg hstart] at h
  rcases n with _ | n
  · cases h
  rw [show (Rules.ofDepth (n + 1)).unary true = unaryRule (Rules.ofDepth n) true from rfl,
    unaryRule_of_noHash hhash] at h
  exact ⟨n, h⟩

theorem not_goesOn_of_early (hhash : isSymbol .hash ts = false)
    (h : (Rules.ofDepth n).early ⟨ts, note⟩ = .ok (e, st)) (he : e.needsSemicolon = false) :
    goesOn ts = false := by
  by_cases hstart : startsBlock ts = true
  · exact not_goesOn_of_startsBlock hstart
  · obtain ⟨k, hatom⟩ := earlyAtom_of_early hhash h he
    obtain ⟨k, hoperand⟩ := operand_of_earlyAtom hhash hstart hatom
    exact not_goesOn_of_operand hoperand he

theorem needsSemicolon_exprAs (attributes : List Token) (e : Expr) :
    (exprAs attributes e false).needsSemicolon = e.needsSemicolon := by
  unfold exprAs
  split
  · rename_i m hbare
    split
    · simp [Stmt.needsSemicolon, Expr.needsSemicolon, hbare]
    · rfl
  · rfl

theorem not_isDeclaration_exprAs (attributes : List Token) (e : Expr) (terminated : Bool) :
    (exprAs attributes e terminated).isDeclaration = false := by
  unfold exprAs
  split
  · split <;> rfl
  · rfl

/-- **What a statement does not begin with**, if it is a declaration or needs no
semicolon. -/
theorem not_goesOn_of_stmt (h : stmt (Rules.ofDepth n) ⟨ts, note⟩ = .ok (s, st))
    (hs : s.isDeclaration = true ∨ s.needsSemicolon = false ∧ s.endsInSemi = false) :
    goesOn ts = false := by
  by_cases hhash : isSymbol .hash ts = true
  · obtain ⟨joint, x, rfl⟩ := exists_of_startsPunct hhash
    rfl
  rw [Bool.not_eq_true] at hhash
  rw [stmt_eq, Parse.bind_apply, outerAttributes_of_noHash hhash] at h
  obtain ⟨rest, note'⟩ := st
  cases stmtForm_of_stmtTail h with
  | call p mid called brace dot question read => exact (start_of_plainPath called.path).2.2.2.2
  | binding start read => exact not_goesOn_of_isKeyword start nofun
  | item start read =>
    rcases start with hstart | ⟨p, mid, hmacro, -⟩
    · cases itemStart_of_startsItem hstart with
      | crate | name => rfl
      | @word k x has hatom => exact not_goesOn_of_isKeyword (k := k) (by simp [isKeyword]) has
    · exact (start_of_plainPath hmacro.path).2.2.2.2
  | expr noLet noItem read =>
    rw [exprStmt_eq] at read
    obtain ⟨e, w, t, hearly, rfl, -⟩ := exists_of_finish (endsInSemi_exprAs []) read
    rcases hs with hs | ⟨hneeds, hopen⟩
    · rw [not_isDeclaration_exprAs] at hs
      cases hs
    · rw [endsInSemi_exprAs] at hopen
      subst hopen
      rw [needsSemicolon_exprAs] at hneeds
      exact not_goesOn_of_early hhash hearly hneeds

/-! ## Where an expression ends that begins with a statement -/

theorem not_startsUnary_of_item (h : BeginsItem ts note) : startsUnary ts = false := by
  rcases h with hstart | ⟨p, mid, hmacro, -⟩
  · cases itemStart_of_startsItem hstart <;> rfl
  · exact (start_of_plainPath hmacro.path).2.2.2.1

theorem not_goesOn_of_isAnyWord (h : isAnyWord ts = true) (has : isKeyword .as_ ts = false) :
    goesOn ts = false := by
  unfold isAnyWord at h
  split at h
  · rfl
  · exact not_goesOn_of_startsPlain rfl has rfl rfl
  · cases h

theorem AtStop.not_isAnyWord (h : AtStop w) : isAnyWord w = false := by
  rcases h with rfl | ⟨joint, long, rfl⟩ <;> rfl

/-- An expression that begins with a declaration takes all of it or is not over
where a statement may end. -/
theorem eq_of_expr_of_item {attributes : List Token} {i : Item}
    (hattributes : outerAttributes (Rules.ofDepth n) st = .ok (attributes, ⟨ts, note⟩))
    (hstart : BeginsItem ts note)
    (hitem : itemFrom (Rules.ofDepth n) ⟨ts, note⟩ = .ok (i, ⟨rest, note'⟩))
    (hexpr : (Rules.ofDepth m).expr true st = .ok (e, ⟨w, none⟩)) (hw : AtStop w)
    (hrest : goesOn rest = false) :
    i.callsCrate = true ∧ (Stmt.item i).StopsAt w rest ∧ e.isLetting = false := by
  have hagree := Rules.agree_ofDepth (Nat.le_refl n)
  have hunary := not_startsUnary_of_item hstart
  cases hcalls : i.callsCrate with
  | true =>
    obtain ⟨rfl, call, w', hstops, hatom⟩ := stopsAt_of_callsCrate hagree hcalls hitem
    obtain ⟨rfl, hst⟩ := expr_unique hexpr
      (expr_of_atom hattributes hunary hatom rfl (hstops.not_goesOn hrest))
    obtain ⟨rfl, -⟩ := Stream.mk.inj hst
    exact ⟨rfl, hstops, (Expr.alike_withAttributes attributes _).letting.symm⟩
  | false =>
    rcases atom_of_item hagree hstart hitem hcalls with ⟨word, x, rfl, hword, has⟩ | hatom
    · obtain ⟨-, hst⟩ := expr_unique hexpr
        (expr_of_atom hattributes hunary (fun R => atom_of_word hword) rfl
          (not_goesOn_of_isAnyWord hword has))
      obtain ⟨rfl, -⟩ := Stream.mk.inj hst
      rw [hw.not_isAnyWord] at hword
      cases hword
    · exact (not_expr_of_atom hattributes hunary hatom hexpr).elim

theorem Stmt.StopsAt.eq_of_not_endsInSemi (h : s.StopsAt w rest) (hopen : s.endsInSemi = false) :
    w = rest := by
  rcases h with ⟨rfl, -⟩ | ⟨joint, -, hclosed⟩
  · rfl
  · rw [hopen] at hclosed
    cases hclosed

/-- A range needs a semicolon. -/
theorem not_isAttributedRange (hneeds : s.needsSemicolon = false) (hopen : s.endsInSemi = false) :
    s.isAttributedRange = false := by
  refine Bool.eq_false_iff.2 fun h => ?_
  unfold Stmt.isAttributedRange at h
  split at h
  · rename_i attributes e terminated
    obtain rfl : terminated = false := hopen
    have hstartless := (Bool.and_eq_true_iff.1 h).2
    unfold Expr.isStartless at hstartless
    split at hstartless
    · cases hneeds
    · cases hstartless
  · cases h

theorem isExpression_exprAs (attributes : List Token) (e : Expr) (terminated : Bool) :
    (exprAs attributes e terminated).isExpression = true := by
  unfold exprAs
  split
  · split <;> rfl
  · rfl

/-- **An expression that begins with a statement is over behind it**, if the
statement needs no semicolon and has none, and nothing goes on behind it. -/
theorem eq_of_expr_of_stmt (h : stmt (Rules.ofDepth n) st = .ok (s, ⟨rest, note'⟩))
    (hneeds : s.needsSemicolon = false) (hopen : s.endsInSemi = false) (hrest : goesOn rest = false)
    (hexpr : (Rules.ofDepth m).expr true st = .ok (e, ⟨w, none⟩)) (hw : AtStop w) : w = rest := by
  rw [stmt_eq] at h
  obtain ⟨attributes, ⟨ts, note⟩, hattributes, htail⟩ := bind_ok h
  have hform := stmtForm_of_stmtTail htail
  by_cases hs : s.isExpression = true
  · obtain ⟨hlet, k, e₁, w₁, hk, hearly, hstops, hrange⟩ := hform.exists_early hs hrest
    obtain rfl := hstops.eq_of_not_endsInSemi hopen
    have hread := exists_expr_iff_of_early ((outerAttributes_agree (S := .closed) (Q := never)
      (Rules.agree_ofDepth hk)).ok hattributes) hlet hearly hrest
    rw [not_isAttributedRange hneeds hopen] at hrange
    obtain ⟨e', k', hread, -⟩ := hread.2 (by simpa [or_iff_not_imp_left] using hrange)
    obtain ⟨-, hst⟩ := expr_unique hexpr hread
    exact congrArg Stream.tokens hst
  · cases hform with
    | call p mid called brace dot question read =>
      rw [macroStmt_eq] at read
      obtain ⟨call, w₁, t, -, rfl, -⟩ := exists_of_finish (fun _ _ => rfl) read
      exact absurd rfl hs
    | binding start read =>
      rw [yields_bindingStmt (P := fun s => s.endsInSemi = true) (fun _ _ _ _ => rfl) _ _ _ read] at hopen
      cases hopen
    | item start read =>
      obtain ⟨i, hitem, rfl⟩ := map_ok read
      obtain ⟨-, hstops, -⟩ := eq_of_expr_of_item hattributes start hitem hexpr hw hrest
      exact hstops.eq_of_not_endsInSemi hopen
    | expr noLet noItem read =>
      rw [exprStmt_eq] at read
      obtain ⟨e₁, w₁, t, -, rfl, -⟩ := exists_of_finish (endsInSemi_exprAs attributes) read
      exact absurd (isExpression_exprAs attributes e₁ t) hs

/-! ## Declarations that are expressions -/

/-- A declaration whose tokens up to the semicolon are an expression that is no
test: a binding without a type whose value is weak, or the call of a macro by the
word `crate`. -/
def Stmt.isDisguised : Stmt → Bool
  | .binding _ _ none (some value) none => value.isWeak
  | .item i => i.callsCrate
  | _ => false

theorem suffix_of_expr {st : Stream} (h : (Rules.ofDepth n).expr true ⟨ts, note⟩ = .ok (e, st)) :
    st.tokens <:+ ts :=
  (((Rules.agree_ofDepth (Nat.le_refl n)).expr .closed never ts true).ok_suffix h).1

section

variable {attributes : List Token}

/-- A binding is an expression exactly if it has no type and no other block, and a
weak value. -/
theorem exists_expr_iff_of_binding
    (hattributes : outerAttributes (Rules.ofDepth n) ⟨v ++ w, none⟩ = .ok (attributes, ⟨ts, note⟩))
    (h : bindingStmt (Rules.ofDepth n) attributes ⟨ts, note⟩ = .ok (s, ⟨[], none⟩))
    (hstops : s.StopsAt w []) :
    (∃ e, (∃ m, (Rules.ofDepth m).expr true ⟨v ++ w, none⟩ = .ok (e, ⟨w, none⟩)) ∧
      e.isLetting = false) ↔ s.isDisguised = true := by
  obtain ⟨x, pattern, type, value, otherwise, st₁, rfl, rfl, hpattern, hbar, hcases⟩ :=
    bindingStmt_cases h
  rcases hcases with ⟨heq, hplain⟩ | ⟨heq, rfl, value, st₂, rfl, hvalue, hend⟩
  · constructor
    · rintro ⟨e, ⟨m, hexpr⟩, -⟩
      exact (not_expr_of_binding hattributes hpattern hbar heq hexpr).elim
    · intro hdisguised
      rcases hplain with htype | rfl
      · obtain ⟨type, rfl⟩ := Option.ne_none_iff_exists'.1 htype
        cases hdisguised
      · cases type <;> cases hdisguised
  rcases hend with ⟨rfl, joint, rfl⟩ | ⟨hotherwise, helse⟩
  · obtain ⟨e, hread, hletting⟩ := exists_expr_of_binding hattributes hpattern hbar heq hvalue
      (AtStop.not_goesOn (.inr ⟨joint, [], rfl⟩))
    obtain rfl := hstops.eq_of_suffix (.inr ⟨joint, rfl, rfl⟩) (suffix_of_expr hread)
    constructor
    · rintro ⟨e', ⟨m, hexpr⟩, htest⟩
      obtain ⟨rfl, -⟩ := expr_unique hexpr hread
      rw [hletting] at htest
      simpa [Stmt.isDisguised] using htest
    · intro hweak
      have hweak : value.isWeak = true := hweak
      exact ⟨e, ⟨_, hread⟩, by rw [hletting, hweak]; rfl⟩
  · obtain ⟨e, hread, -⟩ := exists_expr_of_binding hattributes hpattern hbar heq hvalue
      (not_goesOn_of_isKeyword helse nofun)
    constructor
    · -- The expression is over before the `else`.
      rintro ⟨e', ⟨m, hexpr⟩, -⟩
      obtain ⟨-, rfl⟩ := expr_unique hexpr hread
      rcases hstops.atStop with rfl | ⟨joint, long, rfl⟩ <;> cases helse
    · intro hdisguised
      obtain ⟨body, rfl⟩ := Option.ne_none_iff_exists'.1 hotherwise
      cases hdisguised

end

/-- **A declaration that stands alone is an expression** exactly if it is disguised. -/
theorem exists_isExpr_iff_of_isDeclaration
    (h : stmt (Rules.ofDepth n) ⟨v ++ w, none⟩ = .ok (s, ⟨[], none⟩)) (hs : s.isDeclaration = true)
    (hstops : s.StopsAt w []) :
    (∃ e, IsExpr v e ∧ e.isLetting = false) ↔ s.isDisguised = true := by
  simp only [isExpr_iff_of_atStop hstops.atStop]
  rw [stmt_eq] at h
  obtain ⟨attributes, ⟨ts, note⟩, hattributes, htail⟩ := bind_ok h
  cases stmtForm_of_stmtTail htail with
  | call p mid called brace dot question read =>
    rw [macroStmt_eq] at read
    obtain ⟨call, w₁, t, -, rfl, -⟩ := exists_of_finish (fun _ _ => rfl) read
    cases hs
  | binding start read => exact exists_expr_iff_of_binding hattributes read hstops
  | item start read =>
    obtain ⟨i, hitem, rfl⟩ := map_ok read
    constructor
    · rintro ⟨e, ⟨m, hexpr⟩, -⟩
      exact (eq_of_expr_of_item hattributes start hitem hexpr hstops.atStop rfl).1
    · intro hcalls
      obtain ⟨rfl, call, w', hstops', hatom⟩ :=
        stopsAt_of_callsCrate (Rules.agree_ofDepth (Nat.le_refl n)) hcalls hitem
      have hread := expr_of_atom hattributes (not_startsUnary_of_item start) hatom rfl
        (hstops'.not_goesOn rfl)
      obtain rfl := hstops.eq_of_suffix hstops' (suffix_of_expr hread)
      exact ⟨_, ⟨_, hread⟩, (Expr.alike_withAttributes attributes _).letting.symm⟩
  | expr noLet noItem read =>
    rw [exprStmt_eq] at read
    obtain ⟨e₁, w₁, t, -, rfl, -⟩ := exists_of_finish (endsInSemi_exprAs attributes) read
    rw [not_isDeclaration_exprAs] at hs
    cases hs

/-! ## Declarations behind other statements -/

/-- A statement that leaves tokens has no semicolon, where there is none but at the
end. -/
theorem not_endsInSemi_of_stmt (hv : ∀ t ∈ v, t.isSemi = false) (hw : w.length ≤ 1)
    (h : stmt (Rules.ofDepth n) ⟨v ++ w, note⟩ = .ok (s, ⟨rest, note'⟩)) (hrest : rest ≠ []) :
    s.endsInSemi = false ∧ ∃ x, rest = x ++ w ∧ ∀ t ∈ x, t.isSemi = false := by
  have hagree := Rules.agree_ofDepth (Nat.le_refl n)
  obtain ⟨u, hu⟩ := ((stmt_agree (S := .closed) hagree id).ok_suffix h).1
  obtain ⟨x, rfl, rfl⟩ := exists_of_append_eq hu.symm hw hrest
  rw [List.append_assoc] at h
  rw [← endsInSemi_of_stmt hagree h]
  exact ⟨endsInSemi_of_notMem fun t ht => hv t (List.mem_append_left x ht), x, rfl,
    fun t ht => hv t (List.mem_append_right u ht)⟩

/-- Behind a statement without a semicolon, statements that end in a declaration do
not go on with it. -/
theorem not_goesOn_of_stmtsIn {x : List Token} {more : List Stmt} {k : ℕ}
    (hx : ∀ t ∈ x, t.isSemi = false) (hstops : s.StopsAt w []) (hne : x ++ w ≠ [])
    (h : stmtsIn (Rules.ofDepth n) k ⟨x ++ w, note⟩ = .ok (more ++ [s], st))
    (hs : s.isDeclaration = true) : x ≠ [] ∧ goesOn (x ++ w) = false := by
  rcases k with _ | k
  · cases h
  have hne' : x ≠ [] := by
    rintro rfl
    rcases hstops with ⟨rfl, -⟩ | ⟨joint, rfl, -⟩
    · exact hne rfl
    · rw [List.nil_append, stmtsIn_semi] at h
      have hstmts := (Prod.mk.inj (Except.ok.inj h)).1
      obtain ⟨-, rfl⟩ : more = [] ∧ s = .empty := by
        rcases more with _ | ⟨first, more⟩ <;> simp_all
      cases hs
  refine ⟨hne', ?_⟩
  obtain ⟨first, rest, note₁, hfirst, hcases⟩ := stmtsIn_cases (isSymbol_semi_of_notMem hne' hx) hne h
  refine not_goesOn_of_stmt hfirst ?_
  rcases hcases with ⟨-, hstmts, -⟩ | ⟨more', hrest, hclosed, -, -⟩
  · obtain ⟨-, rfl⟩ : more = [] ∧ s = first := by
      rcases more with _ | ⟨second, more⟩ <;> simp_all
    exact .inl hs
  · exact .inr ⟨hclosed, (not_endsInSemi_of_stmt hx hstops.length_le_one hfirst hrest).1⟩

/-- **A declaration behind other statements** makes no expression with them, if
there is no semicolon between. -/
theorem not_isExpr_of_isBlock {first : Stmt} {more : List Stmt}
    (h : IsBlock (v ++ w) (first :: (more ++ [s]))) (hs : s.isDeclaration = true) (hne : v ≠ [])
    (hv : ∀ t ∈ v, t.isSemi = false) (hstops : s.StopsAt w []) : ¬IsExpr v e := by
  intro hexpr
  obtain ⟨first', rest, note₁, hfirst, hcases⟩ :=
    stmtsIn_cases (isSymbol_semi_of_notMem hne hv) (by simp [hne]) (h.stmtsIn (Nat.le_refl _))
  rcases hcases with ⟨-, hstmts, -⟩ | ⟨more', hrest, hclosed, hmore, hstmts⟩
  · simp at hstmts
  obtain ⟨rfl, rfl⟩ := List.cons.inj hstmts
  obtain ⟨hopen, x, rfl, hx⟩ := not_endsInSemi_of_stmt hv hstops.length_le_one hfirst hrest
  obtain ⟨hne', hgo⟩ := not_goesOn_of_stmtsIn hx hstops hrest hmore hs
  -- The expression is over behind the first statement, before the others.
  obtain ⟨m, hread⟩ := hexpr.exists_read hstops.atStop
  have heq := eq_of_expr_of_stmt hfirst hclosed hopen hgo hread hstops.atStop
  exact hne' (List.append_left_eq_self.1 heq.symm)

end Grammar

end ProcessCompiler
