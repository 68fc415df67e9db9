import ProcessCompiler.Proofs.Grammar.MacroCall
/-!
# Statements that are expressions

A statement may be an expression, with or without a semicolon. Its tokens up to
the semicolon are an expression as they stand, unless it is a range without a
start behind attributes: `exists_of_stmt_of_isExpression`.
-/

namespace ProcessCompiler

namespace Grammar

open Parse

variable {ts v w rest : List Token} {note note' : Option Delimiter} {n : ℕ} {e : Expr} {s : Stmt}

/-- An expression in the place of a statement. -/
def Stmt.isExpression : Stmt → Bool
  | .expr .. | .macroCall .. => true
  | _ => false

/-- A range without a start, behind attributes. -/
def Stmt.isAttributedRange : Stmt → Bool
  | .expr attributes e _ => !attributes.isEmpty && e.isStartless
  | _ => false

theorem isAttributedRange_exprAs (attributes : List Token) (e : Expr) (terminated : Bool) :
    (exprAs attributes e terminated).isAttributedRange = (!attributes.isEmpty && e.isStartless) := by
  unfold exprAs
  split
  · rename_i m hbare
    have hstartless : e.isStartless = false := by
      refine Bool.eq_false_iff.2 fun h => ?_
      have hrange := Expr.isRange_of_isStartless h
      rw [Expr.isRange, hbare] at hrange
      cases hrange
    rw [hstartless, Bool.and_false]
    split
    · rfl
    · simp [Stmt.isAttributedRange, hstartless]
  · rfl

/-- At the end of a statement: there is nothing more, or a semicolon. -/
def AtStop (w : List Token) : Prop := w = [] ∨ ∃ joint long, w = .leaf (.punct ';' joint) :: long

theorem AtStop.not_goesOn (h : AtStop w) : goesOn w = false := by
  rcases h with rfl | ⟨joint, long, rfl⟩
  · rfl
  · cases joint <;> rfl

/-- An expression is read as it is before the end of a statement. -/
theorem IsExpr.exists_read (h : IsExpr v e) (hw : AtStop w) :
    ∃ m, (Rules.ofDepth m).expr true ⟨v ++ w, none⟩ = .ok (e, ⟨w, none⟩) := by
  obtain ⟨m, hm⟩ := h
  refine ⟨m, ?_⟩
  rcases hw with rfl | ⟨joint, long, rfl⟩
  · rwa [List.append_nil]
  have hagree := (Rules.agree_ofDepth (Nat.le_refl m)).expr (.ended false joint long) never v true
  have hleft : (Rules.ofDepth m).expr true ⟨v ++ (Seam.ended false joint long).left, none⟩ =
      .ok (e, ⟨[], none⟩) := by
    rwa [Seam.left, List.append_nil]
  rcases hagree.cases_ok hleft with ⟨x, -, hx, hread⟩ | hpassed
  · obtain rfl : x = [] := (List.append_eq_nil_iff.1 hx.symm).1
    exact hread
  · exact hpassed.1.elim

/-- What is read as an expression up to the end of a statement is one. -/
theorem isExpr_of_read (hw : AtStop w)
    (h : (Rules.ofDepth n).expr true ⟨v ++ w, none⟩ = .ok (e, ⟨w, none⟩)) : IsExpr v e := by
  rcases hw with rfl | ⟨joint, long, rfl⟩
  · rw [List.append_nil] at h
    exact ⟨n, h⟩
  -- The rules are to be deep enough for the tokens up to the semicolon.
  have hdeep := ((Rules.agree_ofDepth (Nat.le_max_left n (2 * Token.sizes v + 3))).expr
    .closed never _ true).ok h
  generalize hm : max n (2 * Token.sizes v + 3) = m at hdeep
  have hagree := (Rules.agree_ofDepth (Nat.le_refl m)).expr (.ended true joint long) never v true
  have hleft : v ++ (Seam.ended true joint long).left = v := List.append_nil v
  have hsettles : Settles m 3 true true (v ++ (Seam.ended true joint long).left)
      ((Rules.ofDepth m).expr true) := (Rules.settle_ofDepth m).expr (Nat.le_refl 3)
  obtain ⟨⟨e', rest, note⟩, hshort⟩ := hsettles.ok_of_agree Bool.noConfusion (by rw [hleft]; omega) hagree hdeep
  rcases hagree.cases_ok hshort with ⟨x, -, rfl, hlong⟩ | hpassed
  · obtain ⟨rfl, hx, rfl⟩ : e = e' ∧ .leaf (.punct ';' joint) :: long = x ++ _ ∧ none = note := by
      simpa using hdeep.symm.trans hlong
    obtain rfl : x = [] := List.self_eq_append_left.1 hx
    exact ⟨m, hleft ▸ hshort⟩
  · exact hpassed.1.elim

theorem isExpr_iff_of_atStop (hw : AtStop w) : IsExpr v e ↔
    ∃ m, (Rules.ofDepth m).expr true ⟨v ++ w, none⟩ = .ok (e, ⟨w, none⟩) :=
  ⟨fun h => h.exists_read hw, fun ⟨_, h⟩ => isExpr_of_read hw h⟩

/-! ## The last statement -/

/-- What follows a statement is `rest`, and `w` if it is taken without its
semicolon. -/
def Stmt.StopsAt (s : Stmt) (w rest : List Token) : Prop :=
  w = rest ∧ s.endsInSemi = false ∨
    ∃ joint, w = .leaf (.punct ';' joint) :: rest ∧ s.endsInSemi = true

theorem Stmt.StopsAt.not_goesOn (h : s.StopsAt w rest) (hrest : goesOn rest = false) :
    goesOn w = false := by
  rcases h with ⟨rfl, -⟩ | ⟨joint, rfl, -⟩
  · exact hrest
  · exact AtStop.not_goesOn (.inr ⟨joint, rest, rfl⟩)

theorem Stmt.StopsAt.atStop (h : s.StopsAt w []) : AtStop w := by
  rcases h with ⟨rfl, -⟩ | ⟨joint, rfl, -⟩
  · exact .inl rfl
  · exact .inr ⟨joint, [], rfl⟩

theorem exists_of_finish {α : Type} {p : Parse α} {f : α → Bool → Stmt}
    (hf : ∀ a t, (f a t).endsInSemi = t)
    (h : finish p f ⟨ts, note⟩ = .ok (s, ⟨rest, note'⟩)) :
    ∃ a w t, p ⟨ts, note⟩ = .ok (a, ⟨w, note'⟩) ∧ s = f a t ∧ s.StopsAt w rest := by
  obtain ⟨a, ⟨w, note₁⟩, hp, hsemi⟩ := Parse.bind_ok h
  simp only [Parse.bind_apply, symbol?_apply] at hsemi
  by_cases hw : isSymbol .semi w = true
  · obtain ⟨joint, w, rfl⟩ := exists_of_isSymbol_semi hw
    cases hsemi
    exact ⟨a, _, true, hp, rfl, .inr ⟨joint, rfl, hf a true⟩⟩
  · simp only [if_neg hw] at hsemi
    cases hsemi
    exact ⟨a, _, false, hp, rfl, .inl ⟨rfl, hf a false⟩⟩

/-- A statement that is an expression is read early, if nothing goes on behind it. -/
theorem StmtForm.exists_early {attributes : List Token}
    (h : StmtForm (Rules.ofDepth n) attributes ts note (.ok (s, ⟨rest, note'⟩)))
    (hs : s.isExpression = true) (hrest : goesOn rest = false) :
    isKeyword .let_ ts = false ∧ ∃ m e w, n ≤ m ∧
      (Rules.ofDepth m).early ⟨ts, note⟩ = .ok (e, ⟨w, note'⟩) ∧ s.StopsAt w rest ∧
      s.isAttributedRange = (!attributes.isEmpty && e.isStartless) := by
  cases h with
  | call p mid called brace dot question read =>
    rw [macroStmt_eq] at read
    obtain ⟨m, w, t, hread, rfl, hstops⟩ := exists_of_finish (fun _ _ => rfl) read
    have hearly := early_of_macroPath called hread (hstops.not_goesOn hrest)
    refine ⟨(start_of_plainPath called.path).2.1, max n 3, .macroCall m, w, Nat.le_max_left n 3, ?_,
      hstops, (Bool.and_false _).symm⟩
    exact ((Rules.agree_ofDepth (Nat.le_max_right n 3)).early .closed never _).ok hearly
  | binding start read =>
    have hbinding : s.isExpression = false :=
      yields_bindingStmt (P := fun s => s.isExpression = false) (fun _ _ _ _ => rfl) _ _ _ read
    rw [hs] at hbinding
    cases hbinding
  | item start read =>
    obtain ⟨i, -, rfl⟩ := Parse.map_ok read
    cases hs
  | expr noLet noItem read =>
    rw [exprStmt_eq] at read
    obtain ⟨e, w, t, hread, rfl, hstops⟩ := exists_of_finish (endsInSemi_exprAs attributes) read
    exact ⟨noLet, n, e, w, Nat.le_refl n, hread, hstops, isAttributedRange_exprAs attributes e t⟩

/-- An expression read in the place of a statement is one, unless it is a range
without a start behind attributes. -/
theorem exists_isExpr_iff_of_early {attributes : List Token}
    (hattributes : outerAttributes (Rules.ofDepth n) ⟨v ++ w, none⟩ = .ok (attributes, ⟨ts, note⟩))
    (hlet : isKeyword .let_ ts = false)
    (h : (Rules.ofDepth n).early ⟨ts, note⟩ = .ok (e, ⟨w, none⟩)) (hw : AtStop w) :
    (∃ e', IsExpr v e' ∧ e'.isLetting = false) ↔ attributes = [] ∨ e.isStartless = false := by
  rw [← exists_expr_iff_of_early hattributes hlet h hw.not_goesOn]
  simp only [isExpr_iff_of_atStop hw, exists_and_right]

theorem Stmt.StopsAt.eq_of_suffix {w' : List Token} (h : s.StopsAt w []) (h' : s.StopsAt w' [])
    (hsuffix : w' <:+ v ++ w) : w' = w := by
  have hlength : w'.length = w.length := by
    rcases h with ⟨rfl, hopen⟩ | ⟨joint, rfl, hclosed⟩ <;>
      rcases h' with ⟨rfl, hopen'⟩ | ⟨joint', rfl, hclosed'⟩ <;> simp_all
  exact List.IsSuffix.eq_of_length (List.suffix_of_suffix_length_le hsuffix (List.suffix_append v w)
    hlength.le) hlength

/-- **The expression at the end of a block** is one as it stands there, up to its
semicolon, unless it is a range without a start behind attributes. -/
theorem exists_isExpr_iff_of_isExpression
    (h : stmt (Rules.ofDepth n) ⟨v ++ w, none⟩ = .ok (s, ⟨[], none⟩)) (hs : s.isExpression = true)
    (hstops : s.StopsAt w []) :
    (∃ e, IsExpr v e ∧ e.isLetting = false) ↔ s.isAttributedRange = false := by
  rw [stmt_eq] at h
  obtain ⟨attributes, ⟨ts, note⟩, hattributes, htail⟩ := Parse.bind_ok h
  obtain ⟨hlet, m, e, w', hm, hearly, hstops', hrange⟩ :=
    (stmtForm_of_stmtTail htail).exists_early hs rfl
  have hdeep := (outerAttributes_agree (S := .closed) (Q := never) (Rules.agree_ofDepth hm)).ok
    hattributes
  have hagree := Rules.agree_ofDepth (Nat.le_refl m)
  have hsuffix : w' <:+ v ++ w := ((hagree.early .closed never ts).ok_suffix hearly).1.trans
    ((outerAttributes_agree (S := .closed) (Q := never) hagree).ok_suffix hdeep).1
  obtain rfl := hstops.eq_of_suffix hstops' hsuffix
  rw [exists_isExpr_iff_of_early hdeep hlet hearly hstops.atStop, hrange]
  cases attributes <;> simp

end Grammar

end ProcessCompiler
