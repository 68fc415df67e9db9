import ProcessCompiler.Proofs.Grammar.StatementStart
import ProcessCompiler.Proofs.Snippet.Stripping
import ProcessCompiler.Proofs.Validation.Rules
/-!
# The last statement of a text

A task's text is cut where the tokens behind its last semicolon are an
expression. Whether its last statement is an expression is another question.
The text may end in one without being cut: the statements before it may end in
blocks, with no semicolon to cut behind, a comment may follow its semicolon, and
attributes may stand before a range. The text may also be cut though it ends in
a binding, which the grammar of expressions reads as a test that an operator goes
on behind. Main statements: `isSome_split_iff_of_isExpression` and
`isSome_split_iff_of_isDeclaration`.
-/

namespace ProcessCompiler

open Grammar Scan Lexeme Text

namespace Invocation

variable {text : String} {before : List Stmt} {s : Stmt}

/-- The tokens behind the last semicolon decide whether a text is cut. -/
theorem exists_last_of_parse (h : Harness.statements.parse text = .ok (before ++ [s]))
    (hend : endsInLine text.toList = false) (hs : s ≠ .empty) :
    ∃ u v w mid, tokenize text.toList = some (u ++ (v ++ w)) ∧ (u = [] ∨ endsInSemi u = true) ∧
      v ≠ [] ∧ (∀ t ∈ v, t.isSemi = false) ∧ s.StopsAt w [] ∧ IsBlock (v ++ w) (mid ++ [s]) ∧
      (mid = [] ↔ before = [] ∨ before.getLast?.any Stmt.endsInSemi = true) ∧
      ((split text).isSome = true ↔ (s.endsInSemi = true → stopsAtSemi text = true) ∧
        ∃ e, IsExpr v e ∧ e.isLetting = false) := by
  obtain ⟨T, -, -, -, htokens, hblock, -⟩ := exists_tokens_body h hend
  obtain ⟨u, v, w, mid, rfl, hu, hne, hv, hstops, hlast, hmid⟩ := hblock.exists_last hs
  refine ⟨u, v, w, mid, htokens, hu, hne, hv, hstops, hlast, hmid, ?_⟩
  have hw : w = [] ∨ ∃ joint, w = [.leaf (.punct ';' joint)] :=
    hstops.imp And.left fun ⟨joint, hw, _⟩ => ⟨joint, hw⟩
  rw [isSome_split_iff_isExpr h hend htokens hu hne hv hw]
  rcases hstops with ⟨rfl, hopen⟩ | ⟨joint, rfl, hclosed⟩
  · simp [hopen]
  · simp [hclosed]

/-- A text that is read lacks a tail only if it is not cut. -/
theorem checkText_task_eq_noTail_iff {block : List Stmt}
    (h : Harness.statements.parse text = .ok block) (route : Option String) :
    Validation.checkText (.task route) text = .error .noTail ↔ split text = none := by
  rw [(Validation.checkText_task route text).2]
  have haccepts := Harness.accepts_iff.2 ⟨_, h⟩
  simp [h, haccepts]

/-- The last statement of a text that is read. -/
theorem exists_getLast_of_parse {p : Stmt → Bool}
    (h : ((Harness.statements.parse text).toOption.bind List.getLast?).any p = true) :
    ∃ before s, Harness.statements.parse text = .ok (before ++ [s]) ∧ p s = true := by
  cases hparse : Harness.statements.parse text with
  | error e =>
    rw [hparse] at h
    cases h
  | ok block =>
    rw [hparse] at h
    obtain ⟨s, hs, hp⟩ := (Option.any_eq_true _ _).1 h
    obtain ⟨before, rfl⟩ := List.getLast?_eq_some_iff.1 hs
    exact ⟨before, s, rfl, hp⟩

/-! ## Expressions -/

open Validation in
/-- **When a text that ends in an expression is cut.** Outside comments, the
tokens behind the last semicolon must be one expression, and a semicolon behind
that must end the text. If the last statement is all that stands there, it is an
expression unless it is a range without a start behind attributes. -/
theorem isSome_split_iff_of_isExpression (h : Harness.statements.parse text = .ok (before ++ [s]))
    (hs : s.isExpression = true) :
    (endsInLine text.toList = true → ((split text).isSome = true ↔
      ∃ k : Semicolon (body text.toList), k.Works ∧ endsInLine k.front = true)) ∧
    (endsInLine text.toList = false → ∃ u v w, tokenize text.toList = some (u ++ (v ++ w)) ∧
      (u = [] ∨ endsInSemi u = true) ∧ (∀ t ∈ v, t.isSemi = false) ∧ s.StopsAt w [] ∧
      ((split text).isSome = true ↔ (s.endsInSemi = true → stopsAtSemi text = true) ∧
        ∃ e, IsExpr v e ∧ e.isLetting = false) ∧
      (before = [] ∨ before.getLast?.any Stmt.endsInSemi = true →
        ((∃ e, IsExpr v e ∧ e.isLetting = false) ↔ s.isAttributedRange = false))) ∧
    ∀ route, checkText (.task route) text = .error .noTail ↔ split text = none := by
  refine ⟨isSome_split_iff_of_endsInLine h, fun hend => ?_, checkText_task_eq_noTail_iff h⟩
  obtain ⟨u, v, w, mid, htokens, hu, hne, hv, hstops, hblock, hmid, hsplit⟩ :=
    exists_last_of_parse h hend (by rintro rfl; cases hs)
  refine ⟨u, v, w, htokens, hu, hv, hstops, hsplit, fun hbefore => ?_⟩
  obtain rfl := hmid.2 hbefore
  obtain ⟨n, hstmt⟩ := hblock.exists_stmt (by simp [hne]) (isSymbol_semi_of_notMem hne hv)
  exact exists_isExpr_iff_of_isExpression hstmt hs hstops

/-- Two statements, the first of which ends in a block, make one expression. -/
theorem isSome_split_iff_of_isExpression_block :
    ∃ u v w, tokenize "f();\n\x7b a \x7d - b;".toList = some (u ++ (v ++ w)) ∧
      (∀ t ∈ v, t.isSemi = false) ∧ ∃ e, IsExpr v e ∧ e.isLetting = false := by
  obtain ⟨before, s, h, hs⟩ : ∃ before s, Harness.statements.parse "f();\n\x7b a \x7d - b;" =
      .ok (before ++ [s]) ∧ s.isExpression = true := exists_getLast_of_parse (by decide +kernel)
  obtain ⟨u, v, w, htokens, -, hv, -, hiff, -⟩ :=
    (isSome_split_iff_of_isExpression h hs).2.1 (by decide +kernel)
  exact ⟨u, v, w, htokens, hv, (hiff.1 (by decide +kernel)).2⟩

/-- A text that ends in an expression and is not cut, since its first statement
ends in a block. -/
theorem split_block_then_expression :
    (∃ before s, Harness.statements.parse "if a \x7b b; \x7d c" = .ok (before ++ [s]) ∧
      s.isExpression = true) ∧ split "if a \x7b b; \x7d c" = none :=
  ⟨exists_getLast_of_parse (by decide +kernel), by decide +kernel⟩

/-! ## Bindings and items -/

/-- Behind the last semicolon, a declaration is an expression only if it stands
alone there and reads as one. -/
theorem exists_isExpr_iff_of_last {v w : List Token} {mid : List Stmt}
    (h : IsBlock (v ++ w) (mid ++ [s])) (hs : s.isDeclaration = true) (hne : v ≠ [])
    (hv : ∀ t ∈ v, t.isSemi = false) (hstops : s.StopsAt w []) :
    (∃ e, IsExpr v e ∧ e.isLetting = false) ↔ mid = [] ∧ s.isDisguised = true := by
  cases mid with
  | nil =>
    obtain ⟨n, hstmt⟩ := h.exists_stmt (by simp [hne]) (isSymbol_semi_of_notMem hne hv)
    rw [exists_isExpr_iff_of_isDeclaration hstmt hs hstops]
    simp
  | cons first more =>
    have hnone (e : Expr) : ¬IsExpr v e := not_isExpr_of_isBlock h hs hne hv hstops
    simp [hnone]

open Validation in
/-- **When a text that ends in a binding or an item is cut.** Outside comments,
the statement must stand alone behind the last semicolon, a semicolon behind it
must end the text, and it must read as an expression: a binding with neither type
nor `else` whose value is an operation weaker than a comparison, or a call of a
macro `crate`. -/
theorem isSome_split_iff_of_isDeclaration (h : Harness.statements.parse text = .ok (before ++ [s]))
    (hs : s.isDeclaration = true) :
    (endsInLine text.toList = true → ((split text).isSome = true ↔
      ∃ k : Semicolon (body text.toList), k.Works ∧ endsInLine k.front = true)) ∧
    (endsInLine text.toList = false → ((split text).isSome = true ↔
      (s.endsInSemi = true → stopsAtSemi text = true) ∧
      (before = [] ∨ before.getLast?.any Stmt.endsInSemi = true) ∧ s.isDisguised = true)) ∧
    ∀ route, checkText (.task route) text = .error .noTail ↔ split text = none := by
  refine ⟨isSome_split_iff_of_endsInLine h, fun hend => ?_, checkText_task_eq_noTail_iff h⟩
  obtain ⟨u, v, w, mid, -, -, hne, hv, hstops, hblock, hmid, hsplit⟩ :=
    exists_last_of_parse h hend (by rintro rfl; cases hs)
  rw [hsplit, exists_isExpr_iff_of_last hblock hs hne hv hstops, hmid]

open Validation in
/-- A binding with a type is not cut, whatever its value. -/
theorem isSome_split_iff_of_isDeclaration_typed :
    split "let Some(n) = f()? else \x7b return \x7d;\n#[a] let y: bool = n == 1 && b;" = none ∧
      checkText (.task none)
        "let Some(n) = f()? else \x7b return \x7d;\n#[a] let y: bool = n == 1 && b;" =
          .error .noTail := by
  obtain ⟨before, s, h, hs⟩ : ∃ before s, Harness.statements.parse
      "let Some(n) = f()? else \x7b return \x7d;\n#[a] let y: bool = n == 1 && b;" =
        .ok (before ++ [s]) ∧ (s.isDeclaration && !s.isDisguised) = true :=
    exists_getLast_of_parse (by decide +kernel)
  obtain ⟨hdeclares, hplain⟩ := Bool.and_eq_true_iff.1 hs
  obtain ⟨-, hiff, hnoTail⟩ := isSome_split_iff_of_isDeclaration h hdeclares
  have hnone := Option.not_isSome_iff_eq_none.1 fun hsome =>
    absurd ((hiff (by decide +kernel)).1 hsome).2.2 (by simpa using hplain)
  exact ⟨hnone, (hnoTail none).2 hnone⟩

/-- Texts that end in a binding or an item and are cut. In the last one the cut is
behind a brace that closes more than the text opens. -/
theorem isSome_split_disguised :
    ["let x = a && b;", "f();\n#[c] let x = a..b;", "crate!();", "let x = 1; \x7d//;y"].all (fun text =>
      ((Harness.statements.parse text).toOption.bind List.getLast?).any Stmt.isDeclaration &&
        (split text).isSome) = true := by
  decide +kernel

end Invocation

end ProcessCompiler
