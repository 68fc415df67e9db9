import ProcessCompiler.Proofs.Grammar.StatementAgreement

/-!
# Depth

Blocks, read over rules that agree, agree. So the rules of all depths agree: a
phrase that is read at one depth is read alike at every greater one.
-/

namespace ProcessCompiler

namespace Grammar

open Parse

variable {R R' : Rules} {u : List Token}

/-! ## Blocks -/

theorem emptyStmts_agree {Q : List Stmt → Prop} : AgreeAt .closed Q u emptyStmts emptyStmts :=
  .repeatWhile (fun _ => rfl) fun _ => .seq (.symbol_closed _) <| .pure _

theorem stmtsIn_agree {Q : List Stmt → Prop} (h : R.Agree R') {n m : ℕ} (hnm : n ≤ m) :
    AgreeAt .closed Q u (stmtsIn R n) (stmtsIn R' m) := by
  induction n generalizing Q u m with
  | zero => exact .tooDeep
  | succ n ih =>
    obtain ⟨m, rfl⟩ := Nat.exists_eq_add_of_lt hnm
    unfold stmtsIn
    refine .bind emptyStmts_agree fun empties _ => .tokens (.choice (by simp) (.pure _) <|
      .bind (stmt_agree h id).closed fun s _ => .tokens ?_)
    refine .choice (by simp) (.pure _) <| .choice Iff.rfl (.failHere _) <| ?_
    exact .seq (ih (Nat.le_add_right n m)) <| .pure _

theorem stmtsRule_agree {Q : List Stmt → Prop} (h : R.Agree R') :
    AgreeAt .closed Q u (stmtsRule R) (stmtsRule R') :=
  .tokens (stmtsIn_agree h (Nat.le_refl _))

/-! ## Depth -/

theorem earlyRule_refuses (h : R.Agree R') : Refuses (earlyRule R) := by
  have hatom : Refuses (earlyAtom R) := h.unary_refuses true
  intro note e s
  rw [earlyRule, Parse.bind_apply,
    show outerAttributes R ⟨[], note⟩ = .ok ([], ⟨[], note⟩) from rfl]
  exact hatom.bind note e s

/-- Rules over rules that agree, agree. -/
theorem Rules.Agree.next (h : R.Agree R') : R.next.Agree R'.next where
  expr _ _ _ _ := exprRule_agree h
  unary _ _ _ _ := unaryRule_agree h
  climb _ _ _ _ _ _ := climbRule_agree h
  trailers _ _ _ _ := trailersRule_agree h
  early _ _ _ := earlyRule_agree h
  type _ _ _ _ := typeRule_agree h
  bound _ _ _ _ _ := boundRule_agree h
  bound_refuses _ _ := nofun
  unary_refuses _ := nofun
  early_refuses := earlyRule_refuses h
  binder _ _ _ := binderRule_agree h
  pattern _ _ _ := patternRule_agree h
  stmts _ _ := stmtsRule_agree h
  item _ _ := itemRule_agree h
  useTree _ _ _ _ := useTreeRule_agree h
  namedFields _ _ _ := namedFieldsRule_agree h

/-- **More depth changes nothing**: the rules of a depth agree with those of
every greater one. -/
theorem Rules.agree_ofDepth {n m : ℕ} (hnm : n ≤ m) :
    (Rules.ofDepth n).Agree (Rules.ofDepth m) := by
  induction n generalizing m with
  | zero => exact Rules.agree_none _
  | succ n ih =>
    obtain ⟨m, rfl⟩ := Nat.exists_eq_add_of_lt hnm
    exact (ih (Nat.le_add_right n m)).next

/-- What is read does not depend on the depth at which it is read. -/
theorem Rules.ok_unique {α : Type} {p : Rules → Parse α} {n m : ℕ} {st st₁ st₂ : Stream} {a b : α}
    (hp : ∀ {R R' : Rules}, R.Agree R' → ∀ u, AgreeAt .closed never u (p R) (p R'))
    (h₁ : p (.ofDepth n) st = .ok (a, st₁)) (h₂ : p (.ofDepth m) st = .ok (b, st₂)) :
    a = b ∧ st₁ = st₂ := by
  have hleft := (hp (agree_ofDepth (Nat.le_max_left n m)) st.tokens).ok h₁
  have hright := (hp (agree_ofDepth (Nat.le_max_right n m)) st.tokens).ok h₂
  exact Prod.mk.inj (Except.ok.inj (hleft.symm.trans hright))

end Grammar

end ProcessCompiler
