import ProcessCompiler.Proofs.Grammar.ExpressionSettling
import ProcessCompiler.Proofs.Grammar.ItemSettling
import ProcessCompiler.Proofs.Grammar.Depth
/-!
# Enough depth

Statements, read over rules that come to an answer, come to one. So the rules of
a depth that the size of a text allows never give up on it: whether a text is
read does not depend on the depth, as long as it is what `depthFor` says, or
more.
-/

namespace ProcessCompiler

namespace Grammar

open Parse

variable {R : Rules} {n c : ℕ} {b w : Bool} {ts : List Token}

/-! ## Statements -/

theorem macroStmt_settles {attributes : List Token} : Settles n c b w ts (macroStmt attributes) := by
  unfold macroStmt
  exact .after plainPath_settles fun {p _} => .seq (macroTail_settles p) <|
    .bindPure (.symbol? (by decide))

theorem bindingStmt_settles {attributes : List Token} (h : R.Settle n) (hc : 1 ≤ c) :
    Settles n c b w ts (bindingStmt R attributes) := by
  unfold bindingStmt
  refine .after (.keyword _) <| .seq (.span (h.pattern (by omega))) <|
    .seq (.symbol? (by decide)) <| .either (fun _ => .map _ (.span (h.type (by omega))))
      (fun _ => .pure _) ?_
  refine .symbolThen (by decide) (.seq (h.expr (by omega)) <| .tokens ?_)
    (.bindPure (.symbol (by decide)))
  refine .choice (.seq (.keyword _) <| .bind (.map _ (plainBody_settles h))
    fun otherwise _ => ?_) <| .seq (.pure _) ?_
  all_goals exact .bindPure (.symbol (by decide))

theorem exprStmt_settles {attributes : List Token} (h : R.Settle n) (hc : 3 ≤ c) :
    Settles n c b w ts (exprStmt R attributes) := by
  unfold exprStmt
  refine .after (h.early hc) <| .seq (.symbol? (by decide)) ?_
  split
  · exact .choice (.pure _) <| .pure _
  · exact .pure _

theorem stmt_settles (h : R.Settle n) (hc : 3 ≤ c) : Settles n c b w ts (stmt R) := by
  unfold stmt
  refine attributesThen h fun attributes v _ => .tokens (.lookAhead plainPath_settles fun r => ?_)
  exact .choice macroStmt_settles <| .choice (bindingStmt_settles h (by omega)) <|
    .choice (.bindPure (itemFrom_settles h (by omega))) <| exprStmt_settles h hc

theorem emptyStmts_settles : Settles n c false w ts emptyStmts :=
  .repeatWhile fun _ _ => .bindPure (.symbol (by decide))

theorem stmtsIn_settles (h : R.Settle n) (hc : 3 ≤ c) {k : ℕ} (hk : ts.length < k) :
    Settles n c false w ts (stmtsIn R k) := by
  induction k generalizing ts c with
  | zero => exact absurd hk (Nat.not_lt_zero _)
  | succ k ih =>
    unfold stmtsIn
    refine .shorter emptyStmts_settles fun _ v hv => .tokens (.choice (.pure _) <|
      .rounds (stmt_settles h hc) fun s v' hv' => .tokens (.choice (.pure _) ?_))
    exact .choice (.failHere (by simp)) <| .bindPure (ih (by omega) (by omega))

theorem stmtsRule_settles (h : R.Settle n) (hc : 3 ≤ c) : Settles n c false w ts (stmtsRule R) :=
  .tokens (stmtsIn_settles h hc (Nat.lt_succ_self _))

/-! ## All rules -/

/-- A rule over rules of the depth `n` has one level less to itself. -/
theorem Settles.next {α : Type} {p : Parse α} {k : ℕ}
    (h : ∀ {c}, k ≤ c → Settles n c b w ts p) (hc : k + 1 ≤ c) : Settles (n + 1) c b w ts p :=
  fun hn => h (Nat.le_sub_one_of_lt hc) (by omega)

theorem Rules.Settle.next (h : R.Settle n) : R.next.Settle (n + 1) where
  binder := Settles.next fun _ => binderRule_settles h
  bound := Settles.next (boundRule_settles h)
  pattern := Settles.next (patternRule_settles h)
  unary := Settles.next (unaryRule_settles h)
  climb := Settles.next (climbRule_settles h)
  trailers := Settles.next (trailersRule_settles h)
  item := Settles.next (itemRule_settles h)
  useTree := Settles.next fun _ => useTreeRule_settles h
  namedFields := Settles.next fun _ => namedFieldsRule_settles h
  type := Settles.next (typeRule_settles h)
  expr := Settles.next (exprRule_settles h)
  early := Settles.next (earlyRule_settles h)
  stmts := Settles.next (stmtsRule_settles h)

/-- Without any depth, no list leaves a level over. -/
theorem Settles.zero {α : Type} {p : Parse α} {k : ℕ} (hc : k + 1 ≤ c) : Settles 0 c b w ts p :=
  fun hn => absurd hn (by omega)

theorem Rules.settle_ofDepth (n : ℕ) : (Rules.ofDepth n).Settle n := by
  induction n with
  | zero =>
    exact ⟨Settles.zero, Settles.zero, Settles.zero, Settles.zero, Settles.zero, Settles.zero,
      Settles.zero, Settles.zero, Settles.zero, Settles.zero, Settles.zero, Settles.zero,
      Settles.zero⟩
  | succ n ih => exact ih.next

end Grammar

end ProcessCompiler
