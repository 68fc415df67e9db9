import ProcessCompiler.Proofs.Grammar.ExpressionAgreement
import ProcessCompiler.Proofs.Grammar.TypeSettling
/-!
# Expressions come to an answer

Operators, operands and the expressions with blocks, read over rules that come
to an answer, come to one.
-/

namespace ProcessCompiler

namespace Grammar

open Parse

variable {R : Rules} {n c : ℕ} {b w : Bool} {ts : List Token}

/-! ## Operators -/

variable (h : R.Settle n)
include h

theorem takeOperators_settles {structs : Bool} {before : Precedence} {e : Expr} (hc : 2 ≤ c) {k : ℕ}
    (hk : ts.length < k) :
    Settles n c false w ts (takeOperators R structs before k e) := by
  induction k generalizing ts e with
  | zero => exact absurd hk (Nat.not_lt_zero _)
  | succ k ih =>
    unfold takeOperators
    refine .tokens (.choice (.seq (h.climb hc) <| .tokens ?_) <| .pure _)
    exact .ite (fun hv => ih (by omega)) fun _ => .pure _

theorem rightOperand_settles {structs : Bool} {before : Precedence} (hc : 2 ≤ c) :
    Settles n c b w ts (rightOperand R structs before) := by
  unfold rightOperand
  exact .after (h.unary hc) <| .tokens (takeOperators_settles h (by omega) (Nat.lt_succ_self _))

theorem rangeFrom_settles {structs : Bool} {start : Option Expr} :
    Settles n c b w ts (rangeFrom R structs start) := by
  unfold rangeFrom
  refine .after rangeDots_settles ?_
  exact .tokens (.choice (.pure _) <| .bindPure (rightOperand_settles h (by omega)))

theorem castFrom_settles {e : Expr} (hc : 1 ≤ c) : Settles n c b w ts (castFrom R e) := by
  unfold castFrom
  refine .after (.keyword _) <| .bind (.span (h.type (by omega))) fun type v => .tokens ?_
  cases castFollower? v with
  | some what => exact .failHere nofun
  | none => exact .pure _

omit h in
theorem binaryOp?_ne_hash {y : Symbol} {op : BinaryOp} (h : binaryOp? ts = some (y, op)) :
    y ≠ .hash := by
  have hmem := List.mem_of_find?_eq_some h
  rintro rfl
  revert hmem
  simp [binaryOps]

theorem climbRule_settles {lhs : Expr} {structs : Bool} {base : Precedence} (hc : 1 ≤ c) :
    Settles n c false w ts (climbRule R lhs structs base) := by
  unfold climbRule
  refine .choice (.pure _) <| .tokens ?_
  cases hop : binaryOp? ts with
  | some operator =>
    obtain ⟨y, op⟩ := operator
    exact .choice (.pure _) <| .choice (.failHere nofun) <|
      .after (.symbol (binaryOp?_ne_hash hop)) <| .seq (rightOperand_settles h (by omega)) <|
        h.climb (by omega)
  | none =>
    exact .choice (.after (.symbol (by decide)) <| .seq (rightOperand_settles h (by omega)) <|
        h.climb (by omega)) <|
      .choice (.after (rangeFrom_settles h) <| h.climb (by omega)) <|
      .choice (.after (castFrom_settles h hc) <| h.climb (by omega)) <| .pure _

theorem exprRule_settles {structs : Bool} (hc : 2 ≤ c) :
    Settles n c b w ts (exprRule R structs) := by
  unfold exprRule
  exact .after (h.unary hc) <| h.climb (by omega)

/-! ## Calls, fields and indices -/

omit h in
theorem positionsOf_settles {negative : Bool} {parts : List (List Char)} :
    Settles n c false w ts (positionsOf negative parts) := by
  induction parts generalizing negative with
  | nil => exact .pure _
  | cons part parts ih =>
    unfold positionsOf
    exact .choice (.bindFail (by simp)) <| memberIndexThen fun _ => .bindPure ih

theorem memberFrom_settles {e : Expr} (hc : 1 ≤ c) : Settles n c b w ts (memberFrom R e) := by
  unfold memberFrom
  refine .keywordThen (.pure _) (.after member_settles fun {m v} => ?_)
  cases m with
  | position index => exact .pure _
  | named name =>
    have harguments : Settles n (c + 2) false w v (do
        symbol .colon2
        angleArguments R) :=
      .seq (.symbol (by decide)) <| angleArguments_settles h (by omega)
    refine .tokens (.either (fun _ => .map some (.span harguments)) (fun _ => .pure _) <|
      .tokens (.choice ?_ <| .pure _))
    exact .bindPure (.within <| .commas <| h.expr (by omega))

theorem dotFrom_settles {e : Expr} : Settles n c b w ts (dotFrom R e) := by
  unfold dotFrom
  refine .after (.symbol (by decide)) fun {_ v} => .tokens ?_
  cases htext : decimalText? v with
  | none => exact memberFrom_settles h (by omega)
  | some result =>
    refine .seq (.literal (isLiteral_of_decimalText? htext)) <|
      .seq (.bindPure positionsOf_settles) ?_
    exact .choice (memberFrom_settles h (by omega)) <| .pure _

theorem trailersRule_settles {e : Expr} (hc : 1 ≤ c) :
    Settles n c false w ts (trailersRule R e) := by
  unfold trailersRule
  exact .tokens <| .choice (.after (.within <| .commas <| h.expr (by omega)) <|
      h.trailers (by omega)) <|
    .choice (.after (dotFrom_settles h) <| h.trailers (by omega)) <|
    .choice (.after (.within <| h.expr (by omega)) <| h.trailers (by omega)) <|
      .choice (.after (.symbol (by decide)) <| h.trailers (by omega)) <| .pure _

/-! ## Atoms -/

omit h in
theorem literalExpr_settles (h : isLiteral ts = true) : Settles n c b w ts literalExpr := by
  unfold literalExpr
  refine .tokens ?_
  rcases ts with _ | ⟨(_ | _ | _ | ⟨d, joint⟩ | _) | _, v⟩
  case cons.leaf.literal => exact .bindPure (.skip_one nofun)
  case cons.leaf.keyword => exact .bindPure (.skip_one nofun)
  case cons.leaf.punct =>
    rw [isLiteral_punct, Bool.and_eq_true] at h
    obtain rfl : d = '-' := of_decide_eq_true h.1
    exact .bindPure (.skip_one nofun)
  all_goals cases h

theorem wordedBlock_settles {k : Keyword} {kind : BlockKind} :
    Settles n c b w ts (wordedBlock R k kind) := by
  unfold wordedBlock
  exact .after (.keyword _) <| .bindPure (bracedBody_settles h)

theorem closureParam_settles (hc : 2 ≤ c) : Settles n c b w ts (closureParam R) := by
  unfold closureParam
  exact discardAttributesThen h fun _ _ => .after (.discard (h.pattern hc)) <|
    .symbolThen (by decide) (.discard (h.type (by omega))) (.pure _)

theorem closureHead_settles (hc : 1 ≤ c) : Settles n c b w ts (closureHead R) := by
  unfold closureHead
  refine .seq (.discard (binder?_settles h hc)) <| .seq (.discard (.keyword? _)) <|
    .seq (.discard (.keyword? _)) <| .seq (.discard (.keyword? _)) <|
    .seq (.discard (.keyword? _)) <| .after (.symbol (by decide)) ?_
  exact .seq (.discard (.separated (fun _ => .symbol (by decide)) fun _ =>
    closureParam_settles h (by omega))) <| .symbol (by decide)

theorem closure_settles {structs : Bool} (hc : 1 ≤ c) : Settles n c b w ts (closure R structs) := by
  unfold closure
  refine .after (.span (closureHead_settles h hc)) <| .tokens (.choice ?_ <|
    .bindPure (h.expr (by omega)))
  exact .seq (.span (.seq (.symbol (by decide)) <| .discard (h.type (by omega)))) <|
    .bindPure (plainBody_settles h)

theorem fieldInit_settles (hc : 1 ≤ c) : Settles n c b w ts (fieldInit R) := by
  unfold fieldInit
  refine discardAttributesThen h fun _ _ => .after member_settles fun {m v} => ?_
  cases m with
  | named name => exact .symbolThen (by decide) (.bindPure (h.expr (by omega))) (.pure _)
  | position index => exact .seq (.symbol (by decide)) <| .bindPure (h.expr (by omega))

theorem fieldInits_settles (hc : 1 ≤ c) {k : ℕ} (hk : ts.length < k) :
    Settles n c false w ts (fieldInits R k) := by
  induction k generalizing ts c with
  | zero => exact absurd hk (Nat.not_lt_zero _)
  | succ k ih =>
    unfold fieldInits
    refine .tokens (.choice (.pure _) <| .symbolThen (by decide) (.tokens
      (.choice (.pure _) <| .bindPure (h.expr (by omega)))) ?_)
    refine .rounds (fieldInit_settles h hc) fun _ v hv => .tokens (.choice (.pure _) <|
      .shorter (.symbol (by decide)) fun _ v' hv' => .bindPure (ih (by omega) (by omega)))

theorem pathExpr_settles {structs : Bool} (hc : 1 ≤ c) :
    Settles n c b w ts (pathExpr R structs) := by
  unfold pathExpr
  exact .after (path_settles h hc) fun {p _} => .tokens <|
    .choice (.bindPure (macroTail_settles p)) <| .choice (.bindPure (.within <|
      .tokens (fieldInits_settles h (by omega) (Nat.lt_succ_self _)))) <| .pure _

theorem moreElements_settles (hc : 1 ≤ c) {k : ℕ} (hk : ts.length < k) :
    Settles n c false w ts (moreElements R k) := by
  induction k generalizing ts c with
  | zero => exact absurd hk (Nat.not_lt_zero _)
  | succ k ih =>
    unfold moreElements
    refine .tokens (.choice (.pure _) <| .rounds (.symbol (by decide)) fun _ v hv =>
      .tokens (.choice (.pure _) ?_))
    exact .shorter (h.expr (by omega)) fun _ v' hv' => .bindPure (ih (by omega) (by omega))

theorem parenExpr_settles : Settles n c b w ts (parenExpr R) := by
  unfold parenExpr
  exact .within <| .tokens <| .choice (.pure _) <| .seq (h.expr (by omega)) <| .tokens <|
    .choice (.pure _) <| .bindPure (moreElements_settles h (by omega) (Nat.lt_succ_self _))

theorem arrayExpr_settles : Settles n c b w ts (arrayExpr R) := by
  unfold arrayExpr
  refine .within <| .tokens <| .choice (.pure _) <| .seq (h.expr (by omega)) <| .tokens <|
    .choice (.bindPure (moreElements_settles h (by omega) (Nat.lt_succ_self _))) <| .choice ?_ <|
    .expect _
  exact .seq (.symbol (by decide)) <| .bindPure (h.expr (by omega))

theorem jumpValue?_settles (hc : 3 ≤ c) : Settles n c false w ts (jumpValue? R) := by
  unfold jumpValue?
  exact .tokens (.choice (.map _ (h.expr hc)) <| .pure _)

theorem breakExpr_settles {structs : Bool} (hc : 1 ≤ c) :
    Settles n c b w ts (breakExpr R structs) := by
  unfold breakExpr
  refine .after (.keyword _) <| .tokens (.choice (.seq
    (.discard (h.expr (by omega))) <| .fail nofun) <| .seq .lifetime? ?_)
  exact .tokens (.either (fun _ => jumpValue?_settles h (by omega)) (fun _ => .pure _) <| .pure _)

theorem lettingExpr_settles {structs : Bool} : Settles n c b w ts (lettingExpr R structs) := by
  unfold lettingExpr
  exact .after (.keyword _) <| .seq (.span (alternatives_settles h (by omega))) <|
    .seq (.symbol (by decide)) <| .seq (h.unary (by omega)) <| .bindPure (h.climb (by omega))

theorem branchIn_settles (hc : 1 ≤ c) {k : ℕ} (hk : ts.length < k) :
    Settles n c b w ts (branchIn R k) := by
  induction k generalizing ts c b with
  | zero => exact absurd hk (Nat.not_lt_zero _)
  | succ k ih =>
    unfold branchIn
    refine .rounds (.keyword _) fun _ v hv => .shorter (h.expr (by omega)) fun _ v' hv' =>
      .shorter (plainBody_settles h) fun _ v'' hv'' => .keywordRounds (fun x hx => .tokens ?_) (.pure _)
    exact .choice (.bindPure (ih (by omega) (by omega))) <|
      .choice (.bindPure (plainBody_settles h)) <| .expect _

theorem branchExpr_settles (hc : 1 ≤ c) : Settles n c b w ts (branchExpr R) :=
  .tokens (branchIn_settles h hc (Nat.lt_succ_self _))

theorem whileExpr_settles {label : Option String} (hc : 1 ≤ c) :
    Settles n c b w ts (whileExpr R label) := by
  unfold whileExpr
  exact .after (.keyword _) <| .seq (h.expr (by omega)) <| .bindPure (bracedBody_settles h)

theorem forExpr_settles {label : Option String} (hc : 1 ≤ c) :
    Settles n c b w ts (forExpr R label) := by
  unfold forExpr
  exact .after (.keyword _) <| .seq (.span (alternatives_settles h (by omega))) <|
    .seq (.keyword _) <| .seq (h.expr (by omega)) <| .bindPure (bracedBody_settles h)

theorem loopExpr_settles {label : Option String} : Settles n c b w ts (loopExpr R label) := by
  unfold loopExpr
  exact .after (.keyword _) <| .bindPure (bracedBody_settles h)

theorem guard?_settles (hc : 1 ≤ c) : Settles n c false w ts (guard? R) := by
  unfold guard?
  exact .keywordThen (.map _ (h.expr (by omega))) (.pure _)

theorem arm_settles (hc : 3 ≤ c) : Settles n c b w ts (arm R) := by
  unfold arm
  refine discardAttributesThen h fun _ _ => .after (.span (alternatives_settles h (by omega))) <|
    .seq (guard?_settles h (by omega)) <| .seq (.symbol (by decide)) <| .seq (h.early (by omega)) <|
    .tokens ?_
  exact .either (fun _ => .symbol (by decide)) (fun _ => .discard (.symbol? (by decide))) <| .pure _

theorem selectExpr_settles (hc : 1 ≤ c) : Settles n c b w ts (selectExpr R) := by
  unfold selectExpr
  refine .after (.keyword _) <| .seq (h.expr (by omega)) <| .bindPure ?_
  exact .within <| .seq (innerAttributes_settles h) <| .repeatAll <| arm_settles h (by omega)

theorem labelledExpr_settles : Settles n c b w ts (labelledExpr R) := by
  unfold labelledExpr
  refine .after .lifetime <| .seq (.symbol (by decide)) <| .tokens ?_
  exact .choice (whileExpr_settles h (by omega)) <| .choice (forExpr_settles h (by omega)) <|
    .choice (loopExpr_settles h) <| .choice (.bindPure (bracedBody_settles h)) <| .expect _

theorem asyncExpr_settles : Settles n c b w ts (asyncExpr R) := by
  unfold asyncExpr
  exact .after (.keyword _) <| .seq (.keyword? _) <| .bindPure (plainBody_settles h)

theorem tryExpr_settles : Settles n c b w ts (tryExpr R) := by
  unfold tryExpr
  exact .after (.keyword _) <| .bindPure (plainBody_settles h)

theorem becomeExpr_settles (hc : 1 ≤ c) : Settles n c b w ts (becomeExpr R) := by
  unfold becomeExpr
  exact .map _ (.span (.after (.keyword _) <| h.expr (by omega)))

omit h in
/-- A name, and what follows it. -/
theorem nameThen {α : Type} {f : PUnit → Parse α} (hf : ∀ v, Settles n c false true v (f ⟨⟩)) :
    SettlesBy n c (fun u => ∃ name v, u = .leaf (.ident name) :: v ∧ Proper v) ts
      (discard ident >>= f) := by
  have hname : SettlesBy n c (fun u => ∃ name, u = [.leaf (.ident name)]) ts (discard ident) := by
    refine SettlesBy.map _ ?_
    rcases ts with _ | ⟨(_ | name | _ | _ | _) | _, v⟩
    case cons.leaf.ident =>
      exact SettlesBy.map (p := skip 1) (fun _ => name) (.skip ⟨name, rfl⟩)
    all_goals exact fun _ _ => .error nofun
  refine hname.bind (fun _ _ v _ _ => (hf v).deepen (Nat.le_add_right c _)) ?_
  rintro _ v ⟨name, rfl⟩ hv
  exact ⟨name, v, rfl, hv.2 rfl⟩

omit h in
/-- A form built into the language: its `#` is no attribute's, since a name
follows it. -/
theorem builtinExpr_settles (h : isWord "builtin" ts = true) : Settles n c b w ts builtinExpr := by
  unfold builtinExpr
  refine .map _ (.span (.after (.skip_word h) fun {_ v} => ?_))
  refine SettlesBy.bind (symbol_settlesBy (P := fun _ => True) fun _ _ => trivial)
    (fun _ _ _ _ _ => nameThen fun _ => .tokens (.ite .skip_group fun _ => .expect _)) ?_
  rintro u _ - ⟨name, v, rfl, hv⟩
  exact ⟨nofun, fun _ => hv.ident_append name⟩

theorem atom_settles {structs : Bool} (hc : 1 ≤ c) : Settles n c b w ts (atom R structs) := by
  unfold atom
  refine .tokens ?_
  exact .ite literalExpr_settles fun _ => .choice (asyncExpr_settles h) <|
    .choice (tryExpr_settles h) <| .choice (closure_settles h hc) <|
    .ite (fun hword => builtinExpr_settles (Bool.and_eq_true_iff.1 hword).1) fun _ =>
    .choice (pathExpr_settles h hc) <| .choice (parenExpr_settles h) <|
    .choice (breakExpr_settles h hc) <| .choice (.after (.keyword _) <| .bindPure .lifetime?) <|
    .choice (.after (.keyword _) <| .bindPure (jumpValue?_settles h (by omega))) <|
    .choice (becomeExpr_settles h hc) <| .choice (arrayExpr_settles h) <|
    .choice (lettingExpr_settles h) <| .choice (branchExpr_settles h hc) <|
    .choice (whileExpr_settles h hc) <| .choice (forExpr_settles h hc) <|
    .choice (loopExpr_settles h) <| .choice (selectExpr_settles h hc) <|
    .choice (.after (.keyword _) <| .bindPure (jumpValue?_settles h (by omega))) <|
    .choice (wordedBlock_settles h) <| .choice (wordedBlock_settles h) <|
    .choice (.bindPure (bracedBody_settles h)) <| .choice (rangeFrom_settles h) <|
    .ite (fun hk => .bindPure (.skip_keyword hk)) fun _ =>
    .choice (labelledExpr_settles h) <| .expect _

theorem borrowExpr_settles {structs : Bool} : Settles n c b w ts (borrowExpr R structs) := by
  unfold borrowExpr
  refine .after (.symbol (by decide)) fun {_ v} => .tokens (.ite (fun hraw => ?_) fun _ =>
    .seq (.keyword? _) <| .bindPure (h.unary (by omega)))
  refine .seq ?_ <| .bindPure (h.unary (by omega))
  rw [Bool.and_eq_true] at hraw
  rcases v with _ | ⟨(_ | _ | _ | _ | _) | _, _ | ⟨(_ | _ | _ | _ | _) | _, v⟩⟩
  case cons.leaf.ident.cons.leaf.keyword => exact .skip nofun (.of_notMem fun joint => by simp)
  all_goals first | cases hraw.1 | cases hraw.2

theorem unaryRule_settles {structs : Bool} (hc : 1 ≤ c) :
    Settles n c b w ts (unaryRule R structs) := by
  unfold unaryRule
  refine attributesThen h fun attributes v _ => .tokens ?_
  exact .choice (.bindPure (borrowExpr_settles h)) <|
    .choice (.after (.symbol (by decide)) <| .bindPure (h.unary (by omega))) <|
    .choice (.after (.symbol (by decide)) <| .bindPure (h.unary (by omega))) <|
    .choice (.after (.symbol (by decide)) <| .bindPure (h.unary (by omega))) <|
    .after (atom_settles h hc) <| .seq (h.trailers (by omega)) <| .choice (.fail nofun) <| .pure _

theorem earlyAtom_settles (hc : 2 ≤ c) : Settles n c b w ts (earlyAtom R) := by
  unfold earlyAtom
  exact .tokens <| .choice (branchExpr_settles h (by omega)) <|
    .choice (whileExpr_settles h (by omega)) <| .choice (forExpr_settles h (by omega)) <|
    .choice (loopExpr_settles h) <| .choice (selectExpr_settles h (by omega)) <|
    .choice (tryExpr_settles h) <| .choice (wordedBlock_settles h) <|
    .choice (wordedBlock_settles h) <| .choice (.bindPure (bracedBody_settles h)) <|
    .choice (labelledExpr_settles h) <| h.unary hc

theorem earlyRule_settles (hc : 2 ≤ c) : Settles n c b w ts (earlyRule R) := by
  unfold earlyRule
  refine attributesThen h fun attributes v _ => .after (earlyAtom_settles h hc) <|
    .tokens (.choice (h.climb (by omega)) <| .choice ?_ <| .pure _)
  exact .seq (h.trailers (by omega)) <| h.climb (by omega)

end Grammar

end ProcessCompiler
