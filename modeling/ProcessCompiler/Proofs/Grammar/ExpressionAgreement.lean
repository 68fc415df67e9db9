import Mathlib.Data.List.Find
import ProcessCompiler.Proofs.Grammar.PatternAgreement
import ProcessCompiler.Grammar.Expression
/-!
# Agreement of expressions

Operators, calls and atoms, read over rules that agree, agree.
-/

namespace ProcessCompiler

namespace Grammar

open Parse

variable {R R' : Rules} {S : Seam} {u : List Token} {Q : Expr → Prop}

/-! ## Operators -/

/-- No operator is a semicolon. -/
theorem ne_semi_of_mem_binaryOps : ∀ r ∈ binaryOps, r.1 ≠ Symbol.semi := by decide

@[simp]
theorem binaryOp?_right : binaryOp? (u ++ S.right) = binaryOp? (u ++ S.left) := by
  refine List.find?_congr fun r hr => ?_
  exact isSymbol_right (ne_semi_of_mem_binaryOps r hr)

theorem binaryOp?_ne_semi {ts : List Token} {y : Symbol} {op : BinaryOp}
    (h : binaryOp? ts = some (y, op)) : y ≠ .semi :=
  ne_semi_of_mem_binaryOps _ (List.mem_of_find?_eq_some h)

@[simp]
theorem isAssign_right : isAssign (u ++ S.right) = isAssign (u ++ S.left) := by
  simp [isAssign]

@[simp]
theorem precedenceAhead_right : precedenceAhead (u ++ S.right) = precedenceAhead (u ++ S.left) := by
  simp [precedenceAhead]

/-- Whether tokens were taken is seen alike. -/
theorem Seam.length_lt_iff {v : List Token} {b : Bool} (hv : (S.cut b).Admits v) :
    (v ++ (S.cut b).right).length < (u ++ S.right).length ↔
      (v ++ (S.cut b).left).length < (u ++ S.left).length := by
  cases S with
  | block inner name more =>
    cases b with
    | false => simp [cut, left, right]
    | true =>
      cases hv
      simp [cut, left, right]
      omega
  | _ => simp [cut]

variable (h : R.Agree R')
include h

theorem takeOperators_agree {structs : Bool} {before : Precedence} {e : Expr} {n m : ℕ}
    (hnm : n ≤ m) :
    AgreeAt S Q u (takeOperators R structs before n e) (takeOperators R' structs before m e) := by
  induction n generalizing S Q u m e with
  | zero => exact AgreeAt.tooDeep
  | succ n ih =>
    obtain ⟨m, rfl⟩ := Nat.exists_eq_add_of_lt hnm
    unfold takeOperators
    refine .tokens ?_
    simp only [precedenceAhead_right]
    exact .choice Iff.rfl (.seq (h.climb _ _ _ _ _ _) <| .admitting fun hv => .tokens <|
      .choice (Seam.length_lt_iff hv) (ih (Nat.le_add_right n m)) <| .pure _) <| .pure _

theorem rightOperand_agree {structs : Bool} {before : Precedence} :
    AgreeAt S Q u (rightOperand R structs before) (rightOperand R' structs before) := by
  unfold rightOperand
  exact .seq (h.unary _ _ _ _) <| .tokens (takeOperators_agree h (Seam.rounds_le _))

omit h in
@[simp]
theorem endsOpenRange_right [S.Unspent] (structs : Bool) :
    endsOpenRange structs (u ++ S.right) = endsOpenRange structs (u ++ S.left) := by
  have h := isEmpty_or_isSymbol_semi_right (S := S) (u := u) (isSymbol .comma (u ++ S.left))
  simp [endsOpenRange, h]

theorem rangeFrom_agree {structs : Bool} {start : Option Expr} :
    AgreeAt S Q u (rangeFrom R structs start) (rangeFrom R' structs start) := by
  unfold rangeFrom
  exact .after rangeDots_takes <| .tokens <| .choice (by simp) (.pure _) <|
    .seq (rightOperand_agree h) <| .pure _

omit h in
theorem castFollower?_right (hu : S.Admits u) :
    castFollower? (u ++ S.right) = castFollower? (u ++ S.left) := by
  rcases S.unspent_or with hS | ⟨name, more, rfl⟩
  · unfold castFollower?
    grind -ring -linarith
  · cases hu
    rfl

theorem castFrom_agree {e : Expr} : AgreeAt S Q u (castFrom R e) (castFrom R' e) := by
  unfold castFrom
  refine .seq (.keyword _) <| .seq (.span (h.type _ _ _ _)) <| .admitting fun hu => .tokens ?_
  rw [castFollower?_right hu]
  split
  · exact .failHere _
  · exact .pure _

theorem climbRule_agree {lhs : Expr} {structs : Bool} {base : Precedence} :
    AgreeAt S Q u (climbRule R lhs structs base) (climbRule R' lhs structs base) := by
  unfold climbRule
  refine .choice Iff.rfl (.pure _) <| .tokens ?_
  rw [binaryOp?_right]
  cases hop : binaryOp? (u ++ S.left) with
  | some r =>
    have hy : r.1 ≠ .semi := binaryOp?_ne_semi hop
    exact .choice Iff.rfl (.pure _) <| .choice Iff.rfl (.failHere _) <| .seq (.symbol hy) <|
      .seq (rightOperand_agree h) <| h.climb _ _ _ _ _ _
  | none =>
    exact .choice (by simp) (.seq (.symbol (by decide)) <| .seq (rightOperand_agree h) <|
        h.climb _ _ _ _ _ _) <|
      .choice (by simp) (.seq (rangeFrom_agree h) <| h.climb _ _ _ _ _ _) <|
      .choice (by simp) (.seq (castFrom_agree h) <| h.climb _ _ _ _ _ _) <| .pure _

theorem exprRule_agree {structs : Bool} :
    AgreeAt S Q u (exprRule R structs) (exprRule R' structs) := by
  unfold exprRule
  exact .seq (h.unary _ _ _ _) <| h.climb _ _ _ _ _ _

/-! ## Calls, fields and indices -/

omit h in
/-- A decimal ahead is a literal. -/
theorem isLiteral_of_decimalText? {ts : List Token} {r : Bool × List Char}
    (h : decimalText? ts = some r) : isLiteral ts = true := by
  unfold decimalText? at h
  split at h
  · rfl
  · rfl
  · cases h

omit h in
theorem decimalText?_right : decimalText? (u ++ S.right) = decimalText? (u ++ S.left) := by
  rcases u with _ | ⟨(_ | _ | _ | ⟨c, joint⟩ | ⟨_ | _ | _ | _ | _ | _ | _, _⟩) | _, u⟩
  case cons.leaf.punct =>
    by_cases hc : c = '-'
    · subst hc
      rcases u with _ | ⟨(_ | _ | _ | _ | ⟨_ | _ | _ | _ | _ | _ | _, _⟩) | _, u⟩
      · cases S <;> rfl
      all_goals rfl
    · have hnone : ∀ ts, decimalText? (.leaf (.punct c joint) :: ts) = none := by
        intro ts
        unfold decimalText?
        split <;> simp_all
      simp only [List.cons_append, hnone]
  case nil => cases S <;> rfl
  all_goals rfl

omit h in
theorem positionsOf_agree {Q : List Nat → Prop} {negative : Bool} {parts : List (List Char)} :
    AgreeAt S Q u (positionsOf negative parts) (positionsOf negative parts) := by
  induction parts generalizing negative Q u with
  | nil => exact .pure _
  | cons part parts ih =>
    unfold positionsOf
    exact .choice Iff.rfl (.bindFail _) <| .bindMemberIndex fun _ => .seq ih <| .pure _

omit h in
theorem decimalFields_agree {Q : Expr × Bool → Prop} {e : Expr} {negative : Bool} {text : List
    Char} :
    AgreeAt S Q u (decimalFields e negative text) (decimalFields e negative text) := by
  unfold decimalFields
  exact .seq positionsOf_agree <| .pure _

theorem memberFrom_agree {e : Expr} : AgreeAt S Q u (memberFrom R e) (memberFrom R' e) := by
  unfold memberFrom
  refine .bind (.keyword? _) fun waits v => .choice Iff.rfl (.pure _) <|
    .bind member_agree fun m v => ?_
  cases m with
  | position i => exact .pure _
  | named name =>
    refine .tokens <| .either (by simp) (fun _ => .map _ (.span (.seq (.symbol (by decide)) <|
      angleArguments_agree h))) (fun _ => .pure _) <| .tokens ?_
    exact .choice (by simp) (.seq (.within <| .commas <| h.expr _ _ _ _) <| .pure _) <| .pure _

theorem dotFrom_agree {e : Expr} : AgreeAt S Q u (dotFrom R e) (dotFrom R' e) := by
  unfold dotFrom
  refine .bind (.symbol (by decide)) fun _ v => .tokens ?_
  rw [decimalText?_right]
  split
  case h_1 negative text hr =>
    refine .seq (.literal (isLiteral_of_decimalText? hr)) ?_
    exact .seq decimalFields_agree <| .choice Iff.rfl (memberFrom_agree h) <| .pure _
  case h_2 => exact memberFrom_agree h

theorem trailersRule_agree {e : Expr} : AgreeAt S Q u (trailersRule R e) (trailersRule R' e) := by
  unfold trailersRule
  exact .tokens <| .choice (by simp) (.seq (.within <| .commas <| h.expr _ _ _ _) <|
      h.trailers _ _ _ _) <|
    .choice (by simp) (.seq (dotFrom_agree h) <| h.trailers _ _ _ _) <|
    .choice (by simp) (.seq (.within <| h.expr _ _ _ _) <| h.trailers _ _ _ _) <|
    .choice (by simp) (.seq (.symbol (by decide)) <| h.trailers _ _ _ _) <| .pure _

/-! ## Atoms -/

omit h in
@[simp]
theorem startsExpr_right [S.Unspent] : startsExpr (u ++ S.right) = startsExpr (u ++ S.left) := by
  simp [startsExpr]

omit h in
theorem literalExpr_agree (hlit : isLiteral (u ++ S.left) = true) :
    AgreeAt S Q u literalExpr literalExpr := by
  unfold literalExpr
  refine .tokens ?_
  have hpos := isLiteral_pos hlit
  rcases u with _ | ⟨(_ | _ | _ | _ | _) | _, u⟩
  · cases hpos
  all_goals exact .seq (.skip hpos) <| .pure _

theorem wordedBlock_agree {k : Keyword} {kind : BlockKind} :
    AgreeAt S Q u (wordedBlock R k kind) (wordedBlock R' k kind) := by
  unfold wordedBlock
  exact .seq (.keyword _) <| .seq (bracedBody_agree h) <| .pure _

theorem closureParam_agree {Q : Unit → Prop} :
    AgreeAt S Q u (closureParam R) (closureParam R') := by
  unfold closureParam
  exact .seq (.discard (outerAttributes_agree h)) <| .seq (.discard (h.pattern _ _ _)) <|
    .seq (.symbol? (by decide)) <| .choice Iff.rfl (.discard (h.type _ _ _ _)) <| .pure _

theorem closureHead_agree {Q : Unit → Prop} : AgreeAt S Q u (closureHead R) (closureHead R') := by
  unfold closureHead
  refine .seq (.discard (binder?_agree h)) <| .seq (.discard (.keyword? _)) <|
    .seq (.discard (.keyword? _)) <| .seq (.discard (.keyword? _)) <|
    .seq (.discard (.keyword? _)) ?_
  exact .seq (.symbol (by decide)) <| .seq (.discard (.separated
    (fun _ => .inl (isSymbol_right (by decide))) (fun _ => ⟨rfl, nofun⟩) (fun _ => .symbol (by decide))
    fun _ => closureParam_agree h)) <| .symbol (by decide)

theorem closure_agree {structs : Bool} :
    AgreeAt S Q u (closure R structs) (closure R' structs) := by
  unfold closure
  exact .seq (.span (closureHead_agree h)) <| .tokens <|
    .choice (by simp) (.seq (.span (.seq (.symbol (by decide)) <|
      .discard (h.type _ _ _ _))) <| .seq (plainBody_agree h) <| .pure _) <|
    .seq (h.expr _ _ _ _) <| .pure _

omit h in
@[simp]
theorem startsClosure_right : startsClosure (u ++ S.right) = startsClosure (u ++ S.left) := by
  unfold startsClosure
  grind -ring -linarith

theorem fieldInit_agree {Q : FieldInit → Prop} : AgreeAt S Q u (fieldInit R) (fieldInit R') := by
  unfold fieldInit
  refine .seq (.discard (outerAttributes_agree h)) <| .bind member_agree fun name _ => ?_
  cases name with
  | named =>
    exact .seq (.symbol? (by decide)) <| .choice Iff.rfl (.seq (h.expr _ _ _ _) <| .pure _) <|
      .pure _
  | position =>
    exact .seq (.symbol (by decide)) <| .seq (h.expr _ _ _ _) <| .pure _

theorem fieldInits_agree {Q : List FieldInit × RecordRest → Prop} {n m : ℕ} (hnm : n ≤ m) :
    AgreeAt .closed Q u (fieldInits R n) (fieldInits R' m) := by
  induction n generalizing Q u m with
  | zero => exact AgreeAt.tooDeep
  | succ n ih =>
    obtain ⟨m, rfl⟩ := Nat.exists_eq_add_of_lt hnm
    unfold fieldInits
    refine .tokens <| .choice (by simp) (.pure _) <| .seq (.symbol? (by decide)) <|
      .choice Iff.rfl (.tokens ?_) <| .seq (fieldInit_agree h) <| .tokens ?_
    · exact .choice (by simp) (.pure _) <| .seq (h.expr _ _ _ _) <| .pure _
    · exact .choice (by simp) (.pure _) <| .seq (.symbol (by decide)) <|
        .seq (ih (Nat.le_add_right n m)) <| .pure _

theorem pathExpr_agree {structs : Bool} :
    AgreeAt S Q u (pathExpr R structs) (pathExpr R' structs) := by
  unfold pathExpr
  exact .seq (path_agree h) <| .tokens <| .choice (by simp) (.seq macroTail_agree <| .pure _) <|
    .choice (by simp) (.seq (.within <| .tokens
      (fieldInits_agree h (Seam.rounds_le _))) <| .pure _) <| .pure _

theorem moreElements_agree {Q : List Expr → Prop} {n m : ℕ} (hnm : n ≤ m) :
    AgreeAt .closed Q u (moreElements R n) (moreElements R' m) := by
  induction n generalizing Q u m with
  | zero => exact AgreeAt.tooDeep
  | succ n ih =>
    obtain ⟨m, rfl⟩ := Nat.exists_eq_add_of_lt hnm
    unfold moreElements
    refine .tokens <| .choice (by simp) (.pure _) <| .seq (.symbol (by decide)) <| .tokens ?_
    exact .choice (by simp) (.pure _) <| .seq (h.expr _ _ _ _) <|
      .seq (ih (Nat.le_add_right n m)) <| .pure _

theorem parenExpr_agree : AgreeAt S Q u (parenExpr R) (parenExpr R') := by
  unfold parenExpr
  refine .within <| .tokens <| .choice (by simp) (.pure _) <| .seq (h.expr _ _ _ _) <| .tokens ?_
  exact .choice (by simp) (.pure _) <| .seq (moreElements_agree h (Seam.rounds_le _)) <| .pure _

theorem arrayExpr_agree : AgreeAt S Q u (arrayExpr R) (arrayExpr R') := by
  unfold arrayExpr
  refine .within <| .tokens <| .choice (by simp) (.pure _) <| .seq (h.expr _ _ _ _) <| .tokens ?_
  exact .choice (by simp)
      (.seq (moreElements_agree h (Seam.rounds_le _)) <| .pure _) <|
    .choice Iff.rfl (.seq (.symbol_closed _) <| .seq (h.expr _ _ _ _) <| .pure _) <| .expect _ _

theorem jumpValue?_agree [S.Unspent] {Q : Option Expr → Prop} :
    AgreeAt S Q u (jumpValue? R) (jumpValue? R') := by
  unfold jumpValue?
  exact .tokens <| .choice (by simp) (.map _ (h.expr _ _ _ _)) <| .pure _

theorem breakExpr_agree {structs : Bool} :
    AgreeAt S Q u (breakExpr R structs) (breakExpr R' structs) := by
  unfold breakExpr
  refine .after (.keyword _) <| .tokens <| .choice (by grind -ring -linarith)
    (.seq (.discard (h.expr _ _ _ _)) <| .fail _) <| .firmly .lifetime? <| .tokens ?_
  exact .either (by simp) (fun _ => jumpValue?_agree h) (fun _ => .pure _) <| .pure _

theorem lettingExpr_agree {structs : Bool} :
    AgreeAt S Q u (lettingExpr R structs) (lettingExpr R' structs) := by
  unfold lettingExpr
  exact .seq (.keyword _) <| .seq (.span (alternatives_agree h)) <| .seq (.symbol (by decide)) <|
    .seq (h.unary _ _ _ _) <| .seq (h.climb _ _ _ _ _ _) <| .pure _

theorem branchIn_agree {n m : ℕ} (hnm : n ≤ m) : AgreeAt S Q u (branchIn R n) (branchIn R' m) := by
  induction n generalizing S Q u m with
  | zero => exact AgreeAt.tooDeep
  | succ n ih =>
    obtain ⟨m, rfl⟩ := Nat.exists_eq_add_of_lt hnm
    unfold branchIn
    refine .seq (.keyword _) <| .seq (h.expr _ _ _ _) <| .seq (plainBody_agree h) <|
      .seq (.keyword? _) <| .choice Iff.rfl (.tokens ?_) <| .pure _
    exact .choice (by simp) (.seq (ih (Nat.le_add_right n m)) <| .pure _) <|
      .choice (by simp) (.seq (plainBody_agree h) <| .pure _) <| .expect _ _

theorem branchExpr_agree : AgreeAt S Q u (branchExpr R) (branchExpr R') := by
  unfold branchExpr
  exact .tokens (branchIn_agree h (Seam.rounds_le _))

theorem whileExpr_agree {label : Option String} :
    AgreeAt S Q u (whileExpr R label) (whileExpr R' label) := by
  unfold whileExpr
  exact .seq (.keyword _) <| .seq (h.expr _ _ _ _) <| .seq (bracedBody_agree h) <| .pure _

theorem forExpr_agree {label : Option String} :
    AgreeAt S Q u (forExpr R label) (forExpr R' label) := by
  unfold forExpr
  exact .seq (.keyword _) <| .seq (.span (alternatives_agree h)) <| .seq (.keyword _) <|
    .seq (h.expr _ _ _ _) <| .seq (bracedBody_agree h) <| .pure _

theorem loopExpr_agree {label : Option String} :
    AgreeAt S Q u (loopExpr R label) (loopExpr R' label) := by
  unfold loopExpr
  exact .seq (.keyword _) <| .seq (bracedBody_agree h) <| .pure _

theorem guard?_agree {Q : Option Expr → Prop} : AgreeAt S Q u (guard? R) (guard? R') := by
  unfold guard?
  exact .seq (.keyword? _) <| .choice Iff.rfl (.map _ (h.expr _ _ _ _)) <| .pure _

theorem arm_agree {Q : Arm → Prop} : AgreeAt .closed Q u (arm R) (arm R') := by
  unfold arm
  refine .seq (.discard (outerAttributes_agree h)) <| .seq (.span (alternatives_agree h)) <|
    .seq (guard?_agree h) ?_
  exact .seq (.symbol (by decide)) <| .seq (h.early _ _ _) <| .tokens <|
    .either (by simp) (fun _ => .symbol (by decide)) (fun _ => .discard (.symbol? (by decide))) <|
      .pure _

theorem selectExpr_agree : AgreeAt S Q u (selectExpr R) (selectExpr R') := by
  unfold selectExpr
  exact .seq (.keyword _) <| .seq (h.expr _ _ _ _) <|
    .seq (.within <| .seq (innerAttributes_agree h) <| .repeatAll <| arm_agree h) <| .pure _

theorem labelledExpr_agree : AgreeAt S Q u (labelledExpr R) (labelledExpr R') := by
  unfold labelledExpr
  exact .seq .lifetime <| .seq (.symbol (by decide)) <| .tokens <|
    .choice (by simp) (whileExpr_agree h) <| .choice (by simp) (forExpr_agree h) <|
    .choice (by simp) (loopExpr_agree h) <|
    .choice (by simp) (.seq (bracedBody_agree h) <| .pure _) <| .expect _ _

theorem asyncExpr_agree : AgreeAt S Q u (asyncExpr R) (asyncExpr R') := by
  unfold asyncExpr
  exact .seq (.keyword _) <| .seq (.keyword? _) <| .seq (plainBody_agree h) <| .pure _

theorem tryExpr_agree : AgreeAt S Q u (tryExpr R) (tryExpr R') := by
  unfold tryExpr
  exact .seq (.keyword _) <| .seq (plainBody_agree h) <| .pure _

theorem becomeExpr_agree : AgreeAt S Q u (becomeExpr R) (becomeExpr R') := by
  unfold becomeExpr
  exact .map _ (.span (.seq (.keyword _) <| h.expr _ _ _ _))

omit h in
theorem builtinExpr_agree (hword : isWord "builtin" (u ++ S.left) = true) :
    AgreeAt S Q u builtinExpr builtinExpr := by
  unfold builtinExpr
  refine .map _ (.span (.seq (.skip (isWord_pos hword)) ?_))
  exact .seq (.symbol (by decide)) <| .seq (.discard .ident) <| .tokens <|
    .ite (by simp) (fun hc => .skip (isGroup_pos hc (by decide))) fun _ => .expect _ _

omit h in
@[simp]
theorem startsPathExpr_right [S.Unspent] :
    startsPathExpr (u ++ S.right) = startsPathExpr (u ++ S.left) := by
  unfold startsPathExpr
  grind -ring -linarith

theorem atom_agree {structs : Bool} : AgreeAt S Q u (atom R structs) (atom R' structs) := by
  unfold atom
  exact .start nofun <| .tokens <| .ite (by simp) (fun hc => literalExpr_agree hc) fun _ =>
    .choice (by grind -ring -linarith) (asyncExpr_agree h) <|
    .choice (by grind -ring -linarith) (tryExpr_agree h) <| .choice (by simp) (closure_agree h) <|
    .ite (by grind -ring -linarith) (fun hc => builtinExpr_agree (Bool.and_eq_true_iff.1 hc).1)
      fun _ =>
    .choice (by simp) (pathExpr_agree h) <| .choice (by simp) (parenExpr_agree h) <|
    .choice (by simp) (breakExpr_agree h) <|
    .choice (by simp) (.seq (.keyword _) <| .seq .lifetime? <| .pure _) <|
    .choice (by simp) (.after (.keyword _) <| .seq (jumpValue?_agree h) <| .pure _) <|
    .choice (by simp) (becomeExpr_agree h) <| .choice (by simp) (arrayExpr_agree h) <|
    .choice (by simp) (lettingExpr_agree h) <| .choice (by simp) (branchExpr_agree h) <|
    .choice (by simp) (whileExpr_agree h) <| .choice (by simp) (forExpr_agree h) <|
    .choice (by simp) (loopExpr_agree h) <| .choice (by simp) (selectExpr_agree h) <|
    .choice (by simp) (.after (.keyword _) <| .seq (jumpValue?_agree h) <| .pure _) <|
    .choice (by simp) (wordedBlock_agree h) <| .choice (by simp) (wordedBlock_agree h) <|
    .choice (by simp) (.seq (bracedBody_agree h) <| .pure _) <|
    .choice (by simp) (rangeFrom_agree h) <|
    .ite (by simp) (fun hc => .seq (.skip (isKeyword_pos hc)) <| .pure _) fun _ =>
    .choice (by simp) (labelledExpr_agree h) <| .expect _ _

theorem borrowExpr_agree {structs : Bool} :
    AgreeAt S Q u (borrowExpr R structs) (borrowExpr R' structs) := by
  unfold borrowExpr
  refine .after (.symbol (by decide)) fun [S.Unspent] {_ v} => .tokens ?_
  by_cases hraw : isWord "raw" (v ++ S.left) = true
  · have hpos := isWord_pos hraw
    simp only [drop_left hpos, drop_right hpos, isWord_right, isKeywordOf_right, isKeyword_right]
    refine .ite Iff.rfl (fun hc => .seq (.skip ?_) <| .seq (h.unary _ _ _ _) <|
      .pure _) fun _ => .seq (.keyword? _) <| .seq (h.unary _ _ _ _) <| .pure _
    -- The second word lies before the seam as well.
    have hnext := isKeywordOf_pos (Bool.and_eq_true_iff.1 hc).2
    rw [List.length_drop] at hnext
    omega
  · simp only [isWord_right, hraw, Bool.false_and, Bool.false_eq_true, if_false]
    exact .seq (.keyword? _) <| .seq (h.unary _ _ _ _) <| .pure _

theorem unaryRule_agree {structs : Bool} :
    AgreeAt S Q u (unaryRule R structs) (unaryRule R' structs) := by
  unfold unaryRule
  exact .seq (outerAttributes_agree h) <| .tokens <|
    .choice (by simp) (.seq (borrowExpr_agree h) <| .pure _) <|
    .choice (by simp) (.seq (.symbol (by decide)) <| .seq (h.unary _ _ _ _) <| .pure _) <|
    .choice (by simp) (.seq (.symbol (by decide)) <| .seq (h.unary _ _ _ _) <| .pure _) <|
    .choice (by simp) (.seq (.symbol (by decide)) <| .seq (h.unary _ _ _ _) <| .pure _) <|
    .seq (atom_agree h) <| .seq (h.trailers _ _ _ _) <| .choice Iff.rfl (.fail _) <| .pure _

theorem earlyAtom_agree : AgreeAt S Q u (earlyAtom R) (earlyAtom R') := by
  unfold earlyAtom
  exact .tokens <| .choice (by simp) (branchExpr_agree h) <|
    .choice (by simp) (whileExpr_agree h) <| .choice (by grind -ring -linarith) (forExpr_agree h) <|
    .choice (by simp) (loopExpr_agree h) <| .choice (by simp) (selectExpr_agree h) <|
    .choice (by grind -ring -linarith) (tryExpr_agree h) <|
    .choice (by simp) (wordedBlock_agree h) <|
    .choice (by grind -ring -linarith) (wordedBlock_agree h) <|
    .choice (by simp) (.seq (bracedBody_agree h) <| .pure _) <|
    .choice (by simp) (labelledExpr_agree h) <| h.unary _ _ _ _

theorem earlyRule_agree : AgreeAt S Q u (earlyRule R) (earlyRule R') := by
  unfold earlyRule
  exact .seq (outerAttributes_agree h) <| .seq (earlyAtom_agree h) <| .tokens <|
    .choice Iff.rfl (h.climb _ _ _ _ _ _) <|
    .choice (by simp) (.seq (h.trailers _ _ _ _) <| h.climb _ _ _ _ _ _) <| .pure _

end Grammar

end ProcessCompiler
