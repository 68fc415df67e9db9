import ProcessCompiler.Proofs.Grammar.Agreement
import ProcessCompiler.Grammar.Generics
/-!
# Agreement of types

Attributes, paths, bounds, types and generic parameters, read over rules that
agree, agree.
-/

namespace ProcessCompiler

namespace Grammar

open Parse

variable {R R' : Rules} {S : Seam} {u : List Token} {Q : Unit → Prop}

/-! ## Attributes -/

@[simp]
theorem plainSegment?_right [hS : S.Unspent] :
    plainSegment? (u ++ S.right) = plainSegment? (u ++ S.left) := by
  rcases u with _ | ⟨(_ | _ | _ | _ | _) | _, u⟩
  · cases S with
    | spent name more => exact absurd rfl (hS.ne name more)
    | _ => rfl
  all_goals rfl

theorem plainSegment?_pos {name : String} (h : plainSegment? (u ++ S.left) = some name) :
    0 < u.length := by
  cases u with
  | nil => cases S <;> cases h
  | cons t u => exact Nat.succ_pos _

theorem plainSegments_firm [S.Unspent] {n m : ℕ} (hnm : n ≤ m) :
    FirmAt S u (plainSegments n) (plainSegments m) := by
  induction n generalizing u m with
  | zero => exact FirmAt.tooDeep
  | succ n ih =>
    obtain ⟨m, rfl⟩ := Nat.exists_eq_add_of_lt hnm
    unfold plainSegments
    refine .bind (.symbol? (by decide)) fun joined v =>
      .choice Iff.rfl (.tokens ?_) <| .pure _
    rw [plainSegment?_right]
    cases hname : plainSegment? (v ++ S.left) with
    | none => exact .expect _ _
    | some name =>
      exact .seq (.skip (plainSegment?_pos hname)) <| .seq (ih (Nat.le_add_right n m)) <| .pure _

theorem plainPath_firm [S.Unspent] : FirmAt S u plainPath plainPath := by
  unfold plainPath
  refine .bind (.symbol? (by decide)) fun rooted v => .tokens ?_
  rw [plainSegment?_right]
  cases hname : plainSegment? (v ++ S.left) with
  | none => exact .seq TakesAt.ident.firm <| .pure _
  | some name =>
    exact .seq (.skip (plainSegment?_pos hname)) <|
      .tokens (.seq (plainSegments_firm (Seam.rounds_le _)) <| .pure _)

variable (h : R.Agree R')
include h

theorem attributeValue_agree : AgreeAt S Q u (attributeValue R) (attributeValue R') := by
  unfold attributeValue
  exact .seq (.symbol (by decide)) <| .tokens <| .choice (by grind -ring -linarith) (.failHere _) <|
    .discard (h.expr _ _ _ _)

theorem attributeBody_agree : AgreeAt .closed Q u (attributeBody R) (attributeBody R') := by
  unfold attributeBody
  refine .tokens (.either (by simp) (fun hc => .skip (isKeyword_pos hc))
    (fun _ => .discard plainPath_firm.agree) <| .tokens ?_)
  exact .choice Iff.rfl (.skip_closed _) <| .choice (by simp) (attributeValue_agree h) <| .pure _

theorem outerAttributes_agree {Q : List Token → Prop} :
    AgreeAt S Q u (outerAttributes R) (outerAttributes R') := by
  unfold outerAttributes
  exact .span (.repeatWhile (fun _ => isSymbol_right (by decide)) fun _ =>
    .seq (.symbol (by decide)) <| .within <| attributeBody_agree h)

theorem innerAttributes_agree : AgreeAt S Q u (innerAttributes R) (innerAttributes R') := by
  unfold innerAttributes
  exact .discard (.repeatWhile (fun _ => by grind -ring -linarith) fun _ =>
    .seq (.symbol (by decide)) <| .seq (.symbol (by decide)) <| .within <| attributeBody_agree h)

theorem bracedBody_agree {Q : List Stmt → Prop} : AgreeAt S Q u (bracedBody R) (bracedBody R') := by
  unfold bracedBody
  exact .within <| .seq (innerAttributes_agree h) <| h.stmts _ _

theorem plainBody_agree {Q : List Stmt → Prop} : AgreeAt S Q u (plainBody R) (plainBody R') := by
  unfold plainBody
  exact .within <| h.stmts _ _

/-! ## Paths -/

omit h in
@[simp]
theorem startsAngle_right (inExpr : Bool) :
    startsAngle inExpr (u ++ S.right) = startsAngle inExpr (u ++ S.left) := by
  unfold startsAngle
  grind -ring -linarith

omit h in
@[simp]
theorem startsParen_right : startsParen (u ++ S.right) = startsParen (u ++ S.left) := by
  unfold startsParen
  grind -ring -linarith

omit h in
@[simp]
theorem startsBang_right : startsBang (u ++ S.right) = startsBang (u ++ S.left) := by
  unfold startsBang
  simp

theorem constValue_agree : AgreeAt S Q u (constValue R) (constValue R') := by
  unfold constValue
  exact .start nofun <| .tokens <| .ite (by simp) (fun hc => .literal hc) fun _ =>
    .ite (by simp) (fun hc => .skip (isIdent_pos hc)) fun _ =>
    .choice (by simp) (.discard (bracedBody_agree h)) <| .failAlike nofun nofun

theorem constraintBounds_agree [S.Unspent] :
    AgreeAt S Q u (constraintBounds R) (constraintBounds R') := by
  unfold constraintBounds
  exact .discard (.linked (by decide) (fun _ => .inl (by simp)) fun _ => h.bound _ _ _ _ _)

theorem genericArgument_agree : AgreeAt S Q u (genericArgument R) (genericArgument R') := by
  unfold genericArgument
  refine .tokens <| .choice (by grind -ring -linarith) (.discard .lifetime) <|
    .choice (by simp) (constValue_agree h) <| .bind (h.type _ _ _ _) fun form v {_} => ?_
  -- Only the name of a parameter may have a value or bounds behind it.
  match form with
  | .path true =>
    exact .seq (.symbol? (by decide)) <| .choice Iff.rfl
      (.tokens (.choice (by simp) (constValue_agree h) <| .discard (h.type _ _ _ _))) <|
      .symbolThen (by decide) (constraintBounds_agree h) <| .pure _
  | .path false | .bounds _ | .other => exact .pure _

theorem angleArguments_agree : AgreeAt S Q u (angleArguments R) (angleArguments R') := by
  unfold angleArguments
  exact .seq (.symbol (by decide)) <| .seq (.discard (.separated
    (fun _ => .inl (isSymbol_right (by decide))) (fun _ => ⟨rfl, nofun⟩) (fun _ => .symbol (by decide))
    fun _ => genericArgument_agree h)) <| .symbol (by decide)

theorem returnType_agree {plus : Bool} :
    AgreeAt S Q u (returnType R plus) (returnType R' plus) := by
  unfold returnType
  exact .seq (.symbol? (by decide)) <| .choice Iff.rfl (.discard (h.type _ _ _ _)) <| .pure _

theorem parenArguments_agree : AgreeAt S Q u (parenArguments R) (parenArguments R') := by
  unfold parenArguments
  exact .seq (.discard (.within <| .commas <| h.type _ _ _ _)) <| returnType_agree h

theorem segment_agree {Q : Segment → Prop} {inExpr : Bool} :
    AgreeAt S Q u (segment R inExpr) (segment R' inExpr) := by
  unfold segment
  refine .tokens <| .choice (by simp) (.seq .anyWord <| .pure _) <|
    .either (by simp) (fun _ => .anyWord) (fun _ => .ident) <| .tokens ?_
  exact .choice (by simp) (.seq (.span (.seq (.discard (.symbol? (by decide))) <|
    angleArguments_agree h)) <| .pure _) <| .pure _

theorem moreSegments_agree {Q : List Segment → Prop} {inExpr : Bool} {n m : ℕ} (hnm : n ≤ m) :
    AgreeAt S Q u (moreSegments R inExpr n) (moreSegments R' inExpr m) := by
  induction n generalizing S Q u m with
  | zero => exact AgreeAt.tooDeep
  | succ n ih =>
    obtain ⟨m, rfl⟩ := Nat.exists_eq_add_of_lt hnm
    unfold moreSegments
    exact .tokens <| .choice (by grind -ring -linarith) (.seq (.symbol (by decide)) <|
      .seq (segment_agree h) <| .seq (ih (Nat.le_add_right n m)) <| .pure _) <| .pure _

theorem restOfPath_agree {Q : List Segment → Prop} {inExpr : Bool} :
    AgreeAt S Q u (restOfPath R inExpr) (restOfPath R' inExpr) := by
  unfold restOfPath
  exact .tokens (moreSegments_agree h (Seam.rounds_le _))

theorem unqualifiedPath_agree {Q : Path → Prop} {inExpr : Bool} :
    AgreeAt S Q u (unqualifiedPath R inExpr) (unqualifiedPath R' inExpr) := by
  unfold unqualifiedPath
  exact .seq (.symbol? (by decide)) <| .seq (segment_agree h) <| .seq (restOfPath_agree h) <|
    .pure _

theorem qualifier_agree : AgreeAt S Q u (qualifier R) (qualifier R') := by
  unfold qualifier
  exact .seq (.discard (h.type _ _ _ _)) <| .seq (.keyword? _) <|
    .choice Iff.rfl (.discard (unqualifiedPath_agree h)) <| .pure _

theorem qualifiedSegments_agree {Q : List Segment → Prop} {inExpr : Bool} {n m : ℕ} (hnm : n ≤ m) :
    AgreeAt S Q u (qualifiedSegments R inExpr n) (qualifiedSegments R' inExpr m) := by
  induction n generalizing S Q u m with
  | zero => exact AgreeAt.tooDeep
  | succ n ih =>
    obtain ⟨m, rfl⟩ := Nat.exists_eq_add_of_lt hnm
    unfold qualifiedSegments
    exact .seq (segment_agree h) <| .seq (.symbol? (by decide)) <|
      .choice Iff.rfl (.seq (ih (Nat.le_add_right n m)) <| .pure _) <| .pure _

theorem path_agree {Q : Path → Prop} {inExpr : Bool} :
    AgreeAt S Q u (path R inExpr) (path R' inExpr) := by
  unfold path
  exact .tokens <| .choice (by simp) (.seq (.symbol (by decide)) <|
    .seq (.span (qualifier_agree h)) <| .seq (.symbol (by decide)) <| .seq (.symbol (by decide)) <|
      .tokens <| .seq (qualifiedSegments_agree h (Seam.rounds_le _)) <| .pure _) <|
    unqualifiedPath_agree h

omit h in
theorem macroTail_agree {Q : MacroCall → Prop} {p : Path} :
    AgreeAt S Q u (macroTail p) (macroTail p) := by
  unfold macroTail
  exact .seq (.symbol (by decide)) <| .seq .anyGroup <| .pure _

/-! ## Types -/

omit h in
theorem captureParams_agree [S.Unspent] {n m : ℕ} (hnm : n ≤ m) :
    AgreeAt S Q u (captureParams n) (captureParams m) := by
  induction n generalizing Q u m with
  | zero => exact AgreeAt.tooDeep
  | succ n ih =>
    obtain ⟨m, rfl⟩ := Nat.exists_eq_add_of_lt hnm
    unfold captureParams
    refine .tokens <| .ite (by simp) (fun hc => .after (.skip ?_) <| .tokens ?_) fun _ =>
      .choice (by simp) (.pure _) <| .expect _ _
    · grind -ring -linarith
    · exact .choice (by simp) (.after (.symbol (by decide)) <| ih (Nat.le_add_right n m)) <|
        .choice (by simp) (.pure _) <| .expect _ _

omit h in
theorem capture_agree : AgreeAt S Q u capture capture := by
  unfold capture
  exact .after (.keyword _) <| .after (.symbol (by decide)) <| .tokens <|
    .seq (captureParams_agree (Seam.rounds_le _)) <| .symbol (by decide)

theorem binder?_agree {Q : Bool → Prop} : AgreeAt S Q u (binder? R) (binder? R') := by
  unfold binder?
  exact .tokens <| .choice (by simp) (.seq (h.binder _ _ _) <| .pure _) <| .pure _

theorem traitBound_agree {Q : BoundForm → Prop} {constAllowed : Bool} :
    AgreeAt S Q u (traitBound R constAllowed) (traitBound R' constAllowed) := by
  unfold traitBound
  refine .seq (binder?_agree h) <| .tokens ?_
  simp only [isGroup_right, isKeyword_right]
  refine .choice Iff.rfl (.seq (.within <| .keyword _) <| .choice Iff.rfl (.bindFail _) ?_) <|
    .choice Iff.rfl (.seq (.keyword _) <| .choice Iff.rfl (.bindFail _) ?_) ?_
  -- In each case the same follows: the mark, a late binder and the path.
  all_goals
    refine .seq (.symbol? (by decide)) <|
      .either Iff.rfl (fun _ => binder?_agree h) (fun _ => .pure _) ?_
    refine .seq (unqualifiedPath_agree h) <| .tokens ?_
    refine .choice (by rw [startsParen_right]) (.seq (.discard (.symbol? (by decide))) <|
      .seq (parenArguments_agree h) ?_) ?_
    all_goals exact .choice Iff.rfl (.bindFail _) <| .pure _

theorem boundRule_agree {Q : BoundForm → Prop} {captureAllowed constAllowed : Bool} :
    AgreeAt S Q u (boundRule R captureAllowed constAllowed)
      (boundRule R' captureAllowed constAllowed) := by
  unfold boundRule
  exact .tokens <| .choice (by simp) (.seq (.discard .lifetime) <| .pure _) <|
    .choice (by simp) (.seq capture_agree <| .choice Iff.rfl (.pure _) <| .fail _) <|
    .choice (by simp) (.within <| traitBound_agree h) <| traitBound_agree h

omit h in
@[simp]
theorem startsBound_right [S.Unspent] (constAllowed : Bool) :
    startsBound constAllowed (u ++ S.right) = startsBound constAllowed (u ++ S.left) := by
  unfold startsBound
  simp

theorem boundsIn_agree {Q : List BoundForm → Prop} {plus captureAllowed constAllowed : Bool}
    {n m : ℕ} (hnm : n ≤ m) :
    AgreeAt S Q u (boundsIn R plus captureAllowed constAllowed n)
      (boundsIn R' plus captureAllowed constAllowed m) := by
  induction n generalizing S Q u m with
  | zero => exact AgreeAt.tooDeep
  | succ n ih =>
    obtain ⟨m, rfl⟩ := Nat.exists_eq_add_of_lt hnm
    unfold boundsIn
    exact .seq (h.bound _ _ _ _ _) <| .tokens <| .choice (by simp)
      (.after (.symbol (by decide)) <| .tokens <| .choice (by simp)
        (.seq (ih (Nat.le_add_right n m)) <| .pure _) <| .pure _) <|
      .pure _

theorem bounds_agree {Q : List BoundForm → Prop} {plus captureAllowed constAllowed : Bool} :
    AgreeAt S Q u (bounds R plus captureAllowed constAllowed)
      (bounds R' plus captureAllowed constAllowed) := by
  unfold bounds
  exact .tokens (boundsIn_agree h (Seam.rounds_le _))

theorem objectBounds_agree {Q : List BoundForm → Prop} {plus : Bool} :
    AgreeAt S Q u (objectBounds R plus) (objectBounds R' plus) := by
  unfold objectBounds
  exact .seq (bounds_agree h) <| .choice Iff.rfl (.pure _) <| .fail _

theorem pathType_agree {Q : TypeForm → Prop} {bound plus : Bool} :
    AgreeAt S Q u (pathType R bound plus) (pathType R' bound plus) := by
  unfold pathType
  refine .seq (path_agree h) <| .tokens <| .choice Iff.rfl (.pure _) <|
    .choice (by simp) (.seq (.discard macroTail_agree) <| .pure _) <|
    .choice (by simp) (.after (.symbol (by decide)) <| .tokens ?_) <| .choice Iff.rfl (.pure _) <|
    .pure _
  exact .when (by simp) (fun _ => .discard (bounds_agree h)) <| .pure _

theorem joinedBounds_agree {n m : ℕ} (hnm : n ≤ m) :
    AgreeAt S Q u (joinedBounds R n) (joinedBounds R' m) := by
  induction n generalizing S Q u m with
  | zero => exact AgreeAt.tooDeep
  | succ n ih =>
    obtain ⟨m, rfl⟩ := Nat.exists_eq_add_of_lt hnm
    unfold joinedBounds
    exact .seq (.symbol? (by decide)) <| .choice Iff.rfl
      (.seq (.discard (h.bound _ _ _ _ _)) <| ih (Nat.le_add_right n m)) <| .pure _

theorem parenTypeTail_agree {Q : TypeForm → Prop} {plus : Bool} {first : TypeForm} :
    AgreeAt S Q u (parenTypeTail R plus first) (parenTypeTail R' plus first) := by
  unfold parenTypeTail
  exact .tokens <| .choice (by simp)
    (.seq (joinedBounds_agree h (Seam.rounds_le _)) <| .pure _) <| .pure _

theorem parenContent_agree {Q : ParenContent → Prop} :
    AgreeAt .closed Q u (parenContent R) (parenContent R') := by
  unfold parenContent
  exact .tokens <| .choice (by simp) (.pure _) <|
    .choice (by simp) (.seq (.discard (objectBounds_agree h)) <| .pure _) <|
    .choice (by simp) (.seq (.discard (traitBound_agree h)) <| .pure _) <| .seq (h.type _ _ _ _) <|
    .seq (.symbol? (by decide)) <| .choice Iff.rfl
      (.seq (.discard (.commas <| h.type _ _ _ _)) <| .pure _) <| .pure _

theorem parenType_agree {Q : TypeForm → Prop} {plus : Bool} :
    AgreeAt S Q u (parenType R plus) (parenType R' plus) := by
  unfold parenType
  refine .bind (.within <| parenContent_agree h) fun content v {_} => ?_
  match content with
  | .tuple | .object => exact .pure _
  | .maybe =>
    exact .tokens (.seq (joinedBounds_agree h (Seam.rounds_le _)) <| .pure _)
  | .type first => exact parenTypeTail_agree h

omit h in
theorem callConvention?_agree : AgreeAt S Q u callConvention? callConvention? := by
  unfold callConvention?
  exact .seq (.keyword? _) <| .choice Iff.rfl
    (.tokens (.ite (by simp) (fun hc => .skip (isString_pos hc)) fun _ => .pure _)) <| .pure _

omit h in
theorem variadicParam_agree : AgreeAt .closed Q u variadicParam variadicParam := by
  unfold variadicParam
  exact .tokens <| .choice (by simp) (.seq (.discard .anyWord) <| .seq (.symbol (by decide)) <|
    .seq (.symbol (by decide)) <| .discard (.symbol? (by decide))) <| .seq (.symbol (by decide)) <|
    .discard (.symbol? (by decide))

theorem functionTypeParam_agree {first : Bool} :
    AgreeAt .closed Q u (functionTypeParam R first) (functionTypeParam R' first) := by
  unfold functionTypeParam
  refine AgreeAt.bind (.discard (outerAttributes_agree h)) fun _ v => AgreeAt.tokens ?_
  refine .when (by grind -ring -linarith) (fun _ => .keyword _) <| .tokens ?_
  refine .choice (by grind -ring -linarith) (.seq (.discard .anyWord) <|
    .seq (.symbol (by decide)) <| .tokens ?_) <| .tokens ?_
  all_goals
    refine .ite (by grind -ring -linarith) (fun hc => .skip (by grind -ring -linarith)) fun _ =>
      .choice (by grind -ring -linarith) (.keyword _) <| .discard (h.type _ _ _ _)

theorem functionTypeParams_agree {first : Bool} {n m : ℕ} (hnm : n ≤ m) :
    AgreeAt .closed Q u (functionTypeParams R n first) (functionTypeParams R' m first) := by
  induction n generalizing Q u m first with
  | zero => exact AgreeAt.tooDeep
  | succ n ih =>
    obtain ⟨m, rfl⟩ := Nat.exists_eq_add_of_lt hnm
    unfold functionTypeParams
    refine .tokens <| .choice (by simp) (.pure _) <| .seq (.discard (outerAttributes_agree h)) <|
      .tokens ?_
    refine .choice (by grind -ring -linarith) variadicParam_agree <|
      .seq (functionTypeParam_agree h) <| .tokens ?_
    exact .choice (by simp) (.pure _) <| .seq (.symbol (by decide)) <| ih (Nat.le_add_right n m)

theorem functionType_agree {Q : TypeForm → Prop} :
    AgreeAt S Q u (functionType R) (functionType R') := by
  unfold functionType
  refine .seq (.discard (binder?_agree h)) <| .seq (.discard (.keyword? _)) <|
    .seq callConvention?_agree <| .seq (.keyword _) ?_
  exact .seq (.within <| .tokens (functionTypeParams_agree h (Seam.rounds_le _))) <|
    .seq (returnType_agree h) <| .pure _

theorem pointerType_agree {Q : TypeForm → Prop} :
    AgreeAt S Q u (pointerType R) (pointerType R') := by
  unfold pointerType
  exact .seq (.symbol (by decide)) <| .tokens <|
    .either (by simp) (fun hc => .skip (isKeywordOf_pos hc)) (fun _ => .expect _ _) <|
      .seq (.discard (h.type _ _ _ _)) <| .pure _

theorem referenceType_agree {Q : TypeForm → Prop} :
    AgreeAt S Q u (referenceType R) (referenceType R') := by
  unfold referenceType
  exact .seq (.symbol (by decide)) <| .seq (.discard .lifetime?) <| .seq (.discard (.keyword? _)) <|
    .seq (.discard (h.type _ _ _ _)) <| .pure _

theorem bracketType_agree {Q : TypeForm → Prop} :
    AgreeAt S Q u (bracketType R) (bracketType R') := by
  unfold bracketType
  exact .seq (.within <| .seq (.discard (h.type _ _ _ _)) <| .seq (.symbol?_closed _) <|
    .choice Iff.rfl (.discard (h.expr _ _ _ _)) <| .pure _) <| .pure _

theorem typeRule_agree {Q : TypeForm → Prop} {plus : Bool} :
    AgreeAt S Q u (typeRule R plus) (typeRule R' plus) := by
  unfold typeRule
  refine .bind (binder?_agree h) fun bound v => .start (by cases bound <;> nofun) (.tokens ?_)
  exact .choice (by simp) (.expect _ _) <| .choice (by simp) (parenType_agree h) <|
    .choice (by simp) (functionType_agree h) <| .choice (by simp) (pathType_agree h) <|
    .choice (by simp) (.seq (.keyword _) <| .seq (.discard (.symbol? (by decide))) <|
      .seq (.discard (objectBounds_agree h)) <| .pure _) <|
    .choice (by simp) (bracketType_agree h) <| .choice (by simp) (pointerType_agree h) <|
    .choice (by simp) (referenceType_agree h) <|
    .choice (by simp) (.seq (.symbol (by decide)) <| .pure _) <|
    .choice (by simp) (.seq (.keyword _) <| .seq (bounds_agree h) <| .choice Iff.rfl (.pure _) <|
      .fail _) <|
    .ite (by simp) (fun hc => .seq (.skip (isKeyword_pos hc)) <| .pure _) fun _ =>
    .choice (by simp) (.seq (objectBounds_agree h) <| .pure _) <| .expect _ _

/-! ## Generic parameters -/

omit h in
theorem lifetimeBounds_agree [S.Unspent] {stop : List Token → Bool}
    (h : ∀ v {b : Bool} [(S.cut b).Unspent],
      stop (v ++ (S.cut b).right) = stop (v ++ (S.cut b).left) ∨
        S.IsEnded ∧ v = [] ∧ stop [] = true ∧ (∀ _ : List String, Q ()) ∧
          stop (v ++ (S.cut b).right) = false) :
    AgreeAt S Q u (lifetimeBounds stop) (lifetimeBounds stop) := by
  unfold lifetimeBounds
  refine .bindPure (.linked (by decide) (fun v {b} _ => ?_) fun _ => .lifetime) fun _ => id
  rcases h v (b := b) with heq | ⟨hS, hv, hnil, hQ, hright⟩
  · exact .inl heq
  · exact .inr ⟨hS, hv, hnil, hQ, hright, fun _ _ _ => ⟨_, rfl, nofun⟩⟩

/-- The bounds of a lifetime may end with the tokens. -/
theorem lifetimeParam_agree (hQ : S.IsEnded → Q ()) :
    AgreeAt S Q u (lifetimeParam R) (lifetimeParam R') := by
  unfold lifetimeParam
  refine .seq (.discard (outerAttributes_agree h)) <| .seq (.discard .lifetime) <|
    .symbolThen (by decide) (lifetimeBounds_agree fun v {_} _ => ?_) <| .pure _
  by_cases hended : S.IsEnded ∧ v = []
  · obtain ⟨hS, rfl⟩ := hended
    refine .inr ⟨by simpa using hS, rfl, rfl, fun _ => hQ hS, ?_⟩
    cases S with
    | ended => rfl
    | _ => exact hS.elim
  · refine .inl ?_
    rw [isEmpty_right fun hS hv => hended ⟨by simpa using hS, hv⟩, isSymbol_right (by decide),
      isSymbol_right (by decide)]

theorem typeParam_agree : AgreeAt S Q u (typeParam R) (typeParam R') := by
  unfold typeParam
  refine .seq (.discard (outerAttributes_agree h)) <| .seq (.discard .ident) <|
    .symbolThen (by decide) (.seq (.discard (.linked (by decide) (fun _ => .inl (by simp))
      fun _ => h.bound _ _ _ _ _)) ?_) ?_
  all_goals
    exact .symbolThen (by decide) (.discard (h.type _ _ _ _)) <| .pure _

theorem constParam_agree : AgreeAt S Q u (constParam R) (constParam R') := by
  unfold constParam
  exact .seq (.discard (outerAttributes_agree h)) <| .seq (.keyword _) <| .seq (.discard .ident) <|
    .seq (.symbol (by decide)) <| .seq (.discard (h.type _ _ _ _)) <| .seq (.symbol? (by decide)) <|
        .choice Iff.rfl (constValue_agree h) <| .pure _

theorem binderParam_agree (hQ : S.IsEnded → Q ()) :
    AgreeAt S Q u (binderParam R) (binderParam R') := by
  unfold binderParam
  exact .seq (.discard (outerAttributes_agree h)) <| .start nofun <| .tokens <|
    .choice (by simp) (typeParam_agree h) <|
    .choice (by simp) (lifetimeParam_agree h fun hS => hQ ((Seam.isEnded_cut _).1 hS)) <|
    .choice (by simp) (constParam_agree h) <| .expect _ _

theorem binderRule_agree : AgreeAt S Q u (binderRule R) (binderRule R') := by
  unfold binderRule
  exact .seq (.keyword _) <| .seq (.symbol (by decide)) <|
    .seq (.discard (.separated (fun _ => .inl (isSymbol_right (by decide)))
      (fun _ => ⟨rfl, nofun⟩) (fun _ => .symbol (by decide)) fun _ =>
        binderParam_agree h fun hS => (Seam.isEnded_cut _).1 hS)) <| .symbol (by decide)

theorem genericParam_agree (hQ : S.IsEnded → Q ()) :
    AgreeAt S Q u (genericParam R) (genericParam R') := by
  unfold genericParam
  exact .seq (.discard (outerAttributes_agree h)) <| .start nofun <| .tokens <|
    .choice (by simp) (lifetimeParam_agree h fun hS => hQ ((Seam.isEnded_cut _).1 hS)) <|
    .choice (by simp) (typeParam_agree h) <| .choice (by simp) (constParam_agree h) <|
    .ite (by simp) (fun hc => .skip (isKeyword_pos hc)) fun _ => .expect _ _

theorem generics_agree : AgreeAt S Q u (generics R) (generics R') := by
  unfold generics
  exact .seq (.symbol? (by decide)) <| .choice Iff.rfl
    (.seq (.discard (.separated (fun _ => .inl (isSymbol_right (by decide)))
      (fun _ => ⟨rfl, nofun⟩) (fun _ => .symbol (by decide)) fun _ =>
        genericParam_agree h fun hS => (Seam.isEnded_cut _).1 hS)) <| .symbol (by decide)) <|
    .pure _

omit h in
@[simp]
theorem startsGenerics_right [S.Unspent] :
    startsGenerics (u ++ S.right) = startsGenerics (u ++ S.left) := by
  unfold startsGenerics
  grind -ring -linarith

omit h in
/-- Conditions end with the tokens, at a block, a comma or a semicolon. -/
theorem endsCondition_right [S.Unspent] :
    ((u ++ S.right).isEmpty || isGroup .brace (u ++ S.right) ||
      isSymbol .comma (u ++ S.right) || isSymbol .semi (u ++ S.right)) =
    ((u ++ S.left).isEmpty || isGroup .brace (u ++ S.left) ||
      isSymbol .comma (u ++ S.left) || isSymbol .semi (u ++ S.left)) := by
  have h := isEmpty_or_isSymbol_semi_right (S := S) (u := u)
    (isGroup .brace (u ++ S.left) || isSymbol .comma (u ++ S.left))
  simpa [Bool.or_assoc] using h

omit h in
@[simp]
theorem wherePredicate.endsClause_right [S.Unspent] :
    wherePredicate.endsClause (u ++ S.right) = wherePredicate.endsClause (u ++ S.left) := by
  rw [wherePredicate.endsClause, endsCondition_right, isLoneColon_right, isSymbol_right (by decide),
    wherePredicate.endsClause]

omit h in
theorem wherePredicate_agree {Q : Unit → Prop} (h : R.Agree R') :
    AgreeAt S Q u (wherePredicate R) (wherePredicate R') := by
  unfold wherePredicate
  exact .tokens <| .choice (by grind -ring -linarith) (.seq (.discard .lifetime) <|
    .after (.symbol (by decide)) <| lifetimeBounds_agree fun _ => .inl (by
      rw [endsCondition_right, isSymbol_right (by decide), isSymbol_right (by decide)])) <|
    .seq (.discard (binder?_agree h)) <| .seq (.discard (h.type _ _ _ _)) <|
      .after (.symbol (by decide)) <| .discard (.linked (by decide)
        (fun _ => .inl wherePredicate.endsClause_right) fun _ => h.bound _ _ _ _ _)

omit h in
theorem whereClause?_agree {Q : Unit → Prop} (h : R.Agree R') :
    AgreeAt S Q u (whereClause? R) (whereClause? R') := by
  unfold whereClause?
  refine .keywordThen (.tokens ?_) <| .pure _
  exact .choice (by simp) (.bindFailHere _) <| .discard (.linked (by decide)
    (fun _ => .inl wherePredicate.endsClause_right) fun _ => wherePredicate_agree h)

end Grammar

end ProcessCompiler
