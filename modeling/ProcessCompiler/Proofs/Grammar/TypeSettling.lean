import ProcessCompiler.Proofs.Grammar.PatternAgreement
import ProcessCompiler.Proofs.Grammar.Settling
import ProcessCompiler.Grammar.Generics
/-!
# Types and patterns come to an answer

Attributes, paths, bounds, types, generic parameters and patterns, read over
rules that come to an answer, come to one.
-/

namespace ProcessCompiler

namespace Grammar

open Parse

variable {R : Rules} {n c : ℕ} {b w : Bool} {ts : List Token}

/-! ## Attributes -/

theorem skip_plainSegment {name : String} (h : plainSegment? ts = some name) :
    Settles n c b w ts (skip 1) := by
  rcases ts with _ | ⟨(_ | _ | _ | _ | _) | _, v⟩
  case cons.leaf.keyword => exact .skip_one nofun
  case cons.leaf.ident => exact .skip_one nofun
  all_goals cases h

theorem plainSegments_settles {k : ℕ} (hk : ts.length < k) :
    Settles n c false w ts (plainSegments k) := by
  induction k generalizing ts c with
  | zero => exact absurd hk (Nat.not_lt_zero _)
  | succ k ih =>
    unfold plainSegments
    refine .symbolRounds (by decide) (fun v hv => .tokens ?_) (.pure _)
    cases hname : plainSegment? v with
    | none => exact .expect _
    | some name =>
      exact .rounds (skip_plainSegment hname) fun _ v' hv' => .bindPure (ih (by omega))

theorem plainPath_settles : Settles n c b w ts plainPath := by
  unfold plainPath
  refine .bind (.symbol? (by decide)) fun rooted v => .tokens ?_
  cases hname : plainSegment? v with
  | none => exact .bindPure .ident
  | some name =>
    exact .after (skip_plainSegment hname) <|
      .tokens (.bindPure (plainSegments_settles (Nat.lt_succ_self _)))

variable (h : R.Settle n)
include h

theorem attributeValue_settles (hc : 3 ≤ c) : Settles n c b w ts (attributeValue R) := by
  unfold attributeValue
  exact .after (.symbol (by decide)) <| .tokens <| .choice (.failHere nofun) <|
    .discard (h.expr (by omega))

theorem attributeBody_settles (hc : 3 ≤ c) : Settles n c false false ts (attributeBody R) := by
  unfold attributeBody
  refine .tokens (.either .skip_keyword (fun _ => .discard plainPath_settles) <| .tokens ?_)
  exact .ite .skip_anyGroup fun _ => .choice (attributeValue_settles h hc) <| .pure _

/-- Nothing, or tokens that end with brackets. -/
def Whole (u : List Token) : Prop := u = [] ∨ ∃ v d inner, u = v ++ [.group d inner]

omit h in
/-- What follows whole attributes decides how both end. -/
theorem Whole.append {u v : List Token} (hu : Whole u) (hv : Part true w v) :
    Part b w (u ++ v) := by
  refine ⟨fun _ hnil => hv.1 rfl (List.append_eq_nil_iff.1 hnil).2, fun hw => ?_⟩
  rcases hu with rfl | ⟨u, d, inner, rfl⟩
  · exact hv.2 hw
  · rw [List.append_assoc]
    exact .group_append d inner (hv.2 hw) (hv.1 rfl)

omit h in
theorem symbol_settlesBy {P : List Token → Prop} {y : Symbol} (hP : ∀ u, u ≠ [] → P u) :
    SettlesBy n c P ts (symbol y) := by
  show SettlesBy n c P ts (if isSymbol y ts then skip y.chars.length else fail (.expected [.symbol y]))
  split
  · refine .skip (hP _ fun hnil => ?_)
    rcases List.take_eq_nil_iff.1 hnil with hzero | hts
    · exact y.chars_ne_nil (List.eq_nil_of_length_eq_zero hzero)
    · exact ne_nil_of_isSymbol ‹_› hts
  · exact fun _ _ => .error nofun

theorem outerAttributes_settles : SettlesBy n c Whole ts (outerAttributes R) := by
  unfold outerAttributes
  refine .span (.repeatIn (Q := fun u => ∃ v d inner, u = v ++ [.group d inner]) ?_ (.inl rfl)
    ?_ (fun v _ => ?_) (Nat.lt_succ_self _))
  · rintro u ⟨v, d, inner, rfl⟩
    simp
  · rintro u v ⟨u, d, inner, rfl⟩ (rfl | ⟨v, d', inner', rfl⟩)
    · exact .inr ⟨u, d, inner, List.append_nil _⟩
    · exact .inr ⟨u ++ [.group d inner] ++ v, d', inner', (List.append_assoc ..).symm⟩
  · refine .bind (symbol_settlesBy (P := fun _ => True) fun _ _ => trivial) (fun _ u v' _ _ => ?_)
      (Q := fun u => ∃ d inner, u = [.group d inner]) ?_
    · exact .within (fun d inner => ⟨d, inner, rfl⟩) fun v =>
        (attributeBody_settles h (by omega)).mono fun _ _ => trivial
    · rintro u _ - ⟨d, inner, rfl⟩
      exact ⟨u, d, inner, rfl⟩

/-- A phrase behind its attributes. -/
theorem attributesThen {α : Type} {f : List Token → Parse α}
    (hf : ∀ attributes v, v.length ≤ ts.length → Settles n c true w v (f attributes)) :
    Settles n c b w ts (outerAttributes R >>= f) := by
  refine (outerAttributes_settles h).bind (fun a u v heq _ => ?_) fun _ _ => Whole.append
  exact (hf a v (by simp [heq])).deepen (Nat.le_add_right c _)

theorem discardAttributesThen {α : Type} {f : PUnit → Parse α}
    (hf : ∀ v, v.length ≤ ts.length → Settles n c true w v (f ⟨⟩)) :
    Settles n c b w ts (discard (outerAttributes R) >>= f) := by
  refine ((outerAttributes_settles h).map _).bind (fun a u v heq _ => ?_) fun _ _ => Whole.append
  exact (hf v (by simp [heq])).deepen (Nat.le_add_right c _)

theorem innerAttributes_settles : Settles n c false false ts (innerAttributes R) := by
  unfold innerAttributes
  refine .discard (.repeatWhile fun v _ => ?_)
  refine .seq (symbol_settlesBy fun u hu => ⟨nofun, nofun⟩) <| .after (.symbol (by decide)) <|
    .within <| attributeBody_settles h (by omega)

theorem bracedBody_settles : Settles n c b w ts (bracedBody R) := by
  unfold bracedBody
  exact .within <| .seq (innerAttributes_settles h) <| h.stmts (by omega)

theorem plainBody_settles : Settles n c b w ts (plainBody R) := by
  unfold plainBody
  exact .within <| h.stmts (by omega)

/-! ## Paths -/

theorem constValue_settles : Settles n c b w ts (constValue R) := by
  unfold constValue
  exact .tokens <| .ite .literal fun _ => .ite .skip_ident fun _ =>
    .choice (.discard (bracedBody_settles h)) <| .choice (.fail nofun) <| .fail nofun

theorem constraintBounds_settles (hc : 2 ≤ c) : Settles n c false w ts (constraintBounds R) := by
  unfold constraintBounds
  exact .discard (.linked (by decide) fun _ => h.bound hc)

theorem genericArgument_settles (hc : 3 ≤ c) : Settles n c b w ts (genericArgument R) := by
  unfold genericArgument
  refine .tokens <| .choice (.discard .lifetime) <| .choice (constValue_settles h) <|
    .after (h.type hc) fun {form v} => ?_
  match form with
  | .path true =>
    refine .symbolThen (by decide) ?_ (.symbolThen (by decide)
      (constraintBounds_settles h (by omega)) (.pure _))
    exact .tokens (.choice (constValue_settles h) <| .discard (h.type (by omega)))
  | .path false | .bounds _ | .other => exact .pure _

theorem angleArguments_settles (hc : 1 ≤ c) : Settles n c b w ts (angleArguments R) := by
  unfold angleArguments
  exact .after (.symbol (by decide)) <| .seq (.discard (.separated
    (fun _ => .symbol (by decide)) fun _ => genericArgument_settles h (by omega))) <|
    .symbol (by decide)

theorem returnType_settles {plus : Bool} (hc : 1 ≤ c) :
    Settles n c false w ts (returnType R plus) := by
  unfold returnType
  exact .symbolThen (by decide) (.discard (h.type (by omega))) (.pure _)

theorem parenArguments_settles (hc : 1 ≤ c) : Settles n c b w ts (parenArguments R) := by
  unfold parenArguments
  exact .after (.discard (.within <| .commas <| h.type (by omega))) <|
    returnType_settles h (by omega)

theorem segment_settles {inExpr : Bool} : Settles n c b w ts (segment R inExpr) := by
  unfold segment
  refine .tokens (.choice (.bindPure .anyWord) ?_)
  refine .afterEither (fun _ => .anyWord) (fun _ => .ident) <| .tokens ?_
  refine .choice (.bindPure (.span ?_)) <| .pure _
  exact .seq (.discard (.symbol? (by decide))) <| angleArguments_settles h (by omega)

theorem moreSegments_settles {inExpr : Bool} {k : ℕ} (hk : ts.length < k) :
    Settles n c false w ts (moreSegments R inExpr k) := by
  induction k generalizing ts c with
  | zero => exact absurd hk (Nat.not_lt_zero _)
  | succ k ih =>
    unfold moreSegments
    refine .tokens (.choice ?_ <| .pure _)
    exact .rounds (.symbol (by decide)) fun _ v hv => .shorter (segment_settles h) fun _ v' hv' =>
      .bindPure (ih (by omega))

theorem restOfPath_settles {inExpr : Bool} : Settles n c false w ts (restOfPath R inExpr) :=
  .tokens (moreSegments_settles h (Nat.lt_succ_self _))

theorem unqualifiedPath_settles {inExpr : Bool} :
    Settles n c b w ts (unqualifiedPath R inExpr) := by
  unfold unqualifiedPath
  exact .seq (.symbol? (by decide)) <| .after (segment_settles h) <|
    .bindPure (restOfPath_settles h)

theorem qualifier_settles (hc : 3 ≤ c) : Settles n c b w ts (qualifier R) := by
  unfold qualifier
  exact .after (.discard (h.type hc)) <| .keywordThen
    (.discard (unqualifiedPath_settles h)) (.pure _)

theorem qualifiedSegments_settles {inExpr : Bool} {k : ℕ} (hk : ts.length < k) :
    Settles n c b w ts (qualifiedSegments R inExpr k) := by
  induction k generalizing ts c b with
  | zero => exact absurd hk (Nat.not_lt_zero _)
  | succ k ih =>
    unfold qualifiedSegments
    refine .rounds (segment_settles h) fun _ v hv => ?_
    exact .symbolRounds (by decide) (fun _ _ => .bindPure (ih (by omega))) (.pure _)

theorem path_settles {inExpr : Bool} (hc : 1 ≤ c) : Settles n c b w ts (path R inExpr) := by
  unfold path
  refine .tokens (.choice ?_ <| unqualifiedPath_settles h)
  exact .after (.symbol (by decide)) <| .seq (.span (qualifier_settles h (by omega))) <|
    .seq (.symbol (by decide)) <| .seq (.symbol (by decide)) <|
      .tokens (.bindPure (qualifiedSegments_settles h (Nat.lt_succ_self _)))

omit h in
theorem macroTail_settles (p : Path) : Settles n c b w ts (macroTail p) := by
  unfold macroTail
  exact .after (.symbol (by decide)) <| .bindPure .anyGroup

/-! ## Bounds -/

omit h in
theorem captureParams_settles {k : ℕ} (hk : ts.length < k) :
    Settles n c false w ts (captureParams k) := by
  induction k generalizing ts c with
  | zero => exact absurd hk (Nat.not_lt_zero _)
  | succ k ih =>
    unfold captureParams
    refine .tokens (.ite (fun hword => ?_) fun _ => .choice (.pure _) <| .expect _)
    have hskip : Settles n c true w ts (skip 1) := by
      rcases ts with _ | ⟨(_ | _ | _ | _ | _) | _, v⟩
      case cons.leaf.punct => cases hword
      case nil => cases hword
      all_goals exact .skip_one (by simp)
    refine .rounds hskip fun _ v hv => .tokens (.choice ?_ <| .choice (.pure _) <| .expect _)
    exact .rounds (.symbol (by decide)) fun _ v' hv' => ih (by omega)

omit h in
theorem capture_settles : Settles n c b w ts capture := by
  unfold capture
  exact .after (.keyword _) <| .seq (.symbol (by decide)) <| .tokens <|
    .seq (captureParams_settles (Nat.lt_succ_self _)) <| .symbol (by decide)

theorem binder?_settles (hc : 1 ≤ c) : Settles n c false w ts (binder? R) := by
  unfold binder?
  exact .tokens (.choice (.bindPure (h.binder hc)) <| .pure _)

theorem traitBound_settles {constAllowed : Bool} (hc : 1 ≤ c) :
    Settles n c b w ts (traitBound R constAllowed) := by
  unfold traitBound
  refine .seq (binder?_settles h hc) <| .tokens ?_
  refine .choice (.seq (.within <| .keyword _) <| .choice (.bindFail nofun) ?_) <|
    .choice (.seq (.keyword _) <| .choice (.bindFail nofun) ?_) ?_
  -- In each case the same follows: the mark, a late binder and the path.
  all_goals
    refine .seq (.symbol? (by decide)) <|
      .either (fun _ => binder?_settles h hc) (fun _ => .pure _) ?_
    refine .after (unqualifiedPath_settles h) <| .tokens ?_
    refine .choice (.seq (.discard (.symbol? (by decide))) <|
      .seq (parenArguments_settles h (by omega)) ?_) ?_
    all_goals exact .choice (.bindFail nofun) <| .pure _

theorem boundRule_settles {captureAllowed constAllowed : Bool} (hc : 1 ≤ c) :
    Settles n c b w ts (boundRule R captureAllowed constAllowed) := by
  unfold boundRule
  exact .tokens <| .choice (.bindPure (.discard .lifetime)) <|
    .choice (.after capture_settles <| .choice (.pure _) <| .fail nofun) <|
      .choice (.within <| traitBound_settles h (by omega)) <| traitBound_settles h hc

theorem boundsIn_settles {plus captureAllowed constAllowed : Bool} (hc : 2 ≤ c) {k : ℕ}
    (hk : ts.length < k) :
    Settles n c b w ts (boundsIn R plus captureAllowed constAllowed k) := by
  induction k generalizing ts c b with
  | zero => exact absurd hk (Nat.not_lt_zero _)
  | succ k ih =>
    unfold boundsIn
    refine .rounds (h.bound hc) fun _ v hv => .tokens (.choice ?_ <| .pure _)
    refine .rounds (.symbol (by decide)) fun _ v' hv' => .tokens (.choice ?_ <| .pure _)
    exact .bindPure (ih (by omega) (by omega))

theorem bounds_settles {plus captureAllowed constAllowed : Bool} (hc : 2 ≤ c) :
    Settles n c b w ts (bounds R plus captureAllowed constAllowed) :=
  .tokens (boundsIn_settles h hc (Nat.lt_succ_self _))

theorem objectBounds_settles {plus : Bool} (hc : 2 ≤ c) :
    Settles n c b w ts (objectBounds R plus) := by
  unfold objectBounds
  exact .after (bounds_settles h hc) <| .choice (.pure _) <| .fail nofun

/-! ## Types -/

theorem pathType_settles {bound plus : Bool} (hc : 1 ≤ c) :
    Settles n c b w ts (pathType R bound plus) := by
  unfold pathType
  refine .after (path_settles h hc) fun {p v} => .tokens <| .choice (.pure _) <|
    .choice (.bindPure (.discard (macroTail_settles p))) <| .choice ?_ <| .choice (.pure _) <|
    .pure _
  exact .seq (.symbol (by decide)) <| .tokens <|
    .when (fun _ => .discard (bounds_settles h (by omega))) <| .pure _

theorem joinedBounds_settles {k : ℕ} (hk : ts.length < k) :
    Settles n c false w ts (joinedBounds R k) := by
  induction k generalizing ts c with
  | zero => exact absurd hk (Nat.not_lt_zero _)
  | succ k ih =>
    unfold joinedBounds
    refine .symbolRounds (by decide) (fun v hv => ?_) (.pure _)
    exact .shorter (.discard (h.bound (by omega))) fun _ v' hv' => ih (by omega)

theorem parenTypeTail_settles {plus : Bool} {first : TypeForm} :
    Settles n c false w ts (parenTypeTail R plus first) := by
  unfold parenTypeTail
  exact .tokens <| .choice (.bindPure (joinedBounds_settles h (Nat.lt_succ_self _))) <| .pure _

theorem parenContent_settles (hc : 3 ≤ c) : Settles n c false w ts (parenContent R) := by
  unfold parenContent
  refine .tokens <| .choice (.pure _) <|
    .choice (.bindPure (.discard (objectBounds_settles h (by omega)))) <|
    .choice (.bindPure (.discard (traitBound_settles h (by omega)))) <| .seq (h.type hc) ?_
  exact .symbolThen (by decide)
    (.bindPure (.discard (.commas <| h.type (by omega)))) (.pure _)

theorem parenType_settles {plus : Bool} : Settles n c b w ts (parenType R plus) := by
  unfold parenType
  refine .after (.within <| parenContent_settles h (by omega)) fun {content v} => ?_
  match content with
  | .tuple | .object => exact .pure _
  | .maybe => exact .tokens (.bindPure (joinedBounds_settles h (Nat.lt_succ_self _)))
  | .type first => exact parenTypeTail_settles h

omit h in
theorem callConvention?_settles : Settles n c false w ts callConvention? := by
  unfold callConvention?
  exact .keywordThen (.tokens (.ite .skip_string fun _ => .pure _)) (.pure _)

omit h in
theorem variadicParam_settles : Settles n c b w ts variadicParam := by
  unfold variadicParam
  exact .tokens <| .choice (.after (.discard .anyWord) <| .seq (.symbol (by decide)) <|
    .seq (.symbol (by decide)) <| .discard (.symbol? (by decide))) <|
    .after (.symbol (by decide)) <| .discard (.symbol? (by decide))

theorem functionTypeParam_settles {first : Bool} (hc : 3 ≤ c) :
    Settles n c b w ts (functionTypeParam R first) := by
  unfold functionTypeParam
  refine discardAttributesThen h fun v _ => .tokens ?_
  refine .when (fun _ => .keyword _) <| .tokens ?_
  refine .choice (.seq (.discard .anyWord) <| .seq (.symbol (by decide)) <|
    .tokens ?_) <| .tokens ?_
  all_goals
    refine .ite (fun hself => ?_) fun _ => .choice (.keyword _) <| .discard (h.type hc)
    simp only [Bool.and_eq_true] at hself
    exact .skip_keywords hself.1.2 hself.2

theorem functionTypeParams_settles {first : Bool} (hc : 3 ≤ c) {k : ℕ} (hk : ts.length < k) :
    Settles n c false w ts (functionTypeParams R k first) := by
  induction k generalizing ts c first with
  | zero => exact absurd hk (Nat.not_lt_zero _)
  | succ k ih =>
    unfold functionTypeParams
    refine .tokens (.choice (.pure _) <| discardAttributesThen h fun v hv => .tokens ?_)
    refine .choice variadicParam_settles <| .rounds (functionTypeParam_settles h hc) fun _ v' hv' =>
      .tokens ?_
    refine .choice (.pure _) <| .shorter (.symbol (by decide)) fun _ v'' hv'' => ?_
    exact ih (by omega) (by omega)

theorem functionType_settles (hc : 1 ≤ c) : Settles n c b w ts (functionType R) := by
  unfold functionType
  exact .seq (.discard (binder?_settles h hc)) <| .seq (.discard (.keyword? _)) <|
    .seq callConvention?_settles <| .after (.keyword _) <|
    .seq (.within <| .tokens (functionTypeParams_settles h (by omega) (Nat.lt_succ_self _))) <|
      .bindPure (returnType_settles h (by omega))

theorem pointerType_settles (hc : 1 ≤ c) : Settles n c b w ts (pointerType R) := by
  unfold pointerType
  exact .after (.symbol (by decide)) <| .tokens <| .ite
    (fun hk => .seq (.skip_keywordOf hk) <| .bindPure (.discard (h.type (by omega))))
    fun _ => .bindExpect _

theorem referenceType_settles (hc : 1 ≤ c) : Settles n c b w ts (referenceType R) := by
  unfold referenceType
  exact .after (.symbol (by decide)) <| .seq (.discard .lifetime?) <|
    .seq (.discard (.keyword? _)) <| .bindPure (.discard (h.type (by omega)))

theorem bracketType_settles : Settles n c b w ts (bracketType R) := by
  unfold bracketType
  exact .bindPure (.within <| .seq (.discard (h.type (by omega))) <|
    .symbolThen (by decide) (.discard (h.expr (by omega))) (.pure _))

theorem typeRule_settles {plus : Bool} (hc : 2 ≤ c) : Settles n c b w ts (typeRule R plus) := by
  unfold typeRule
  refine .seq (binder?_settles h (by omega)) <| .tokens ?_
  exact .choice (.expect _) <| .choice (parenType_settles h) <|
    .choice (functionType_settles h (by omega)) <| .choice (pathType_settles h (by omega)) <|
    .choice (.after (.keyword _) <| .seq (.discard (.symbol? (by decide))) <|
      .bindPure (.discard (objectBounds_settles h (by omega)))) <|
    .choice (bracketType_settles h) <| .choice (pointerType_settles h (by omega)) <|
    .choice (referenceType_settles h (by omega)) <| .choice (.bindPure (.symbol (by decide))) <|
    .choice (.after (.keyword _) <| .seq (bounds_settles h (by omega)) <| .choice (.pure _) <|
      .fail nofun) <|
    .ite (fun hk => .bindPure (.skip_keyword hk)) fun _ =>
    .choice (.bindPure (objectBounds_settles h hc)) <| .expect _

/-! ## Generic parameters -/

omit h in
theorem lifetimeBounds_settles {stop : List Token → Bool} :
    Settles n c false w ts (lifetimeBounds stop) := by
  unfold lifetimeBounds
  exact .discard (.linked (by decide) fun _ => .lifetime)

theorem lifetimeParam_settles : Settles n c b w ts (lifetimeParam R) := by
  unfold lifetimeParam
  exact discardAttributesThen h fun _ _ => .after (.discard .lifetime) <|
    .symbolThen (by decide) lifetimeBounds_settles (.pure _)

theorem typeParam_settles (hc : 1 ≤ c) : Settles n c b w ts (typeParam R) := by
  have hvalue : ∀ {c} v, 1 ≤ c → Settles n c false w v (do
      if ← symbol? .eq then discard (R.type true)) := fun v hc =>
    .symbolThen (by decide) (.discard (h.type (by omega))) (.pure _)
  unfold typeParam
  refine discardAttributesThen h fun _ _ => .after (.discard .ident) fun {_ v} => ?_
  exact .symbolThen (by decide) (.bind (.discard (.linked (by decide) fun _ =>
    h.bound (by omega))) fun _ v => hvalue v (by omega)) (hvalue v (by omega))

theorem constParam_settles (hc : 1 ≤ c) : Settles n c b w ts (constParam R) := by
  unfold constParam
  exact discardAttributesThen h fun _ _ => .after (.keyword _) <| .seq (.discard .ident) <|
    .seq (.symbol (by decide)) <| .seq (.discard (h.type (by omega))) <|
    .symbolThen (by decide) (constValue_settles h) (.pure _)

theorem binderParam_settles (hc : 1 ≤ c) : Settles n c b w ts (binderParam R) := by
  unfold binderParam
  exact discardAttributesThen h fun _ _ => .tokens <| .choice (typeParam_settles h hc) <|
    .choice (lifetimeParam_settles h) <| .choice (constParam_settles h hc) <| .expect _

theorem binderRule_settles : Settles n c b w ts (binderRule R) := by
  unfold binderRule
  exact .after (.keyword _) <| .seq (.symbol (by decide)) <|
    .seq (.discard (.separated (fun _ => .symbol (by decide)) fun _ =>
      binderParam_settles h (by omega))) <| .symbol (by decide)

theorem genericParam_settles (hc : 1 ≤ c) : Settles n c b w ts (genericParam R) := by
  unfold genericParam
  exact discardAttributesThen h fun _ _ => .tokens <| .choice (lifetimeParam_settles h) <|
    .choice (typeParam_settles h hc) <| .choice (constParam_settles h hc) <|
    .ite .skip_keyword fun _ => .expect _

theorem generics_settles : Settles n c false w ts (generics R) := by
  unfold generics
  exact .symbolThen (by decide) (.seq (.discard (.separated
    (fun _ => .symbol (by decide)) fun _ => genericParam_settles h (by omega))) <|
      .symbol (by decide)) (.pure _)

omit h in
theorem wherePredicate_settles (h : R.Settle n) (hc : 3 ≤ c) :
    Settles n c b w ts (wherePredicate R) := by
  unfold wherePredicate
  exact .tokens <| .choice (.after (.discard .lifetime) <| .seq (.symbol (by decide)) <|
      lifetimeBounds_settles) <|
    .seq (.discard (binder?_settles h (by omega))) <| .after (.discard (h.type hc)) <|
      .seq (.symbol (by decide)) <| .discard (.linked (by decide) fun _ => h.bound (by omega))

omit h in
theorem whereClause?_settles (h : R.Settle n) (hc : 1 ≤ c) :
    Settles n c false w ts (whereClause? R) := by
  unfold whereClause?
  refine .keywordThen (.tokens (.choice (.bindFailHere nofun) ?_)) (.pure _)
  exact .discard (.linked (by decide) fun _ => wherePredicate_settles h (by omega))

/-! ## Patterns -/

theorem moreAlternatives_settles {k : ℕ} (hk : ts.length < k) :
    Settles n c false w ts (moreAlternatives R k) := by
  induction k generalizing ts c with
  | zero => exact absurd hk (Nat.not_lt_zero _)
  | succ k ih =>
    unfold moreAlternatives
    refine .tokens (.choice ?_ <| .pure _)
    exact .rounds (.symbol (by decide)) fun _ v hv => .shorter (.discard (h.pattern (by omega)))
      fun _ v' hv' => ih (by omega)

theorem alternatives_settles (hc : 2 ≤ c) : Settles n c b w ts (alternatives R) := by
  unfold alternatives
  exact .seq (.symbol? (by decide)) <| .after (h.pattern hc) <| .tokens <|
    .choice (.bindPure (moreAlternatives_settles h (Nat.lt_succ_self _))) <| .pure _

omit h in
/-- A position is read off a number's text, not off the tokens ahead. -/
theorem memberIndexThen {α : Type} {negative : Bool} {text : List Char} {f : Nat → Parse α}
    (hf : ∀ index, Settles n c b w ts (f index)) :
    Settles n c b w ts (memberIndex negative text >>= f) := by
  unfold memberIndex
  split
  · split
    · exact .bindFail nofun
    · split
      · exact hf _
      · exact .bindFail nofun
  · exact .bindFail nofun
  · exact .bindFail nofun

omit h in
theorem member_settles : Settles n c b w ts member := by
  unfold member
  refine .tokens (.choice (.bindPure .ident) ?_)
  split
  · next htext =>
    exact memberIndexThen fun _ => .bindPure (.literal (isLiteral_of_integerText? htext))
  · exact .expect _

theorem fieldPattern_settles (hc : 2 ≤ c) : Settles n c b w ts (fieldPattern R) := by
  unfold fieldPattern
  refine .seq (.keyword? _) <| .seq (.keyword? _) <| .seq (.keyword? _) <|
    .choice (.discard .ident) <| .after member_settles fun {m v} => ?_
  match m with
  | .named _ =>
    exact .symbolThen (by decide) (.discard (alternatives_settles h (by omega))) (.pure _)
  | .position _ =>
    exact .seq (.symbol (by decide)) <| .discard (alternatives_settles h (by omega))

theorem fieldPatterns_settles (hc : 2 ≤ c) {k : ℕ} (hk : ts.length < k) :
    Settles n c false w ts (fieldPatterns R k) := by
  induction k generalizing ts c with
  | zero => exact absurd hk (Nat.not_lt_zero _)
  | succ k ih =>
    unfold fieldPatterns
    refine .tokens (.choice (.pure _) <| discardAttributesThen h fun v hv => ?_)
    refine .symbolThen (by decide) (.pure _) ?_
    refine .rounds (fieldPattern_settles h hc) fun _ v' hv' => .tokens (.choice (.pure _) <|
      .shorter (.symbol (by decide)) fun _ v'' hv'' => ?_)
    exact ih (by omega) (by omega)

theorem patterns_settles (hc : 2 ≤ c) : Settles n c false w ts (patterns R) := by
  unfold patterns
  exact .discard (.commas <| alternatives_settles h hc)

/-- The end of a range takes tokens where it is not left open. -/
theorem rangeBound?_takes (hc : 1 ≤ c) (hends : endsRange ts = false) :
    Settles n c b w ts (rangeBound? R) := by
  unfold rangeBound?
  refine .tokens (.ite (fun hopen => absurd hopen (by simp [hends])) fun _ => ?_)
  exact .ite (fun hl => .bindPure (.literal hl)) fun _ =>
    .choice (.bindPure (.discard (path_settles h hc))) <|
    .choice (.after (.keyword _) <| .bindPure (.discard (bracedBody_settles h))) <| .expect _

theorem rangeBound?_settles (hc : 1 ≤ c) : Settles n c false w ts (rangeBound? R) := by
  cases hends : endsRange ts with
  | false => exact rangeBound?_takes h hc hends
  | true =>
    unfold rangeBound?
    exact .tokens (.ite (fun _ => .pure _) (absurd hends))

omit h in
theorem endsRange_of_starts
    (h : (isSymbol .minus ts || isLiteral ts || isKeyword .const_ ts) = true) :
    endsRange ts = false := by
  rcases ts with _ | ⟨(k | _ | _ | ⟨d, joint⟩ | _) | _, v⟩
  case cons.leaf.keyword => cases k <;> first | rfl | cases h
  case cons.leaf.punct =>
    by_cases hd : d = '-'
    · subst hd
      rfl
    · rw [isLiteral_punct, beq_eq_false_iff_ne.2 hd, Bool.false_and, Bool.or_false] at h
      have hminus : isSymbol .minus (.leaf (.punct d joint) :: v) = false :=
        beq_eq_false_iff_ne.2 (Ne.symm hd)
      rw [hminus] at h
      cases h
  all_goals first | rfl | cases h

omit h in
theorem rangeDots_settles {old : Bool} : Settles n c b w ts (rangeDots old) := by
  unfold rangeDots
  exact .tokens <| .choice (.bindPure (.symbol (by decide))) <|
    .choice (.choice (.bindPure (.symbol (by decide))) <| .expect _) <|
    .bindPure (.symbol (by decide))

theorem rangeTail_settles : Settles n c b w ts (rangeTail R) := by
  unfold rangeTail
  exact .after rangeDots_settles <| .seq (rangeBound?_settles h (by omega)) <|
    .choice (.bindExpect _) <| .pure _

theorem pathPattern_settles (hc : 1 ≤ c) : Settles n c b w ts (pathPattern R) := by
  unfold pathPattern
  exact .after (path_settles h hc) fun {p _} => .tokens <|
    .choice (.bindPure (.discard (macroTail_settles p))) <| .choice (.bindPure (.within <| .tokens
      (fieldPatterns_settles h (by omega) (Nat.lt_succ_self _)))) <|
    .choice (.bindPure (.within <| patterns_settles h (by omega))) <|
    .choice (rangeTail_settles h) <| .pure _

theorem namePattern_settles : Settles n c b w ts (namePattern R) := by
  unfold namePattern
  refine .seq (.discard (.keyword? _)) <| .seq (.discard (.keyword? _)) <|
    .tokens (.afterEither .skip_keyword (fun _ => .discard .ident) ?_)
  exact .symbolThen (by decide) (.bindPure (.discard (h.pattern (by omega)))) (.pure _)

theorem literalPattern_settles (hc : 1 ≤ c) (hends : endsRange ts = false) :
    Settles n c b w ts (literalPattern R) := by
  unfold literalPattern
  exact .after (.discard (rangeBound?_takes h hc hends)) <| .tokens <|
    .choice (rangeTail_settles h) <| .pure _

theorem openPattern_settles : Settles n c b w ts (openPattern R) := by
  unfold openPattern
  exact .after rangeDots_settles <| .seq (rangeBound?_settles h (by omega)) <| .choice (.pure _) <|
    .choice (.expect _) <| .pure _

theorem slicePattern_settles : Settles n c b w ts (slicePattern R) := by
  unfold slicePattern
  exact .bindPure (.discard (.within <| .commas <| .seq (alternatives_settles h (by omega)) <|
    .choice (.fail nofun) <| .pure _))

theorem patternRule_settles (hc : 1 ≤ c) : Settles n c b w ts (patternRule R) := by
  unfold patternRule
  exact .tokens <| .choice (pathPattern_settles h hc) <|
    .ite (fun hk => .bindPure (.skip_keyword hk)) fun _ =>
    .ite (fun hk => .after (.skip_keyword hk) <|
      .bindPure (.discard (h.pattern (by omega)))) fun _ =>
    .ite (fun hl => literalPattern_settles h hc (endsRange_of_starts hl)) fun _ =>
    .choice (namePattern_settles h) <|
    .choice (.after (.symbol (by decide)) <| .seq (.discard (.keyword? _)) <|
      .bindPure (.discard (h.pattern (by omega)))) <|
    .choice (.bindPure (.within <| patterns_settles h (by omega))) <|
    .choice (slicePattern_settles h) <| .choice (openPattern_settles h) <| .expect _

end Grammar

end ProcessCompiler
