import ProcessCompiler.Proofs.Grammar.TypeSettling
import ProcessCompiler.Grammar.Item
/-!
# Declarations come to an answer

Functions, types, traits and all other declarations, read over rules that come
to an answer, come to one. Every declaration takes a word before it uses a rule.
-/

namespace ProcessCompiler

namespace Grammar

open Parse

variable {R : Rules} {n c : ℕ} {b w : Bool} {ts : List Token}

/-! ## Visibility and functions -/

theorem restriction?_settles : Settles n c false w ts restriction? := by
  unfold restriction?
  refine .tokens ?_
  rcases ts with _ | ⟨_ | ⟨_ | _ | _, inner⟩, v⟩
  case cons.group.paren =>
    exact .choice (.choice (.skip_one nofun) <| .pure _) <|
      .choice (.within <| .seq (.keyword _) <| .discard plainPath_settles) <| .pure _
  all_goals exact .pure _

theorem visibility_settles : Settles n c false w ts visibility := by
  unfold visibility
  exact .keywordThen (.bindPure restriction?_settles) (.pure _)

variable (h : R.Settle n)
include h

theorem receiver_settles (hc : 1 ≤ c) : Settles n c b w ts (receiver R) := by
  unfold receiver
  refine .seq (.symbol? (by decide)) <| .when (fun _ => .discard .lifetime?) <|
    .seq (.discard (.keyword? _)) <| .after (.keyword _) ?_
  exact .choice (.symbolThen (by decide) (.discard (h.type (by omega))) (.pure _)) <| .pure _

theorem param_settles (hc : 3 ≤ c) : Settles n c b w ts (param R) := by
  unfold param
  refine .attemptThen (receiver_settles h (by omega)) (.pure _) (.tokens ?_)
  refine .choice (.bindPure (.discard (h.type hc))) <| .after (.discard (h.pattern (by omega))) <|
    .seq (.symbol (by decide)) ?_
  exact .symbolThen (by decide) (.pure _) (.bindPure (.discard (h.type (by omega))))

omit h in
theorem lastComma_settles : Settles n c false w ts lastComma := by
  unfold lastComma
  exact .tokens (.choice (.symbol (by decide)) <| .pure _)

theorem params_settles {received first : Bool} (hc : 3 ≤ c) {k : ℕ} (hk : ts.length < k) :
    Settles n c false w ts (params R received k first) := by
  induction k generalizing ts c received first with
  | zero => exact absurd hk (Nat.not_lt_zero _)
  | succ k ih =>
    unfold params
    refine .tokens (.choice (.pure _) <| discardAttributesThen h fun v hv => ?_)
    refine .symbolThen (by decide) lastComma_settles ?_
    refine .rounds (param_settles h hc) fun form v' hv' => ?_
    have hmore : ∀ received, Settles n (c + 2) false w v' (do
        if (← tokens).isEmpty then return ()
        symbol .comma
        params R received k false) := fun received =>
      .tokens <| .choice (.pure _) <| .shorter (.symbol (by decide)) fun _ v'' hv'' =>
        ih (by omega) (by omega)
    cases form with
    | variadic => exact lastComma_settles
    | receiver =>
      exact .choice (.fail nofun) <| .choice (.fail nofun) <| hmore true
    | typed => exact hmore received

theorem signature_settles {safeAllowed : Bool} (hc : 1 ≤ c) :
    Settles n c b w ts (signature R safeAllowed) := by
  unfold signature
  refine .seq (.discard (.keyword? _)) <| .seq (.discard (.keyword? _)) <| .seq (.keyword? _) <|
    .tokens (.when
      (fun hsafe => .skip_word (Bool.and_eq_true_iff.1 hsafe).2) ?_)
  refine .seq callConvention?_settles <| .after (.keyword _) <| .seq (.discard .ident) <|
    .seq (generics_settles h) ?_
  exact .seq (.within <| .tokens (params_settles h (by omega) (Nat.lt_succ_self _))) <|
    .seq (returnType_settles h (by omega)) <| whereClause?_settles h (by omega)

theorem functionItem_settles (hc : 1 ≤ c) : Settles n c b w ts (functionItem R) := by
  unfold functionItem
  refine .seq (.discard visibility_settles) <| .after (signature_settles h hc) ?_
  exact .symbolThen (by decide) (.pure _) (.discard (bracedBody_settles h))

/-! ## Types -/

/-- Bounds joined by `+` up to a mark. -/
theorem separatedBounds_settles {stop : List Token → Bool} {capture const : Bool} (hc : 2 ≤ c) :
    Settles n c false w ts (separated stop (symbol .plus) (R.bound capture const)) :=
  .separated (fun _ => .symbol (by decide)) fun _ => h.bound hc

theorem aliasItem_settles {defaultAllowed : Bool} {place : WherePlace} (hc : 1 ≤ c) :
    Settles n c b w ts (aliasItem R defaultAllowed place) := by
  unfold aliasItem
  refine .seq (.discard visibility_settles) <| .tokens (.when
    (fun hdefault => .skip_word (Bool.and_eq_true_iff.1 hdefault).2) ?_)
  refine .after (.keyword _) <| .seq (.discard .ident) <| .seq (generics_settles h) <|
    .seq (.symbol? (by decide)) <|
    .when (fun _ => .discard (separatedBounds_settles h (by omega))) <| .tokens ?_
  refine .when (fun _ => whereClause?_settles h (by omega)) <| .seq (.symbol? (by decide)) <|
    .when (fun _ => .discard (h.type (by omega))) ?_
  exact .when (fun _ => whereClause?_settles h (by omega)) <| .symbol (by decide)

theorem namedField_settles (hc : 1 ≤ c) : Settles n c b w ts (namedField R) := by
  unfold namedField
  refine discardAttributesThen h fun _ _ => .seq (.discard visibility_settles) <|
    .tokens (.afterEither .skip_keyword (fun _ => .discard .ident) ?_)
  refine .seq (.symbol (by decide)) <| .tokens (.ite (fun hfields => ?_)
    fun _ => .discard (h.type (by omega)))
  simp only [Bool.and_eq_true, Bool.or_eq_true] at hfields
  exact .seq (hfields.2.elim .skip_keyword fun hword => .skip_word hword.1) <|
    h.namedFields (by omega)

theorem namedFieldsRule_settles : Settles n c b w ts (namedFieldsRule R) := by
  unfold namedFieldsRule
  exact .discard (.within <| .commas <| namedField_settles h (by omega))

theorem unnamedField_settles (hc : 3 ≤ c) : Settles n c b w ts (unnamedField R) := by
  unfold unnamedField
  exact discardAttributesThen h fun _ _ => .seq (.discard visibility_settles) <|
    .discard (h.type hc)

theorem unnamedFields_settles : Settles n c b w ts (unnamedFields R) := by
  unfold unnamedFields
  exact .discard (.within <| .commas <| unnamedField_settles h (by omega))

theorem structBody_settles (hc : 2 ≤ c) : Settles n c false w ts (structBody R) := by
  unfold structBody
  refine .tokens <| .seq (whereClause?_settles h (by omega)) <| .tokens <| .choice
    (.seq (unnamedFields_settles h) <| .tokens ?_) <| .choice (h.namedFields hc) <|
    .choice (.symbol (by decide)) <| .choice (.expect _) <| .expect _
  exact .seq (whereClause?_settles h (by omega)) <| .tokens <| .choice (.symbol (by decide)) <|
    .expect _

theorem structItem_settles : Settles n c b w ts (structItem R) := by
  unfold structItem
  exact .seq (.discard visibility_settles) <| .after (.keyword _) <| .seq (.discard .ident) <|
    .seq (generics_settles h) <| structBody_settles h (by omega)

theorem variant_settles (hc : 1 ≤ c) : Settles n c b w ts (variant R) := by
  unfold variant
  refine discardAttributesThen h fun _ _ => .seq (.discard visibility_settles) <|
    .after (.discard .ident) <| .tokens ?_
  refine .choice (.seq (h.namedFields (by omega)) ?_) <| .when (fun _ => unnamedFields_settles h) ?_
  all_goals
    exact .symbolThen (by decide) (.discard (h.expr (by omega))) (.pure _)

theorem enumItem_settles : Settles n c b w ts (enumItem R) := by
  unfold enumItem
  refine .seq (.discard visibility_settles) <| .after (.keyword _) <| .seq (.discard .ident) ?_
  exact .seq (generics_settles h) <| .seq (whereClause?_settles h (by omega)) <|
    .discard (.within <| .commas <| variant_settles h (by omega))

theorem unionItem_settles : Settles n c b w ts (unionItem R) := by
  unfold unionItem
  exact .seq (.discard visibility_settles) <| .tokens <|
    .afterEither .skip_word (fun _ => .expect _) <| .seq (.discard .ident) <|
      .seq (generics_settles h) <| .seq (whereClause?_settles h (by omega)) <|
        h.namedFields (by omega)

/-! ## Uses, modules and constants -/

omit h in
/-- Passing over an identifier or a reserved word. -/
theorem skip_identOr {k : Keyword} (h : (isIdent ts || isKeyword k ts) = true) :
    Settles n c b w ts (skip 1) :=
  (Bool.or_eq_true_iff.1 h).elim .skip_ident .skip_keyword

theorem useTreeRule_settles {root : Bool} : Settles n c b w ts (useTreeRule R root) := by
  unfold useTreeRule
  refine .tokens <| .ite (fun hword => .after
      ((Bool.or_eq_true_iff.1 hword).elim .skip_ident .skip_keywordOf) ?_) fun _ =>
    .choice (.symbol (by decide)) <| .choice (.discard (.within <| .commas ?_)) <| .expect _
  · exact .symbolThen (by decide) (h.useTree (by omega)) (.keywordThen
      (.tokens (.ite skip_identOr fun _ => .expect _)) (.pure _))
  · exact .either (fun _ => .symbol? (by decide)) (fun _ => .pure _) <| h.useTree (by omega)

theorem useItem_settles : Settles n c b w ts (useItem R) := by
  unfold useItem
  exact .seq (.discard visibility_settles) <| .after (.keyword _) <| .seq (.symbol? (by decide)) <|
    .seq (h.useTree (by omega)) <| .symbol (by decide)

omit h in
theorem externCrateItem_settles : Settles n c b w ts externCrateItem := by
  unfold externCrateItem
  refine .seq (.discard visibility_settles) <| .after (.keyword _) <| .seq (.keyword _) <|
    .tokens <| .either .skip_keyword (fun _ => .discard .ident) <|
      .keywordThen ?_ (.symbol (by decide))
  exact .tokens <| .either .skip_keyword (fun _ => .discard .ident) <| .symbol (by decide)

theorem moduleItem_settles : Settles n c b w ts (moduleItem R) := by
  unfold moduleItem
  refine .seq (.discard visibility_settles) <| .seq (.discard (.keyword? _)) <|
    .after (.keyword _) <| .tokens <| .either .skip_keyword (fun _ => .discard .ident) <| .tokens <|
      .choice (.symbol (by decide)) <| .choice ?_ <| .expect _
  exact .discard (.within <| .seq (innerAttributes_settles h) <| .repeatAll <| h.item (by omega))

omit h in
theorem constName_settles : Settles n c b w ts constName := by
  unfold constName
  exact .tokens (.ite skip_identOr fun _ => .expect _)

theorem constTail_settles (hc : 3 ≤ c) : Settles n c b w ts (constTail R) := by
  unfold constTail
  exact .seq (generics_settles h) <| .seq (.symbol (by decide)) <| .seq (.discard (h.type hc)) <|
    .seq (.symbol? (by decide)) <| .when (fun _ => .discard (h.expr hc)) <|
        .seq (whereClause?_settles h (by omega)) <| .symbol (by decide)

theorem constItem_settles (hc : 1 ≤ c) : Settles n c b w ts (constItem R) := by
  unfold constItem
  exact .seq (.discard visibility_settles) <| .after (.keyword _) <| .seq constName_settles <|
    constTail_settles h (by omega)

theorem staticItem_settles (hc : 1 ≤ c) : Settles n c b w ts (staticItem R) := by
  unfold staticItem
  refine .seq (.discard visibility_settles) <| .after (.keyword _) <|
    .seq (.discard (.keyword? _)) <| .seq (.discard .ident) <|
    .symbolThen (by decide) (.seq (.discard (h.expr (by omega))) <| .symbol (by decide)) ?_
  refine .seq (.symbol (by decide)) <| .seq (.discard (h.type (by omega))) ?_
  exact .symbolThen (by decide) (.pure _) (.seq (.symbol (by decide)) <|
    .seq (.discard (h.expr (by omega))) <| .symbol (by decide))

/-! ## Macros -/

omit h in
theorem memberMacro_settles : Settles n c b w ts memberMacro := by
  unfold memberMacro
  exact .after plainPath_settles fun {p _} => .seq (macroTail_settles p) <|
    .choice (.symbol (by decide)) <| .pure _

omit h in
theorem macroItem_settles : Settles n c b w ts macroItem := by
  unfold macroItem
  refine .after (.discard plainPath_settles) <| .seq (.symbol (by decide)) <| .tokens <|
    .when (fun hname => (Bool.or_eq_true_iff.1 hname).elim .skip_keyword .skip_ident) ?_
  exact .seq .anyGroup <| .choice (.symbol (by decide)) <| .pure _

omit h in
theorem macroDefinition_settles : Settles n c b w ts macroDefinition := by
  unfold macroDefinition
  exact .seq (.discard visibility_settles) <| .after (.keyword _) <| .seq (.discard .ident) <|
    .tokens <| .ite (fun hparen => .seq (.skip_group hparen) <| .tokens <| .ite .skip_group fun _ =>
        .expect _) fun _ => .ite .skip_group fun _ => .expect _

/-! ## Traits and implementations -/

theorem traitMember_settles (hc : 3 ≤ c) : Settles n c true false ts (traitMember R) := by
  unfold traitMember
  refine discardAttributesThen h fun _ _ => .seq visibility_settles <|
    .tokens (.when (fun _ => .skip_loose _) <| .tokens ?_)
  refine .choice (.after (signature_settles h (by omega)) <| .tokens ?_) <| .choice ?_ <|
    .choice (aliasItem_settles h (by omega)) <| .choice memberMacro_settles <| .expect _
  · exact .choice (.discard (bracedBody_settles h)) <| .choice (.symbol (by decide)) <| .expect _
  · exact .choice (.seq (.skip_loose _) <| constTail_settles h hc) <|
      .choice (signature_settles h (by omega)) <| .seq (.skip_loose _) <| .expect _

theorem traitTail_settles (hc : 2 ≤ c) : Settles n c b w ts (traitTail R) := by
  unfold traitTail
  refine .seq (.symbol? (by decide)) <| .when
    (fun _ => .discard (separatedBounds_settles h hc)) ?_
  exact .seq (whereClause?_settles h (by omega)) <| .discard (.within <|
    .seq (innerAttributes_settles h) <| .repeatAll <| traitMember_settles h (by omega))

theorem wordedTrait_settles : Settles n c b w ts (wordedTrait R) := by
  unfold wordedTrait
  exact .seq (.discard visibility_settles) <| .seq (.discard (.keyword? _)) <| .tokens <|
    .when .skip_word <| .after (.keyword _) <| .seq (.discard .ident) <|
      .seq (generics_settles h) <| traitTail_settles h (by omega)

theorem traitItem_settles : Settles n c b w ts (traitItem R) := by
  unfold traitItem
  refine .seq (.discard visibility_settles) <| .after (.keyword _) <| .seq (.discard .ident) <|
    .seq (generics_settles h) ?_
  refine .tokens (.choice (traitTail_settles h (by omega)) ?_)
  exact .symbolThen (by decide) (.seq (.discard (separatedBounds_settles h (by omega))) <|
    .seq (whereClause?_settles h (by omega)) <| .symbol (by decide)) (.expect _)

theorem implMember_settles (hc : 3 ≤ c) : Settles n c true false ts (implMember R) := by
  unfold implMember
  refine discardAttributesThen h fun _ _ => .lookAheadThen (g := fun _ => pure ()) visibility_settles
    (fun visible rest => ?_) rfl
  refine .choice ?_ <| .choice ?_ <| .choice (aliasItem_settles h (by omega)) <|
    .choice memberMacro_settles <| ?_
  all_goals
    refine .seq (.discard visibility_settles) <| .when (fun _ => .skip_loose _) ?_
  · exact .after (signature_settles h (by omega)) <| .symbolThen (by decide)
      (.pure _) (.discard (bracedBody_settles h))
  · exact .after (.keyword _) <| .seq constName_settles <| constTail_settles h (by omega)
  · exact .expect _

theorem implItem_settles (hc : 1 ≤ c) : Settles n c b w ts (implItem R) := by
  unfold implItem
  refine .seq (.discard visibility_settles) <| .tokens (.when .skip_word ?_)
  refine .seq (.discard (.keyword? _)) <| .after (.keyword _) <|
    .tokens (.when (fun _ => generics_settles h) <| .tokens ?_)
  refine .choice (.seq (.discard (.symbol? (by decide))) <| .seq (.keyword _) <|
    .tokens ?_) <| .tokens ?_
  all_goals
    refine .when (fun _ => .symbol (by decide)) <| .seq (.discard (h.type (by omega))) <|
      .seq (.keyword? _) <| .choice (.seq (.discard (h.type (by omega))) ?_) <|
      .choice (.bindFail nofun) ?_
    all_goals
      exact .seq (whereClause?_settles h (by omega)) <| .discard (.within <|
        .seq (innerAttributes_settles h) <| .repeatAll <| implMember_settles h (by omega))

/-! ## Foreign blocks -/

theorem foreignMember_settles (hc : 3 ≤ c) : Settles n c true false ts (foreignMember R) := by
  unfold foreignMember
  refine discardAttributesThen h fun _ _ => .lookAheadThen (g := fun _ => pure ()) visibility_settles
    (fun visible rest => ?_) rfl
  refine .choice (.seq (.discard visibility_settles) ?_) <|
    .choice (.seq (.discard visibility_settles) ?_) <| .choice (aliasItem_settles h (by omega)) <|
    .choice memberMacro_settles <| .seq (.discard visibility_settles) <| .expect _
  · exact .after (signature_settles h (by omega)) <| .tokens <|
      .choice (.discard (bracedBody_settles h)) <| .symbol (by decide)
  · refine .when (fun _ => .skip_loose _) <| .after (.keyword _) <| .seq (.discard (.keyword? _)) <|
      .seq (.discard .ident) ?_
    exact .seq (.symbol (by decide)) <| .seq (.discard (h.type (by omega))) <|
      .seq (.symbol? (by decide)) <| .when (fun _ => .discard (h.expr (by omega))) <|
        .symbol (by decide)

theorem foreignItem_settles : Settles n c b w ts (foreignItem R) := by
  unfold foreignItem
  exact .seq (.discard (.keyword? _)) <| .after (.keyword _) <| .tokens <| .when .skip_string <|
    .discard (.within <| .seq (innerAttributes_settles h) <| .repeatAll <|
        foreignMember_settles h (by omega))

/-! ## Declarations -/

omit h in
theorem itemOf_settles {kind : ItemKind} {p : Parse Unit} (h : Settles n c b w ts p) :
    Settles n c b w ts (itemOf kind p) := .bindPure h

theorem externItem_settles {v : List Token} : Settles n c b w ts (externItem R v) := by
  unfold externItem
  exact .choice (itemOf_settles externCrateItem_settles) <|
    .choice (itemOf_settles (foreignItem_settles h)) <|
    .ite (fun _ => .ite (fun _ => itemOf_settles (foreignItem_settles h)) fun _ _ _ => .error nofun)
      fun _ _ _ => .error nofun

theorem unsafeItem_settles {v : List Token} (hc : 1 ≤ c) : Settles n c b w ts (unsafeItem R v) := by
  unfold unsafeItem
  exact .choice (itemOf_settles (wordedTrait_settles h)) <|
    .choice (itemOf_settles (implItem_settles h hc)) <|
    .choice (itemOf_settles (foreignItem_settles h)) <|
    .ite (fun _ => itemOf_settles (moduleItem_settles h)) fun _ _ _ => .error nofun

theorem itemTail_settles (hc : 1 ≤ c) : Settles n c b w ts (itemTail R) := by
  unfold itemTail
  refine .lookAheadThen (g := fun _ => pure .function) visibility_settles (fun visible rest => ?_)
    (bind_map_left _ _ _)
  exact .choice (itemOf_settles (functionItem_settles h hc)) <| .choice (externItem_settles h) <|
    .choice (itemOf_settles (useItem_settles h)) <|
    .choice (itemOf_settles (staticItem_settles h hc)) <|
    .choice (itemOf_settles (constItem_settles h hc)) <| .choice (unsafeItem_settles h hc) <|
    .choice (itemOf_settles (moduleItem_settles h)) <|
    .choice (itemOf_settles (aliasItem_settles h hc)) <|
    .choice (itemOf_settles (structItem_settles h)) <|
    .choice (itemOf_settles (enumItem_settles h)) <|
    .choice (itemOf_settles (unionItem_settles h)) <|
    .choice (itemOf_settles (traitItem_settles h)) <|
    .choice (itemOf_settles (wordedTrait_settles h)) <|
    .choice (itemOf_settles (implItem_settles h hc)) <|
    .choice (itemOf_settles macroDefinition_settles) <|
    .choice (itemOf_settles macroItem_settles) <| .seq (.discard visibility_settles) <| .expect _

theorem itemFrom_settles (hc : 1 ≤ c) : Settles n c b w ts (itemFrom R) := by
  unfold itemFrom
  exact .bindPure (.spanned (itemTail_settles h hc))

theorem itemRule_settles (hc : 1 ≤ c) : Settles n c b w ts (itemRule R) := by
  unfold itemRule
  exact discardAttributesThen h fun _ _ => itemFrom_settles h hc

end Grammar

end ProcessCompiler
