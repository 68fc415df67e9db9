import ProcessCompiler.Proofs.Grammar.PatternAgreement
import ProcessCompiler.Grammar.Item
/-!
# Agreement of declarations

Declarations, read over rules that agree, agree. The last token of a
declaration may be the semicolon of the seam.
-/

namespace ProcessCompiler

namespace Grammar

open Parse

variable {R R' : Rules} {S : Seam} [S.Lax] {u : List Token} {Q : Unit → Prop}

/-! ## Visibility and functions -/

theorem restriction?_firm : FirmAt S u restriction? restriction? := by
  unfold restriction?
  refine .tokens ?_
  rcases u with _ | ⟨_ | ⟨_ | _ | _, inner⟩, u⟩
  · cases S <;> exact .pure _
  case cons.group.paren =>
    simp only [List.cons_append]
    exact .choice Iff.rfl (.choice Iff.rfl (.skip (Nat.succ_le_succ (Nat.zero_le _))) <| .pure _) <|
      .choice Iff.rfl (.within (.seq (.keyword _) <| .discard plainPath_firm.agree)) <| .pure _
  all_goals exact .pure _

theorem visibility_firm : FirmAt S u visibility visibility := by
  unfold visibility
  exact .seq (.keyword? _) <| .choice Iff.rfl (.seq restriction?_firm <| .pure _) <| .pure _

theorem visibility_agree {Q : Bool → Prop} : AgreeAt S Q u visibility visibility :=
  visibility_firm.agree

omit [S.Lax] in
@[simp]
theorem startsSignature_right [S.Unspent] (safeAllowed : Bool) :
    startsSignature safeAllowed (u ++ S.right) = startsSignature safeAllowed (u ++ S.left) := by
  unfold startsSignature
  grind -ring -linarith

variable (h : R.Agree R')
include h

omit [S.Lax] in
theorem receiver_agree : AgreeAt S Q u (receiver R) (receiver R') := by
  unfold receiver
  refine .seq (.symbol? (by decide)) <| .when Iff.rfl (fun _ => .discard .lifetime?) <|
    .seq (.discard (.keyword? _)) <| .seq (.keyword _) ?_
  exact .choice Iff.rfl (.seq (.symbol? (by decide)) <|
    .choice Iff.rfl (.discard (h.type _ _ _ _)) <| .pure _) <| .pure _

theorem param_agree {Q : ParamForm → Prop} : AgreeAt .closed Q u (param R) (param R') := by
  unfold param
  refine .bind (.attempt (receiver_agree h)) fun r v {_} => ?_
  cases r with
  | some _ => exact .pure _
  | none =>
    exact .tokens <| .choice (by grind -ring -linarith)
      (.seq (.discard (h.type _ _ _ _)) <| .pure _) <| .seq (.discard (h.pattern _ _ _)) <|
      .seq (.symbol (by decide)) <| .seq (.symbol? (by decide)) <| .choice Iff.rfl (.pure _) <|
      .seq (.discard (h.type _ _ _ _)) <| .pure _

omit h in
theorem lastComma_agree : AgreeAt .closed Q u lastComma lastComma := by
  unfold lastComma
  exact .tokens <| .choice (by simp) (.symbol (by decide)) <| .pure _

theorem params_agree {received : Bool} {first : Bool} {n m : ℕ} (hnm : n ≤ m) :
    AgreeAt .closed Q u (params R received n first) (params R' received m first) := by
  induction n generalizing Q u m first received with
  | zero => exact AgreeAt.tooDeep
  | succ n ih =>
    obtain ⟨m, rfl⟩ := Nat.exists_eq_add_of_lt hnm
    unfold params
    refine .tokens (.choice (by simp) (.pure _) ?_)
    refine .seq (.discard (outerAttributes_agree h)) <| .seq (.symbol? (by decide)) <|
      .choice Iff.rfl lastComma_agree ?_
    refine .bind (param_agree h) fun form v {_} => ?_
    cases form with
    | variadic => exact lastComma_agree
    | receiver =>
      exact .choice Iff.rfl (.fail _) <| .choice Iff.rfl (.fail _) <| .tokens <|
        .choice (by simp) (.pure _) <| .seq (.symbol (by decide)) <| ih (Nat.le_add_right n m)
    | typed =>
      exact .tokens <| .choice (by simp) (.pure _) <| .seq (.symbol (by decide)) <|
        ih (Nat.le_add_right n m)

omit [S.Lax] in
theorem signature_agree {safeAllowed : Bool} :
    AgreeAt S Q u (signature R safeAllowed) (signature R' safeAllowed) := by
  unfold signature
  refine .start (by cases safeAllowed <;> nofun) <| .firmly (.discard (.keyword? _)) <|
    .firmly (.discard (.keyword? _)) <| .firmly (.keyword? _) <| .tokens
      (.when (by simp) (fun hc => .skip (isWord_pos (Bool.and_eq_true_iff.1 hc).2)) ?_)
  refine .seq callConvention?_agree <| .seq (.keyword _) <| .seq (.discard .ident) <|
    .seq (generics_agree h) ?_
  exact .seq (.within <| .tokens (params_agree h (Seam.rounds_le _))) <|
    .seq (returnType_agree h) <| whereClause?_agree h

theorem functionItem_agree (hQ : S.IsSemi → Q ()) :
    AgreeAt S Q u (functionItem R) (functionItem R') := by
  unfold functionItem
  refine .seq (.discard visibility_agree) <| .seq (signature_agree h) ?_
  exact .symbol?_semi rfl rfl hQ (fun _ => nofun) (.discard (bracedBody_agree h))

/-! ## Types -/

/-- Bounds up to a semicolon or another mark. -/
theorem separatedBounds_agree {Q : List BoundForm → Prop} {stop : List Token → Bool}
    {capture const : Bool} (hstop : ∀ {S : Seam} v, stop (v ++ S.right) = stop (v ++ S.left))
    (hnil : stop [] = false) :
    AgreeAt S Q u
      (separated (fun ts => stop ts || isSymbol .semi ts) (symbol .plus) (R.bound capture const))
      (separated (fun ts => stop ts || isSymbol .semi ts) (symbol .plus)
        (R'.bound capture const)) := by
  refine .separated (fun v {b} => ?_) (fun _ => ⟨by rw [hnil]; rfl, nofun⟩)
    (fun _ => .symbol (by decide)) fun _ => h.bound _ _ _ _ _
  by_cases hended : S.IsEnded ∧ v = []
  · exact .inr ⟨hended.1, inferInstance, hended.2, h.bound_refuses _ _⟩
  · have hv : (S.cut b).IsEnded → v ≠ [] := fun hS hv => hended ⟨(Seam.isEnded_cut b).1 hS, hv⟩
    exact .inl (by rw [hstop, isSymbol_semi_right hv])

theorem aliasItem_agree {defaultAllowed : Bool} {place : WherePlace} (hQ : S.IsSemi → Q ()) :
    AgreeAt S Q u (aliasItem R defaultAllowed place) (aliasItem R' defaultAllowed place) := by
  unfold aliasItem
  refine .start (by cases defaultAllowed <;> nofun) <| .firmly (.discard visibility_firm) <|
    .tokens (.when (by simp) (fun hc => .skip (isWord_pos (Bool.and_eq_true_iff.1 hc).2)) ?_)
  refine .seq (.keyword _) <| .seq (.discard .ident) <| .seq (generics_agree h) <|
    .seq (.symbol? (by decide)) <|
    .when Iff.rfl (fun _ => .discard (separatedBounds_agree h (fun _ => by simp) rfl)) <| .tokens ?_
  refine .when Iff.rfl (fun _ => whereClause?_agree h) <| .seq (.symbol? (by decide)) <|
    .when Iff.rfl (fun _ => .discard (h.type _ _ _ _)) ?_
  exact .when (by simp) (fun _ => whereClause?_agree h) <| .symbol_semi hQ

theorem aliasItem_closed {defaultAllowed : Bool} {place : WherePlace} :
    AgreeAt .closed Q u (aliasItem R defaultAllowed place) (aliasItem R' defaultAllowed place) :=
  aliasItem_agree h False.elim

theorem namedField_agree : AgreeAt .closed Q u (namedField R) (namedField R') := by
  unfold namedField
  refine .seq (.discard (outerAttributes_agree h)) <| .seq (.discard visibility_agree) <|
    .tokens (.either (by simp) (fun hc => .skip (isKeyword_pos hc)) (fun _ => .discard .ident) ?_)
  exact .seq (.symbol (by decide)) <| .tokens <| .ite (by grind -ring -linarith)
    (fun hc => .seq (.skip (by grind -ring -linarith)) <| h.namedFields _ _ _) fun _ =>
    .discard (h.type _ _ _ _)

omit [S.Lax] in
theorem namedFieldsRule_agree : AgreeAt S Q u (namedFieldsRule R) (namedFieldsRule R') := by
  unfold namedFieldsRule
  exact .discard (.within <| .commas <| namedField_agree h)

theorem unnamedField_agree : AgreeAt S Q u (unnamedField R) (unnamedField R') := by
  unfold unnamedField
  exact .seq (.discard (outerAttributes_agree h)) <| .seq (.discard visibility_agree) <|
    .discard (h.type _ _ _ _)

omit [S.Lax] in
theorem unnamedFields_agree : AgreeAt S Q u (unnamedFields R) (unnamedFields R') := by
  unfold unnamedFields
  exact .discard (.within <| .commas <| unnamedField_agree h)

theorem structBody_agree {T : Seam} [S.From T] (hQ : T.IsSemi → Q ()) :
    AgreeAt S Q u (structBody R) (structBody R') := by
  unfold structBody
  refine .tokens <| .seq (whereClause?_agree h) <| .tokens <| .choice (by simp)
    (.seq (unnamedFields_agree h) <| .tokens ?_) <| .choice (by simp) (h.namedFields _ _ _) <|
    .ite_semi (.symbol_semi hQ)
      (.choice (by simp) (.expect _ _) <| .expect _ _) fun _ => by split <;> nofun
  exact .seq (whereClause?_agree h) <| .tokens <| .ite_semi (.symbol_semi hQ) (.expect _ _) fun _ =>
    nofun

theorem structItem_agree (hQ : S.IsSemi → Q ()) : AgreeAt S Q u (structItem R) (structItem R') := by
  unfold structItem
  exact .seq (.discard visibility_agree) <| .seq (.keyword _) <| .seq (.discard .ident) <|
    .seq (generics_agree h) <| structBody_agree h hQ

theorem variant_agree : AgreeAt S Q u (variant R) (variant R') := by
  unfold variant
  refine .seq (.discard (outerAttributes_agree h)) <| .seq (.discard visibility_agree) <|
    .seq (.discard .ident) <| .tokens ?_
  refine .choice (by simp) (.seq (h.namedFields _ _ _) ?_) <|
    .when (by simp) (fun _ => unnamedFields_agree h) ?_
  all_goals
    exact .seq (.symbol? (by decide)) <| .choice Iff.rfl (.discard (h.expr _ _ _ _)) <| .pure _

theorem enumItem_agree : AgreeAt S Q u (enumItem R) (enumItem R') := by
  unfold enumItem
  refine .seq (.discard visibility_agree) <| .seq (.keyword _) <| .seq (.discard .ident) ?_
  exact .seq (generics_agree h) <| .seq (whereClause?_agree h) <|
    .discard (.within <| .commas <| variant_agree h)

theorem unionItem_agree : AgreeAt S Q u (unionItem R) (unionItem R') := by
  unfold unionItem
  exact .start nofun <| .firmly (.discard visibility_firm) <| .tokens <| .either (by simp)
    (fun hc => .skip (isWord_pos hc)) (fun _ => .expect _ _) <| .seq (.discard .ident) <|
      .seq (generics_agree h) <| .seq (whereClause?_agree h) <| h.namedFields _ _ _

/-! ## Uses, modules and constants -/

omit [S.Lax] in
theorem useTreeRule_agree {root : Bool} :
    AgreeAt S Q u (useTreeRule R root) (useTreeRule R' root) := by
  unfold useTreeRule
  refine .start nofun <| .tokens <| .ite (by simp) (fun hc => .seq (.skip
      ((Bool.or_eq_true_iff.1 hc).elim isIdent_pos isKeywordOf_pos)) ?_) fun _ =>
    .choice (by simp) (.symbol (by decide)) <|
    .choice (by simp) (.discard (.within <| .commas ?_)) <| .expect _ _
  · exact .symbolThen (by decide) (h.useTree _ _ _ _) <| .keywordThen (.tokens <| .ite (by simp)
        (fun hc => .skip ((Bool.or_eq_true_iff.1 hc).elim isIdent_pos isKeyword_pos))
        fun _ => .expect _ _) <| .pure _
  · exact .either Iff.rfl (fun _ => .symbol? (by decide)) (fun _ => .pure _) <| h.useTree _ _ _ _

theorem useItem_agree (hQ : S.IsSemi → Q ()) : AgreeAt S Q u (useItem R) (useItem R') := by
  unfold useItem
  exact .seq (.discard visibility_agree) <| .seq (.keyword _) <| .seq (.symbol? (by decide)) <|
    .seq (h.useTree _ _ _ _) <| .symbol_semi hQ

omit h in
theorem externCrateItem_agree (hQ : S.IsSemi → Q ()) :
    AgreeAt S Q u externCrateItem externCrateItem := by
  unfold externCrateItem
  refine .seq (.discard visibility_agree) <| .seq (.keyword _) <| .seq (.keyword _) ?_
  exact .tokens <| .either (by simp) (fun hc => .skip (isKeyword_pos hc))
    (fun _ => .discard .ident) <| .seq (.keyword? _) <| .choice Iff.rfl
      (.tokens <| .either (by simp) (fun hc => .skip (isKeyword_pos hc))
        (fun _ => .discard .ident) <| .symbol_semi hQ) <| .symbol_semi hQ

theorem moduleItem_agree (hQ : S.IsSemi → Q ()) : AgreeAt S Q u (moduleItem R) (moduleItem R') := by
  unfold moduleItem
  refine .seq (.discard visibility_agree) <| .seq (.discard (.keyword? _)) <|
    .seq (.keyword _) ?_
  exact .tokens <| .either (by simp) (fun hc => .skip (isKeyword_pos hc))
    (fun _ => .discard .ident) <| .tokens <|
      .ite_semi (.symbol_semi hQ) (.choice (by simp) (.discard (.within <|
        .seq (innerAttributes_agree h) <| .repeatAll <| h.item _ _)) <|
          .expect _ _) fun _ => by split <;> nofun

omit [S.Lax] h in
theorem constName_agree : AgreeAt S Q u constName constName := by
  unfold constName
  exact .start nofun <| .tokens <| .ite (by simp)
    (fun hc => .skip ((Bool.or_eq_true_iff.1 hc).elim isIdent_pos isKeyword_pos)) fun _ =>
    .expect _ _

theorem constTail_agree {T : Seam} [S.From T] (hQ : T.IsSemi → Q ()) :
    AgreeAt S Q u (constTail R) (constTail R') := by
  unfold constTail
  exact .seq (generics_agree h) <| .seq (.symbol (by decide)) <| .seq (.discard (h.type _ _ _ _)) <|
    .seq (.symbol? (by decide)) <| .when Iff.rfl (fun _ => .discard (h.expr _ _ _ _)) <|
        .seq (whereClause?_agree h) <| .symbol_semi hQ

theorem constTail_closed : AgreeAt .closed Q u (constTail R) (constTail R') :=
  constTail_agree (T := .closed) h False.elim

theorem constItem_agree (hQ : S.IsSemi → Q ()) : AgreeAt S Q u (constItem R) (constItem R') := by
  unfold constItem
  exact .seq (.discard visibility_agree) <| .seq (.keyword _) <| .seq constName_agree <|
    constTail_agree h hQ

theorem staticItem_agree (hQ : S.IsSemi → Q ()) : AgreeAt S Q u (staticItem R) (staticItem R') := by
  unfold staticItem
  refine .seq (.discard visibility_agree) <| .seq (.keyword _) <| .seq (.discard (.keyword? _)) <|
    .seq (.discard .ident) <| .seq (.symbol? (by decide)) <| .choice Iff.rfl
      (.seq (.discard (h.expr _ _ _ _)) <| .symbol_semi hQ) ?_
  refine .seq (.symbol (by decide)) <| .seq (.discard (h.type _ _ _ _)) ?_
  exact .symbol?_semi rfl rfl hQ (fun _ => nofun) (.seq (.symbol (by decide)) <|
    .seq (.discard (h.expr _ _ _ _)) <| .symbol_semi hQ)

/-! ## Macros -/

omit h in
theorem memberMacro_agree : AgreeAt .closed Q u memberMacro memberMacro := by
  unfold memberMacro
  exact .seq plainPath_firm.agree <| .seq macroTail_agree <| .choice Iff.rfl (.symbol_closed _) <|
    .pure _

omit h in
theorem macroItem_agree (hQ : S.IsSemi → Q ()) : AgreeAt S Q u macroItem macroItem := by
  unfold macroItem
  refine .start nofun <| .firmly (.discard plainPath_firm) <| .after (.symbol (by decide)) <|
    .tokens <| .when (by simp)
      (fun hc => .skip ((Bool.or_eq_true_iff.1 hc).elim isKeyword_pos isIdent_pos)) ?_
  exact .seq .anyGroup <| .choice Iff.rfl (.symbol_semi hQ) <| .pure _

omit h in
theorem macroDefinition_agree : AgreeAt S Q u macroDefinition macroDefinition := by
  unfold macroDefinition
  exact .seq (.discard visibility_agree) <| .seq (.keyword _) <| .seq (.discard .ident) <|
    .tokens <| .ite (by simp) (fun hc => .seq (.skip_group hc) <| .tokens <|
        .ite (by simp) (fun hc => .skip_group hc) fun _ => .expect _ _) fun _ =>
      .ite (by simp) (fun hc => .skip_group hc) fun _ => .expect _ _

omit [S.Lax] h in
@[simp]
theorem startsMacroName_right [S.Unspent] :
    startsMacroName (u ++ S.right) = startsMacroName (u ++ S.left) := by
  simp [startsMacroName]

/-! ## Traits and implementations -/

theorem traitMember_agree : AgreeAt .closed Q u (traitMember R) (traitMember R') := by
  unfold traitMember
  refine .seq (.discard (outerAttributes_agree h)) <| .seq visibility_agree <|
    .tokens (.when (by simp) (fun _ => .skip_closed _) <| .tokens ?_)
  refine .choice (by simp) (.seq (signature_agree h) <| .tokens ?_) <| .choice (by simp) ?_ <|
    .choice (by simp) (aliasItem_closed h) <| .choice (by simp) memberMacro_agree <| .expect _ _
  · exact .choice (by simp) (.discard (bracedBody_agree h)) <| .choice Iff.rfl (.symbol_closed _) <|
      .expect _ _
  · exact .choice Iff.rfl (.seq (.skip_closed _) <| constTail_closed h) <|
      .choice Iff.rfl (signature_agree h) <| .seq (.skip_closed _) <| .expect _ _

omit [S.Lax] in
theorem traitTail_agree : AgreeAt S Q u (traitTail R) (traitTail R') := by
  unfold traitTail
  refine .seq (.symbol? (by decide)) <| .when Iff.rfl (fun _ => .discard (.separated
    (fun _ => .inl (by simp)) (fun _ => ⟨rfl, nofun⟩) (fun _ => .symbol (by decide))
    fun _ => h.bound _ _ _ _ _)) ?_
  exact .seq (whereClause?_agree h) <| .discard (.within <| .seq (innerAttributes_agree h) <|
    .repeatAll <| traitMember_agree h)

theorem wordedTrait_agree : AgreeAt S Q u (wordedTrait R) (wordedTrait R') := by
  unfold wordedTrait
  exact .start nofun <| .firmly (.discard visibility_firm) <| .firmly (.discard (.keyword? _)) <|
    .tokens <| .when (by simp)
      (fun hc => .skip (isWord_pos hc)) <| .seq (.keyword _) <| .seq (.discard .ident) <|
        .seq (generics_agree h) <| traitTail_agree h

theorem traitItem_agree (hQ : S.IsSemi → Q ()) : AgreeAt S Q u (traitItem R) (traitItem R') := by
  unfold traitItem
  refine .seq (.discard visibility_agree) <| .seq (.keyword _) <| .seq (.discard .ident) <|
    .seq (generics_agree h) ?_
  exact .tokens <| .choice (by simp) (traitTail_agree h) <| .seq (.symbol? (by decide)) <|
    .choice Iff.rfl (.seq (.discard
      (separatedBounds_agree h (fun _ => isKeyword_right _) rfl)) <| .seq (whereClause?_agree h) <|
        .symbol_semi hQ) <| .expect _ _

theorem implMember_agree : AgreeAt .closed Q u (implMember R) (implMember R') := by
  unfold implMember
  refine .seq (.discard (outerAttributes_agree h)) <| .lookAhead visibility_firm
    (.discard visibility_agree) fun visible w => ?_
  simp only [Seam.left, Seam.right]
  refine .choice Iff.rfl ?_ <| .choice Iff.rfl ?_ <| .choice Iff.rfl (aliasItem_closed h) <|
    .choice Iff.rfl memberMacro_agree ?_
  all_goals
    refine .seq (.discard visibility_agree) <| .when Iff.rfl (fun _ => .skip_closed _) ?_
  · exact .seq (signature_agree h) <| .seq (.symbol?_closed _) <|
      .choice Iff.rfl (.discard (bracedBody_agree h)) <| .pure _
  · exact .seq (.keyword _) <| .seq constName_agree <| constTail_closed h
  · exact .expect _ _

theorem implItem_agree : AgreeAt S Q u (implItem R) (implItem R') := by
  unfold implItem
  refine .start nofun <| .firmly (.discard visibility_firm) <|
    .tokens (.when (by simp) (fun hc => .skip (isWord_pos hc)) ?_)
  refine .seq (.discard (.keyword? _)) <| .after (.keyword _) <|
    .tokens (.when (by rw [startsGenerics_right]) (fun _ => generics_agree h) <| .tokens ?_)
  refine .choice (by grind -ring -linarith) (.seq (.discard (.symbol? (by decide))) <|
    .seq (.keyword _) <| .tokens ?_) <| .tokens ?_
  all_goals
    refine .when (by grind -ring -linarith) (fun _ => .symbol (by decide)) <|
      .seq (.discard (h.type _ _ _ _)) <| .seq (.keyword? _) <| .choice Iff.rfl
        (.seq (.discard (h.type _ _ _ _)) ?_) <| .choice (by grind -ring -linarith) (.bindFail _) ?_
    all_goals
      exact .seq (whereClause?_agree h) <| .discard (.within <| .seq (innerAttributes_agree h) <|
        .repeatAll <| implMember_agree h)

theorem foreignMember_agree : AgreeAt .closed Q u (foreignMember R) (foreignMember R') := by
  unfold foreignMember
  refine .seq (.discard (outerAttributes_agree h)) <| .lookAhead visibility_firm
    (.discard visibility_agree) fun visible w => ?_
  simp only [Seam.left, Seam.right]
  refine .choice Iff.rfl (.seq (.discard visibility_agree) ?_) <|
    .choice Iff.rfl (.seq (.discard visibility_agree) ?_) <| .choice Iff.rfl (aliasItem_closed h) <|
    .choice Iff.rfl memberMacro_agree <| .seq (.discard visibility_agree) <| .expect _ _
  · exact .seq (signature_agree h) <| .tokens <|
      .choice (by simp) (.discard (bracedBody_agree h)) <| .symbol_closed _
  · refine .when Iff.rfl (fun _ => .skip_closed _) <| .seq (.keyword _) <|
      .seq (.discard (.keyword? _)) <| .seq (.discard .ident) ?_
    exact .seq (.symbol (by decide)) <| .seq (.discard (h.type _ _ _ _)) <|
      .seq (.symbol? (by decide)) <| .when Iff.rfl (fun _ => .discard (h.expr _ _ _ _)) <|
        .symbol_closed _

omit [S.Lax] in
theorem foreignItem_agree : AgreeAt S Q u (foreignItem R) (foreignItem R') := by
  unfold foreignItem
  exact .seq (.discard (.keyword? _)) <| .seq (.keyword _) <| .tokens <|
    .when (by simp) (fun hc => .skip (isString_pos hc)) <| .discard (.within <|
      .seq (innerAttributes_agree h) <| .repeatAll <| foreignMember_agree h)

/-! ## Declarations -/

omit [S.Lax] h in
theorem itemOf_agree {Q : ItemKind → Prop} {kind : ItemKind} {p q : Parse Unit}
    (h : AgreeAt S (fun _ => S.IsSemi) u p q) (hQ : S.IsSemi → Q kind) :
    AgreeAt S Q u (itemOf kind p) (itemOf kind q) :=
  h.bindPure fun _ => hQ

omit [S.Lax] h in
/-- A refusal that says where it is. -/
theorem AgreeAt.refuse {α : Type} {Q : α → Prop} {atEnd atEnd' : Bool}
    {what what' : List Expectation} :
    AgreeAt S Q u (fun _ => .error ⟨atEnd, .expected what⟩)
      (fun _ => .error ⟨atEnd', .expected what'⟩) :=
  fun _ _ => .inr (.inr ⟨_, rfl, nofun⟩)

theorem externItem_agree [S.Unspent] {Q : ItemKind → Prop} (hQ : ∀ kind, S.IsSemi → Q kind)
    {v : List Token} (hword : isKeyword .extern_ (v ++ S.left) = true) :
    AgreeAt S Q u (externItem R (v ++ S.left)) (externItem R' (v ++ S.right)) := by
  unfold externItem
  have hpos := isKeyword_pos hword
  simp only [drop_left hpos, drop_right hpos]
  refine .choice (by simp) (itemOf_agree (externCrateItem_agree id) (hQ _)) <|
    .choice (by simp) (itemOf_agree (foreignItem_agree h) (hQ _)) <|
    .ite (by simp) (fun hstring => ?_) fun _ => .refuse
  exact .choice (by grind -ring -linarith) (itemOf_agree (foreignItem_agree h) (hQ _)) <| .refuse

theorem unsafeItem_agree [S.Unspent] {Q : ItemKind → Prop} (hQ : ∀ kind, S.IsSemi → Q kind)
    {v : List Token} (hword : isKeyword .unsafe_ (v ++ S.left) = true) :
    AgreeAt S Q u (unsafeItem R (v ++ S.left)) (unsafeItem R' (v ++ S.right)) := by
  unfold unsafeItem
  have hpos := isKeyword_pos hword
  exact .choice (by grind -ring -linarith)
      (itemOf_agree (wordedTrait_agree h) (hQ _)) <|
    .choice (by simp [drop_left hpos, drop_right hpos])
      (itemOf_agree (implItem_agree h) (hQ _)) <|
    .choice (by simp [drop_left hpos, drop_right hpos])
      (itemOf_agree (foreignItem_agree h) (hQ _)) <|
    .choice (by simp [drop_left hpos, drop_right hpos])
      (itemOf_agree (moduleItem_agree h id) (hQ _)) <| .refuse

theorem itemTail_agree [S.Unspent] {Q : ItemKind → Prop} (hQ : ∀ kind, S.IsSemi → Q kind) :
    AgreeAt S Q u (itemTail R) (itemTail R') := by
  unfold itemTail
  refine .lookAhead visibility_firm (.seq (.discard visibility_agree) <| .pure _)
    fun visible w => ?_
  exact .choice (by simp) (itemOf_agree (functionItem_agree h id) (hQ _)) <|
    .ite (by simp) (fun hword => externItem_agree h hQ hword) fun _ =>
    .choice (by simp) (itemOf_agree (useItem_agree h id) (hQ _)) <|
    .choice (by simp) (itemOf_agree (staticItem_agree h id) (hQ _)) <|
    .choice (by simp) (itemOf_agree (constItem_agree h id) (hQ _)) <|
    .ite (by simp) (fun hword => unsafeItem_agree h hQ hword) fun _ =>
    .choice (by simp) (itemOf_agree (moduleItem_agree h id) (hQ _)) <|
    .choice (by simp) (itemOf_agree (aliasItem_agree h id) (hQ _)) <|
    .choice (by simp) (itemOf_agree (structItem_agree h id) (hQ _)) <|
    .choice (by simp) (itemOf_agree (enumItem_agree h) (hQ _)) <|
    .choice (by grind -ring -linarith) (itemOf_agree (unionItem_agree h) (hQ _)) <|
    .choice (by simp) (itemOf_agree (traitItem_agree h id) (hQ _)) <|
    .choice (by grind -ring -linarith) (itemOf_agree (wordedTrait_agree h) (hQ _)) <|
    .choice (by grind -ring -linarith) (itemOf_agree (implItem_agree h) (hQ _)) <|
    .choice (by simp) (itemOf_agree macroDefinition_agree (hQ _)) <|
    .choice (by simp) (itemOf_agree (macroItem_agree id) (hQ _)) <|
    .seq (.discard visibility_agree) <| .expect _ _

theorem itemFrom_agree [S.Unspent] {Q : Item → Prop} (hQ : ∀ i, S.IsSemi → Q i) :
    AgreeAt S Q u (itemFrom R) (itemFrom R') :=
  ((itemTail_agree (Q := fun _ => S.IsSemi) h fun _ => id).spanned (Q := fun _ => S.IsSemi)
    fun _ _ => id).bindPure fun _ => hQ _

theorem itemRule_agree {Q : Item → Prop} : AgreeAt .closed Q u (itemRule R) (itemRule R') :=
  .seq (.discard (outerAttributes_agree h)) <| itemFrom_agree h fun _ => False.elim

end Grammar

end ProcessCompiler
