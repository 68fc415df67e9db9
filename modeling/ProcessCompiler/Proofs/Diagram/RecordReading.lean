import Mathlib.Data.List.Pairwise
import ProcessCompiler.Diagram.Reading
import ProcessCompiler.Proofs.Diagram.Writing
import ProcessCompiler.Proofs.Markup.Reading
/-!
# Reading written records

A record is read back from its element. Its attributes fill the same fields in
whatever order they stand (`Fields.OfCells`), its details are put into the
fields that are left (`Drawing.yields_readRecord`), and each kind of record is
made of the fields that were written for it.
-/

namespace ProcessCompiler

open Markup

namespace Diagram

/-! ## Names as they are read -/

/-- The field of a record that an attribute fills. -/
def AttributeName.field : AttributeName → String
  | id => "@id"
  | name => "@name"
  | default => "@default"
  | actionType => "@custom:actionType"
  | condition => "@custom:condition"
  | sourceRef => "@sourceRef"
  | targetRef => "@targetRef"

theorem AttributeName.field_write (qualified : Bool) (n : AttributeName) (value : List Char) :
    Attribute.field ⟨(n.write qualified).toList, value⟩ = "@" ++ n.short := by
  cases qualified <;> cases n <;> rfl

theorem AttributeName.field_inj {m n : AttributeName} (h : m.field = n.field) : m = n := by
  revert h
  cases m <;> cases n <;> decide

theorem ElementName.localName_write (qualified : Bool) (n : ElementName) :
    String.ofList (localName (n.write qualified).toList) = n.short := by
  cases qualified <;> cases n <;> rfl

theorem ElementName.short_inj {m n : ElementName} (h : m.short = n.short) : m = n := by
  revert h
  cases m <;> cases n <;> decide

theorem ElementName.write_inj {qualified : Bool} {m n : ElementName}
    (h : m.write qualified = n.write qualified) : m = n := by
  refine short_inj ?_
  rw [← m.localName_write qualified, h, n.localName_write qualified]

/-- No element is for the field of an attribute. -/
theorem ElementName.long_ne_field (m : ElementName) (n : AttributeName) : m.long ≠ n.field := by
  cases m <;> cases n <;> decide

/-! ## Attributes of a record -/

namespace Fields

theorem get?_take (r : Fields) (field other : String) (value : Option String) :
    (r.take field value).get? other = if other = field then value else r.get? other := by
  simp only [get?, take, List.lookup_cons]
  split <;> simp_all

theorem isTaken_take (r : Fields) (field other : String) (value : Option String) :
    (r.take field value).isTaken other = (other == field || r.isTaken other) := by
  simp only [isTaken, take, List.lookup_cons]
  cases other == field <;> rfl

theorem get?_eq_none_of_free {r : Fields} {field : String} (h : r.isTaken field = false) :
    r.get? field = Option.none := by
  rw [isTaken, Option.isSome_eq_false_iff, Option.isNone_iff_eq_none] at h
  rw [get?, h]
  rfl

/-- Attributes one after another. -/
def fill (attributes : List (AttributeName × String)) (r : Fields) : Fields :=
  attributes.foldl (fun r a => r.take a.1.field (some a.2)) r

section Fill

variable {attributes : List (AttributeName × String)} {n : AttributeName}

/-- Attributes of other names leave a field alone. -/
theorem get?_fill_of_notMem (h : n ∉ attributes.map (·.1)) (r : Fields) :
    (fill attributes r).get? n.field = r.get? n.field := by
  induction attributes generalizing r with
  | nil => rfl
  | cons a rest ih =>
    rw [List.map_cons, List.mem_cons, not_or] at h
    rw [fill, List.foldl_cons, ← fill, ih h.2, get?_take, if_neg (mt AttributeName.field_inj h.1)]

/-- An attribute gives its field a value. -/
theorem get?_fill_of_mem {value : String} (hnodup : (attributes.map (·.1)).Nodup)
    (h : (n, value) ∈ attributes) (r : Fields) :
    (fill attributes r).get? n.field = some value := by
  induction attributes generalizing r with
  | nil => cases h
  | cons a rest ih =>
    rw [List.map_cons, List.nodup_cons] at hnodup
    rw [fill, List.foldl_cons, ← fill]
    rcases List.mem_cons.1 h with rfl | h
    · rw [get?_fill_of_notMem hnodup.1, get?_take, if_pos rfl]
    · exact ih hnodup.2 h _

/-- Attributes take no other fields. -/
theorem isTaken_fill (m : ElementName) (attributes : List (AttributeName × String)) (r : Fields) :
    (fill attributes r).isTaken m.long = r.isTaken m.long := by
  induction attributes generalizing r with
  | nil => rfl
  | cons a rest ih =>
    rw [fill, List.foldl_cons, ← fill, ih, isTaken_take, beq_false_of_ne (m.long_ne_field a.1),
      Bool.false_or]

/-- Attributes name no flows and define no message. -/
theorem exists_fill_eq (attributes : List (AttributeName × String)) (r : Fields) :
    ∃ values, fill attributes r = { r with values := values } := by
  induction attributes generalizing r with
  | nil => exact ⟨r.values, rfl⟩
  | cons a rest ih =>
    rw [fill, List.foldl_cons, ← fill]
    exact ih _

end Fill

/-- **The attributes of a record were read**, and nothing else. -/
structure OfCells (r : Fields) (cells : Cells) : Prop where
  get? : ∀ c ∈ cells, r.get? c.1.field = c.2
  free : ∀ m : ElementName, r.isTaken m.long = false
  outgoing : r.outgoing = []
  message : r.message = Option.none

theorem ofCells_fill {cells : Cells} (h : (cells.map (·.1)).Nodup) :
    (fill cells.present none).OfCells cells where
  get? c hc := by
    obtain ⟨n, _ | value⟩ := c
    · -- The name stands there once, and that is without a value.
      refine get?_fill_of_notMem (fun hmem => ?_) none
      obtain ⟨a, ha, rfl⟩ := List.mem_map.1 hmem
      obtain ⟨b, hb, hvalue⟩ := List.mem_filterMap.1 ha
      obtain ⟨value, hsome, rfl⟩ := Option.map_eq_some_iff.1 hvalue
      have heq := List.inj_on_of_nodup_map h hc hb rfl
      rw [← heq] at hsome
      cases hsome
    · refine get?_fill_of_mem (h.sublist cells.present_sublist) ?_ none
      exact List.mem_filterMap.2 ⟨_, hc, rfl⟩
  free m := by
    rw [isTaken_fill]
    rfl
  outgoing := by
    obtain ⟨values, heq⟩ := exists_fill_eq cells.present none
    rw [heq]
    rfl
  message := by
    obtain ⟨values, heq⟩ := exists_fill_eq cells.present none
    rw [heq]
    rfl

end Fields

/-- **The attributes of a record are read** into their fields. -/
theorem Cells.readAttributes_eq (rules : RecordRules Fields) {cells : Cells}
    (hslot : ∀ c ∈ cells,
      rules.attributeSlot ("@" ++ c.1.short) = some (slotOf (.plain c.1.field)))
    (h : (cells.map (·.1)).Nodup) (qualified : Bool) :
    readAttributes rules .none ((cells.attributes qualified).map entryOf) =
      .ok (.fill cells.present .none) := by
  refine readAttributes_map (fun a : AttributeName × String => slotOf (.plain a.1.field))
    (fun a ha => ?_) ?_ ?_
  · obtain ⟨c, hc, hvalue⟩ := List.mem_filterMap.1 ha
    obtain ⟨value, -, rfl⟩ := Option.map_eq_some_iff.1 hvalue
    rw [AttributeName.field_write]
    exact hslot c hc
  · have hnodup := h.sublist cells.present_sublist
    refine (List.pairwise_map.1 hnodup).imp fun {a b} hne r v => ?_
    refine (Fields.isTaken_take r a.1.field b.1.field (some v)).trans ?_
    rw [beq_false_of_ne fun heq => hne (AttributeName.field_inj heq.symm)]
    rfl
  · exact fun a _ => rfl

/-! ## Details of a record -/

namespace Detail

/-- What a detail does to the fields of its record. -/
def put : Detail → Fields → Fields
  | outgoing flow, r => { r with outgoing := r.outgoing ++ [flow] }
  | message m, r =>
    { r.take ElementName.messageEventDefinition.long none with message := some m }
  | x, r => r.take x.name.long x.content

/-- Details one after another. -/
def putAll (xs : List Detail) (r : Fields) : Fields := xs.foldl (fun fields x => x.put fields) r

/-- The field of a detail is taken. -/
def taken : Detail → Fields → Bool
  | outgoing _, r => !r.outgoing.isEmpty
  | x, r => r.isTaken x.name.long

/-- The rule for a detail. -/
def rule : Detail → ChildRule Fields
  | outgoing _ => outgoingRule
  | message _ => messageRule
  | x => .text (slotOf (.plain x.name.long)) (·.take x.name.long none)

/-- A detail as a child of its record's element. -/
def child (qualified : Bool) (x : Detail) : Child Fields where
  tree := x.tree qualified
  many := x.name == .outgoing
  taken := x.taken
  put := x.put

theorem name_tree (qualified : Bool) (x : Detail) :
    (x.tree qualified).name = x.name.write qualified := by
  cases x <;> rfl

/-- Children have one name if the details have. -/
theorem name_child_eq_iff (qualified : Bool) {x y : Detail} :
    (x.child qualified).tree.name = (y.child qualified).tree.name ↔ x.name = y.name := by
  rw [child, child, name_tree, name_tree]
  exact ⟨ElementName.write_inj, congrArg _⟩

/-- The definition of a message is read back. -/
theorem yields_readMessage (qualified : Bool) (m : MessageDefinition)
    (following : Option (List Char)) :
    Yields (readMessage (((message m).tree qualified).element following)) m := by
  let cells : Cells := [(.id, m.id)]
  have hnodup : (cells.map (·.1)).Nodup := List.nodup_singleton _
  have hslot : ∀ c ∈ cells,
      messageRules.attributeSlot ("@" ++ c.1.short) = some (slotOf (.plain c.1.field)) := by
    intro c hc
    rw [List.mem_singleton.1 hc]
    rfl
  have hrecord := (Child.legible_nil messageRules _ _).yields_readRecord List.map_nil
    (cells.plainTag qualified .messageEventDefinition hnodup)
    (cells.readAttributes_eq messageRules hslot hnodup qualified) following
  have hid : (Fields.fill cells.present .none).get? "@id" = m.id :=
    (Fields.ofCells_fill hnodup).get? (.id, m.id) (List.mem_singleton_self _)
  refine hrecord.bind ?_
  rw [Child.putAll, List.foldl_nil, hid]
  exact yields_pure m

/-- **A detail is read** by its rule. -/
theorem reads_child {rules : RecordRules Fields} {x : Detail} (qualified : Bool)
    {owner : List Char} (hrule : rules.childRule x.name.short = some x.rule)
    (hbounded : Bounded x.content.toList) (hfilled : ∀ s : Scope, s.marksVoid owner = false) :
    (x.child qualified).Reads rules owner := by
  rw [← x.name.localName_write qualified, ← x.name_tree qualified] at hrule
  have hvoid : Filled owner (x.tree qualified).tag := fun s => by
    refine ⟨hfilled s, ?_⟩
    cases x with
    | message m =>
      exact Cells.marksVoid_eq_false qualified _ [(.id, m.id)] (List.nodup_singleton _) s
    | outgoing | call | script | text =>
      exact Cells.marksVoid_eq_false qualified _ [] List.nodup_nil s
  cases x with
  | outgoing flow =>
    exact .list hrule fun r following =>
      (yields_lift (textOf_textContent _ hbounded)).bind (yields_pure _)
  | message m =>
    exact .element hrule rfl (.inr hvoid) fun r following =>
      (yields_readMessage qualified m following).bind (yields_pure _)
  | call s | script s | text s =>
    exact .text hrule rfl hvoid (textOf_textContent _ hbounded) fun r => rfl

/-- One of two details names a flow. -/
def Beside (x y : Detail) : Prop := x.name = .outgoing ∨ y.name = .outgoing

instance : Std.Symm Beside := ⟨fun _ _ => Or.symm⟩

end Detail

/-! ## Records -/

namespace Figure

/-- The shape of a record. -/
def shape : Figure → Shape
  | startEvent _ | endEvent _ => .event
  | task _ => .task
  | serviceTask _ => .serviceTask
  | gateway _ => .gateway
  | flow _ | association _ => .edge
  | note _ => .note

/-- The attributes of a record have fields. -/
theorem attributeSlot_of_mem {f : Figure} {c : AttributeName × Option String} (h : c ∈ f.cells) :
    f.shape.rules.attributeSlot ("@" ++ c.1.short) = some (slotOf (.plain c.1.field)) := by
  have hname : c.1 ∈ f.cells.map (·.1) := List.mem_map_of_mem h
  generalize c.1 = n at hname
  cases f <;> simp only [cells, List.map_cons, List.map_nil, List.mem_cons, List.not_mem_nil,
    or_false] at hname
  all_goals obtain rfl | rfl | rfl | rfl := hname <;> rfl

/-- The details of a record have rules. -/
theorem childRule_of_mem {f : Figure} {x : Detail} (h : x ∈ f.details) :
    f.shape.rules.childRule x.name.short = some x.rule := by
  cases f <;> simp only [details, List.mem_append, List.mem_map, List.not_mem_nil] at h
  case gateway | note =>
    obtain ⟨s, -, rfl⟩ := h
    rfl
  all_goals obtain ⟨s, -, rfl⟩ | ⟨s, -, rfl⟩ := h <;> rfl

/-- A record has at most one detail that names no flow. -/
theorem pairwise_details (f : Figure) : f.details.Pairwise Detail.Beside := by
  have hflows : ∀ flows : List String, (flows.map Detail.outgoing).Pairwise Detail.Beside :=
    fun flows => List.pairwise_map.2 (List.pairwise_of_forall fun _ _ => .inl rfl)
  have hone : ∀ {α : Type} (of : α → Detail) (flows : List String) (o : Option α),
      (flows.map Detail.outgoing ++ o.toList.map of).Pairwise Detail.Beside := by
    intro α of flows o
    refine List.pairwise_append.2 ⟨hflows flows, ?_, fun x hx y _ => ?_⟩
    · cases o with
      | none => exact .nil
      | some a => exact List.pairwise_singleton _ _
    · obtain ⟨flow, -, rfl⟩ := List.mem_map.1 hx
      exact .inl rfl
  cases f with
  | startEvent e | endEvent e => exact hone _ _ _
  | task t => exact hone _ _ _
  | serviceTask t => exact hone _ _ _
  | gateway g => exact hflows _
  | flow f => exact .nil
  | note a => exact hone Detail.text [] a.text
  | association a => exact .nil

end Figure

namespace Detail

/-- A flow that leaves a record and another detail are for different fields. -/
theorem Beside.taken_put_and_comm {x y : Detail} (h : x.Beside y) (hname : x.name ≠ y.name)
    (r : Fields) : y.taken (x.put r) = y.taken r ∧ y.put (x.put r) = x.put (y.put r) := by
  cases x <;> cases y <;> simp_all [Beside, name] <;> exact ⟨rfl, rfl⟩

theorem taken_eq_false (x : Detail) {r : Fields} {cells : Cells} (h : r.OfCells cells) :
    x.taken r = false := by
  cases x with
  | outgoing flow => simp [taken, h.outgoing]
  | message m | call s | script s | text s => exact h.free _

end Detail

namespace Drawing

variable (r : Drawing) (qualified : Bool)

/-- What is read of a record's attributes. -/
def attributeFields : Fields := .fill r.cells.present .none

theorem ofCells_attributeFields : r.attributeFields.OfCells r.figure.cells :=
  let h := Fields.ofCells_fill r.nodup_cells
  { h with get? := fun c hc => h.get? c (r.cells_perm.mem_iff.1 hc) }

/-- **The details of a record** can be read. -/
theorem legible_details (h : ∀ x ∈ r.figure.details, Bounded x.content.toList) :
    Child.Legible r.figure.shape.rules
      (tagText (r.figure.name.write qualified) (r.cells.attributes qualified))
      (r.details.map (·.child qualified)) r.attributeFields := by
  have hmem : ∀ x ∈ r.details, x ∈ r.figure.details := fun x hx =>
    r.details_reordered.perm.mem_iff.2 hx
  have hpairwise : r.details.Pairwise Detail.Beside :=
    (r.details_reordered.perm.pairwise_iff Or.symm).1 r.figure.pairwise_details
  refine Child.legible_map (fun x hx => ?_) (fun x hx => ?_) ?_ (fun x hx y hy hne => ?_)
    fun x _ => x.taken_eq_false r.ofCells_attributeFields
  · exact x.plain_tree qualified (h x (hmem x hx))
  · exact Detail.reads_child qualified (Figure.childRule_of_mem (hmem x hx)) (h x (hmem x hx))
      (Cells.marksVoid_eq_false qualified _ r.cells r.nodup_cells)
  · -- Two details of one name are flows, as one of any two is.
    refine hpairwise.imp fun {x y} hbeside heq => ?_
    have hname : x.name = y.name := (Detail.name_child_eq_iff qualified).1 heq
    rcases hbeside with hflow | hflow
    · exact beq_iff_eq.2 hflow
    · exact beq_iff_eq.2 (hname.trans hflow)
  · have hname : x.name ≠ y.name := mt (Detail.name_child_eq_iff qualified).2 hne
    have hbeside := hpairwise.forall hx hy fun heq => hname (congrArg _ heq)
    exact hbeside.taken_put_and_comm hname

/-- All that is read of a record. -/
def fields : Fields := Detail.putAll r.figure.details r.attributeFields

/-- **A record is read** field by field. -/
theorem yields_readRecord (h : ∀ x ∈ r.figure.details, Bounded x.content.toList)
    (following : Option (List Char)) :
    Yields (readRecord r.figure.shape.rules .none ((r.tree qualified).element following))
      r.fields := by
  have hslot : ∀ c ∈ r.cells, r.figure.shape.rules.attributeSlot ("@" ++ c.1.short) =
      some (slotOf (.plain c.1.field)) := fun c hc =>
    Figure.attributeSlot_of_mem (r.cells_perm.mem_iff.2 hc)
  have hlegible := r.legible_details qualified h
  have hrecord := hlegible.yields_readRecord List.map_map
    (r.cells.plainTag qualified r.figure.name r.nodup_cells)
    (r.cells.readAttributes_eq _ hslot r.nodup_cells qualified) following
  have hfields : Child.putAll (r.details.map (·.child qualified)) r.attributeFields = r.fields := by
    rw [Child.putAll, List.foldl_map, fields]
    refine (r.details_reordered.foldl_eq (fun x hx y hy hne fields => ?_) _).symm
    have hmem : ∀ z ∈ r.figure.details, z.child qualified ∈ r.details.map (·.child qualified) :=
      fun z hz => List.mem_map_of_mem (r.details_reordered.perm.mem_iff.1 hz)
    exact hlegible.comm _ (hmem x hx) _ (hmem y hy)
      (mt (Detail.name_child_eq_iff qualified).1 hne) fields
  rw [hfields] at hrecord
  exact hrecord

end Drawing

/-! ## Records from their fields -/

namespace Detail

/-- Details leave the fields of attributes alone. -/
theorem get?_putAll (n : AttributeName) (xs : List Detail) (r : Fields) :
    (putAll xs r).get? n.field = r.get? n.field := by
  have htake : ∀ (m : ElementName) (value : Option String) (r : Fields),
      (r.take m.long value).get? n.field = r.get? n.field := fun m value r => by
    rw [Fields.get?_take, if_neg (m.long_ne_field n).symm]
  induction xs generalizing r with
  | nil => rfl
  | cons x xs ih =>
    rw [putAll, List.foldl_cons, ← putAll, ih]
    cases x with
    | outgoing flow => rfl
    | message m => exact htake .messageEventDefinition none r
    | call s => exact htake .call s r
    | script s => exact htake .script s r
    | text s => exact htake .text s r

/-- Flows are put into a record one behind another, then what may follow
them. -/
theorem putAll_outgoing_append {α : Type} (flows : List String) (o : Option α) (of : α → Detail)
    (r : Fields) :
    putAll (flows.map outgoing ++ o.toList.map of) r =
      o.elim { r with outgoing := r.outgoing ++ flows } fun a =>
        (of a).put { r with outgoing := r.outgoing ++ flows } := by
  induction flows generalizing r with
  | nil =>
    rw [List.append_nil]
    cases o <;> rfl
  | cons flow flows ih =>
    rw [List.map_cons, List.cons_append, putAll, List.foldl_cons, ← putAll, ih]
    simp [put]

end Detail

namespace Drawing

variable {r : Drawing}

/-- Attributes have the values that were written. -/
theorem get?_fields {cells : Cells} (h : r.figure.cells = cells) :
    ∀ c ∈ cells, r.fields.get? c.1.field = c.2 := by
  intro c hc
  rw [fields, Detail.get?_putAll, r.ofCells_attributeFields.get? c (h ▸ hc)]

/-- The fields of a record that some flows leave. -/
theorem fields_eq {α : Type} {flows : List String} {o : Option α} {of : α → Detail}
    (h : r.figure.details = flows.map .outgoing ++ o.toList.map of) :
    r.fields = o.elim { r.attributeFields with outgoing := flows } fun a =>
      (of a).put { r.attributeFields with outgoing := flows } := by
  rw [fields, h, Detail.putAll_outgoing_append, r.ofCells_attributeFields.outgoing,
    List.nil_append]

theorem eventOf_fields {e : EventRecord}
    (hcells : r.figure.cells = (Figure.startEvent e).cells)
    (hdetails : r.figure.details = (Figure.startEvent e).details) :
    eventOf r.fields = .ok e := by
  have hget := get?_fields hcells
  simp only [Figure.cells, List.forall_mem_cons, AttributeName.field] at hget
  obtain ⟨hid, hname, hdefault, haction, -⟩ := hget
  have hmessage : r.fields.message = e.message ∧ r.fields.outgoing = e.outgoing := by
    rw [fields_eq hdetails]
    cases e.message with
    | none => exact ⟨r.ofCells_attributeFields.message, rfl⟩
    | some m => exact ⟨rfl, rfl⟩
  rw [eventOf, Fields.require, hid, hname, hdefault, haction, hmessage.1, hmessage.2]
  rfl

/-- A record that some flows leave has at most one other text. -/
theorem get?_fields_text {flows : List String} {o : Option String} {of : String → Detail}
    (m : ElementName) (hput : ∀ s fields, (of s).put fields = fields.take m.long (some s))
    (h : r.figure.details = flows.map .outgoing ++ o.toList.map of) :
    r.fields.get? m.long = o ∧ r.fields.outgoing = flows := by
  rw [fields_eq h]
  cases o with
  | none => exact ⟨Fields.get?_eq_none_of_free (r.ofCells_attributeFields.free m), rfl⟩
  | some s =>
    rw [Option.elim, hput, Fields.get?_take, if_pos rfl]
    exact ⟨rfl, rfl⟩

theorem taskOf_fields {t : TaskRecord} (h : r.figure = .task t) : taskOf r.fields = .ok t := by
  have hget := get?_fields (congrArg Figure.cells h)
  simp only [Figure.cells, List.forall_mem_cons, AttributeName.field] at hget
  obtain ⟨hid, hname, hdefault, -⟩ := hget
  have hcall : r.fields.get? "custom:call" = t.call ∧ r.fields.outgoing = t.outgoing :=
    get?_fields_text .call (fun _ _ => rfl) (congrArg Figure.details h)
  rw [taskOf, Fields.require, hid, hname, hdefault, hcall.1, hcall.2]
  rfl

theorem serviceTaskOf_fields {t : ServiceTaskRecord} (h : r.figure = .serviceTask t) :
    serviceTaskOf r.fields = .ok t := by
  have hget := get?_fields (congrArg Figure.cells h)
  simp only [Figure.cells, List.forall_mem_cons, AttributeName.field] at hget
  obtain ⟨hid, hname, hdefault, -⟩ := hget
  have hscript : r.fields.get? "custom:script" = t.script ∧ r.fields.outgoing = t.outgoing :=
    get?_fields_text .script (fun _ _ => rfl) (congrArg Figure.details h)
  rw [serviceTaskOf, Fields.require, hid, hname, hdefault, hscript.1, hscript.2]
  rfl

theorem gatewayOf_fields {g : GatewayRecord} (h : r.figure = .gateway g) :
    gatewayOf r.fields = .ok g := by
  have hget := get?_fields (congrArg Figure.cells h)
  simp only [Figure.cells, List.forall_mem_cons, AttributeName.field] at hget
  obtain ⟨hid, hname, hdefault, hcondition, -⟩ := hget
  have hdetails : r.figure.details =
      g.outgoing.map .outgoing ++ (none : Option String).toList.map .text := by
    rw [h, Option.toList_none, List.map_nil, List.append_nil, Figure.details]
  have houtgoing : r.fields.outgoing = g.outgoing := by rw [fields_eq hdetails, Option.elim]
  rw [gatewayOf, Fields.require, hid, hname, hdefault, hcondition, houtgoing]
  rfl

theorem flowOf_fields {f : SequenceFlow} (h : r.figure = .flow f) : flowOf r.fields = .ok f := by
  have hget := get?_fields (congrArg Figure.cells h)
  simp only [Figure.cells, List.forall_mem_cons, AttributeName.field] at hget
  obtain ⟨hid, hsource, htarget, -⟩ := hget
  simp only [flowOf, Fields.require, hid, hsource, htarget]
  rfl

theorem noteOf_fields {a : TextAnnotation} (h : r.figure = .note a) :
    noteOf r.fields = .ok a := by
  have hget := get?_fields (congrArg Figure.cells h)
  simp only [Figure.cells, List.forall_mem_cons, AttributeName.field] at hget
  obtain ⟨hid, -⟩ := hget
  have hdetails : r.figure.details = [].map .outgoing ++ a.text.toList.map .text := by
    rw [h, List.map_nil, List.nil_append, Figure.details]
  have htext : r.fields.get? "bpmn:text" = a.text :=
    (get?_fields_text .text (fun _ _ => rfl) hdetails).1
  rw [noteOf, Fields.require, hid, htext]
  rfl

theorem lineOf_fields {a : Association} (h : r.figure = .association a) :
    lineOf r.fields = .ok a := by
  have hget := get?_fields (congrArg Figure.cells h)
  simp only [Figure.cells, List.forall_mem_cons, AttributeName.field] at hget
  obtain ⟨hid, hsource, htarget, -⟩ := hget
  simp only [lineOf, Fields.require, hid, hsource, htarget]
  rfl

end Drawing

end Diagram

end ProcessCompiler
