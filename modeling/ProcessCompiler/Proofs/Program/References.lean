import Mathlib.Data.List.Forall2
import ProcessCompiler.Proofs.Program.Walk
import ProcessCompiler.Proofs.Validation.Rules
/-!
# References between procedures

A procedure refers to others by name: to those it goes on with, and to the one
it leaves for when it fails or its condition does not hold. The names are
written for the targets that its node records, and a target need not be a node
of the graph. A name leads to the procedure of its target exactly if the target
is registered (`Graph.leads_nameOf_iff`); any other target is written by the
name it would have on its own.

Two results say what this comes to. Strict validation sees to it that every
flow exists, not that it leads to a node, so an accepted program refers to the
procedures of exactly those targets that were drawn
(`Diagram.leads_of_validate_strict`). And the name of a target that was not
drawn is not kept apart from those of other procedures
(`Graph.keepsApart_iff`).
-/

namespace ProcessCompiler

open Text

/-! ## What a procedure refers to -/

/-- Where an action leaves for, if it leaves. -/
def Action.route? : Action → Option String
  | .guard _ otherwise => otherwise
  | .invoke _ _ _ errorRoute => errorRoute
  | .run _ _ errorRoute => errorRoute
  | .subscribe _ _ | .emit _ | .unimplemented => none

/-- **The name leads to a node**: looking it up gives the node's procedure. -/
def Program.Leads (p : Program) (name id : String) : Prop :=
  (p.procedure? name).map (·.nodeId) = some id

instance (p : Program) (name id : String) : Decidable (p.Leads name id) :=
  inferInstanceAs (Decidable (_ = _))

/-- **A reference does not go astray**: it leads to the node it is meant for, or
the program declares nothing of its name. -/
def Program.KeepsApart (p : Program) (entryName name id : String) : Prop :=
  p.Leads name id ∨ name ∉ p.declaredNames entryName

instance (p : Program) (entryName name id : String) : Decidable (p.KeepsApart entryName name id) :=
  inferInstanceAs (Decidable (_ ∨ _))

namespace Lowering

/-- **A procedure's references** are the names of the targets that its node
records, in their order. A node without a text has nothing to leave from. -/
structure Refers (t : Names.Table) (n : Node) (q : Procedure) : Prop where
  nodeId : q.nodeId = n.id
  ordinary : q.then_.targets = n.outgoing.map t.nameOf
  route : q.action.route? =
    if n.expression.isSome then n.kind.defaultTarget.map t.nameOf else none

/-- The route of an action is written for the default target of its node. -/
theorem route?_action (t : Names.Table) (n : Node) :
    (action t n).route? =
      if n.expression.isSome then n.kind.defaultTarget.map t.nameOf else none := by
  unfold action
  cases htext : n.expression with
  | none => rcases n.kind with (_ | _) | (_ | _) | _ | _ | _ <;> rfl
  | some text => rcases n.kind with (_ | _) | (_ | _) | _ | _ | _ <;> rfl

theorem refers_procedure (t : Names.Table) (n : Node) : Refers t n (procedure t n) where
  nodeId := rfl
  ordinary := Continuation.targets_ofTargets _
  route := route?_action t n

end Lowering

namespace Graph

variable {g : Graph} {start : Node} {config : EmitConfig}

/-- The procedures of a program refer to what the nodes record, one by one. -/
theorem forall₂_refers :
    List.Forall₂ (Lowering.Refers (g.nameTable config)) g.toList
      (g.lower start config).procedures := by
  rw [lower_procedures, List.forall₂_map_right_iff, List.forall₂_same]
  exact fun n _ => Lowering.refers_procedure _ n

/-! ## Where a name leads -/

/-- Only a node of the graph has a procedure. -/
theorem contains_of_leads (hfiled : g.Filed) {name id : String}
    (h : (g.lower start config).Leads name id) : g.contains id = true := by
  obtain ⟨q, hq, rfl⟩ := Option.map_eq_some_iff.1 h
  have hmem := List.mem_of_find?_eq_some hq
  rw [lower_procedures] at hmem
  obtain ⟨n, hn, rfl⟩ := List.mem_map.1 hmem
  exact hfiled.get?_isSome_of_mem hn

/-- **The name of a target leads to it** exactly if it is registered. -/
theorem leads_nameOf_iff (hfiled : g.Filed) {id : String} :
    (g.lower start config).Leads ((g.nameTable config).nameOf id) id ↔ g.contains id = true := by
  refine ⟨contains_of_leads hfiled, fun hid => ?_⟩
  obtain ⟨n, hn, rfl⟩ := hfiled.contains_iff.1 hid
  rw [Program.Leads, procedure?_nameOf hfiled.ids_nodup hn, Option.map_some]
  rfl

/-- A target that is not registered has the name it would have on its own. -/
theorem nameOf_of_not_contains (hfiled : g.Filed) {id : String} (h : ¬g.contains id = true) :
    (g.nameTable config).nameOf id = Names.procedureName id := by
  have hnamed := (Names.Table.distinct_tableOf config.entryName hfiled.ids_nodup).named id
  have hnone : (g.nameTable config).byNode.get? id = none := by
    rw [← Option.not_isSome_iff_eq_none, nameTable, hnamed, List.mem_map]
    exact fun hmem => h (hfiled.contains_iff.2 hmem)
  rw [Names.Table.nameOf, hnone, Option.getD_none]

/-- **When a reference does not go astray.** Whatever nodes were registered, the
procedures refer to the targets of their nodes by the names of the table. The
name of a target is that of its own procedure, or of nothing in the program,
exactly if the target is registered or the name it would have on its own is not
declared. A target that is not registered is never told apart from the rest. -/
theorem keepsApart_iff (history : List Node) (start : Node) (config : EmitConfig) :
    List.Forall₂ (Lowering.Refers ((ofNodes history).nameTable config)) (ofNodes history).toList
        ((ofNodes history).lower start config).procedures ∧
      ∀ n ∈ (ofNodes history).toList, ∀ target ∈ n.outgoing ++ n.kind.defaultTarget.toList,
        (((ofNodes history).lower start config).KeepsApart config.entryName
            (((ofNodes history).nameTable config).nameOf target) target ↔
          (ofNodes history).contains target = true ∨
            Names.procedureName target ∉
              ((ofNodes history).lower start config).declaredNames config.entryName) := by
  refine ⟨forall₂_refers, fun n _ target _ => ?_⟩
  have hfiled := filed_ofNodes history
  rw [Program.KeepsApart, leads_nameOf_iff hfiled]
  by_cases htarget : (ofNodes history).contains target = true
  · simp only [htarget, true_or]
  · rw [nameOf_of_not_contains hfiled htarget]

/-- A start that goes on to `a-b`, which is not registered, beside the node
`a_b`. -/
def strayingHistory : List Node :=
  [⟨"Start", none, .startEvent false, none, ["a-b"]⟩, ⟨"a_b", none, .endEvent false, none, []⟩]

theorem keepsApart_iff_colliding :
    collidingStart ∈ (ofNodes collidingHistory).toList ∧
      "a-b" ∈ collidingStart.outgoing ++ collidingStart.kind.defaultTarget.toList ∧
      ((ofNodes collidingHistory).lower collidingStart .default).KeepsApart "saga"
        (((ofNodes collidingHistory).nameTable .default).nameOf "a-b") "a-b" := by
  have hstart : collidingStart ∈ (ofNodes collidingHistory).toList := by decide
  have htarget : "a-b" ∈ collidingStart.outgoing ++ collidingStart.kind.defaultTarget.toList := by
    decide
  have hiff := (keepsApart_iff collidingHistory collidingStart .default).2 _ hstart _ htarget
  exact ⟨hstart, htarget, hiff.2 (.inl (by decide))⟩

/-- **A reference that goes astray.** What the start goes on to is written by
the name `a_b`, and that is another node's procedure. -/
theorem not_keepsApart_straying :
    ∃ n ∈ (ofNodes strayingHistory).toList, "a-b" ∈ n.outgoing ∧
      ¬((ofNodes strayingHistory).lower n .default).KeepsApart "saga"
        (((ofNodes strayingHistory).nameTable .default).nameOf "a-b") "a-b" ∧
      ((ofNodes strayingHistory).lower n .default).Leads
        (((ofNodes strayingHistory).nameTable .default).nameOf "a-b") "a_b" := by
  refine ⟨⟨"Start", none, .startEvent false, none, ["a-b"]⟩, ?_, ?_, ?_, ?_⟩ <;> decide +kernel

end Graph

/-! ## Programs of strictly accepted diagrams -/

/-- A sound node without a text has no default target. -/
theorem Node.Sound.defaultTarget_eq_none {n : Node} (h : n.Sound) (htext : n.expression = none) :
    n.kind.defaultTarget = none := by
  rw [Node.Sound, htext] at h
  cases hkind : n.kind with
  | startEvent message | endEvent message => rfl
  | task route | serviceTask route | exclusiveGateway route =>
    rw [hkind] at h
    cases h

namespace Diagram

variable {d : Diagram}

/-- **A procedure is wired as its record was drawn.** It goes on with the
targets of the record's ordinary flows, in their order, and leaves for that of
the default flow. All flows exist, and the name of a flow's target leads to the
target exactly if that was drawn. -/
structure Wired (d : Diagram) (p : Program) (t : Names.Table) (r : NodeRecord) (q : Procedure) :
    Prop where
  nodeId : q.nodeId = r.id
  ordinary : q.then_.targets = (d.scanOutgoing r.defaultFlow r.outgoing).map t.nameOf
  route : q.action.route? = (d.scanDefault r.defaultFlow r.outgoing).map t.nameOf
  leads : ∀ flow ∈ r.outgoing, ∃ target, d.flowTarget? (trimmed flow) = some target ∧
    (p.Leads (t.nameOf target) target ↔ ∃ r' ∈ d.records, r'.id = target)

/-- A procedure that refers to what its node records is wired, if the record is
not at fault and the node is sound. -/
theorem wired_of_refers {p : Program} {t : Names.Table} {r : NodeRecord} {q : Procedure}
    (hrefers : Lowering.Refers t (d.scanRecord r) q) (hfaults : d.recordFaults r = [])
    (hsound : (d.scanRecord r).Sound)
    (hleads : ∀ target, p.Leads (t.nameOf target) target ↔ ∃ r' ∈ d.records, r'.id = target) :
    d.Wired p t r q where
  nodeId := hrefers.nodeId
  ordinary := hrefers.ordinary
  route := by
    have hkind : kindFaults r (d.scanDefault r.defaultFlow r.outgoing) = [] :=
      (List.append_eq_nil_iff.1 (List.append_eq_nil_iff.1 hfaults).2).2
    have hdefault : (d.scanRecord r).kind.defaultTarget = d.scanDefault r.defaultFlow r.outgoing :=
      NodeRecord.defaultTarget_nodeKind hkind
    rw [hrefers.route, ← hdefault]
    cases htext : (d.scanRecord r).expression with
    | none => rw [hsound.defaultTarget_eq_none htext]; rfl
    | some text => rfl
  leads flow hflow := by
    obtain ⟨target, htarget⟩ := exists_flowTarget_of_recordFaults hfaults hflow
    exact ⟨target, htarget, hleads target⟩

/-- **What the program of a strictly accepted diagram refers to.** Its entry
leads to the start event. Its procedures are those of the records, in their
order, and each is wired as its record was drawn, so that a reference leads to
the node that its flow points at exactly if that node was drawn. -/
theorem leads_of_validate_strict {v : Validated} (h : d.validate .strict = .ok v)
    (config : EmitConfig) :
    (v.graph.lower v.start config).Leads (v.graph.lower v.start config).entry v.start.id ∧
      List.Forall₂ (d.Wired (v.graph.lower v.start config) (v.graph.nameTable config)) d.records
        (v.graph.lower v.start config).procedures := by
  have haccepts := validate_eq_ok_iff.1 h
  have hfiled := filed_of_graph haccepts.resolved
  obtain ⟨hlist, hfaults⟩ := toList_of_graph_strict haccepts.resolved
  constructor
  · exact (Graph.leads_nameOf_iff hfiled).2 (hfiled.get?_isSome_of_mem haccepts.only.1)
  · have hleads : ∀ target, (v.graph.lower v.start config).Leads
        ((v.graph.nameTable config).nameOf target) target ↔ ∃ r' ∈ d.records, r'.id = target := by
      intro target
      rw [Graph.leads_nameOf_iff hfiled, hfiled.contains_iff, hlist]
      simp only [List.mem_map, exists_exists_and_eq_and]
      rfl
    rw [Graph.lower_procedures, List.forall₂_map_right_iff, hlist, List.forall₂_map_right_iff,
      List.forall₂_same]
    intro r hr
    have hmem : d.scanRecord r ∈ v.graph.toList := hlist ▸ List.mem_map_of_mem hr
    exact wired_of_refers (Lowering.refers_procedure _ _) (hfaults r hr) (haccepts.sound _ hmem)
      hleads

theorem leads_of_validate_strict_shipping : ∃ v, shipping.validate .strict = .ok v ∧
    (v.graph.lower v.start .default).Leads (v.graph.lower v.start .default).entry v.start.id ∧
    List.Forall₂ (shipping.Wired (v.graph.lower v.start .default) (v.graph.nameTable .default))
      shipping.records (v.graph.lower v.start .default).procedures := by
  obtain ⟨v, hv⟩ := exists_validate_shipping
  exact ⟨v, hv, leads_of_validate_strict hv .default⟩

/-- A start event whose flow leads to a node that was not drawn. -/
def unfinished : Diagram :=
  { Diagram.empty with
    startEvents := [⟨"Start", none, none, none, none, ["out"]⟩]
    flows := [⟨"out", "Start", "Ghost"⟩] }

/-- **Strict validation does not ask where flows lead.** It accepts a diagram
whose program goes on with a procedure that is not there. -/
theorem not_leads_unfinished : ∃ v, unfinished.validate .strict = .ok v ∧
    ∃ q ∈ (v.graph.lower v.start .default).procedures, q.then_ = .next "Ghost" ∧
      (v.graph.lower v.start .default).procedure? "Ghost" = none := by
  have hprogram : (unfinished.validate .strict).map
      (fun v => (v.graph.lower v.start .default).procedures) =
        .ok [⟨"Start", "Start", .startEvent, .unimplemented, .next "Ghost"⟩] := by decide +kernel
  cases hv : unfinished.validate .strict with
  | error r =>
    rw [hv] at hprogram
    cases hprogram
  | ok v =>
    rw [hv] at hprogram
    have hprocedures : (v.graph.lower v.start .default).procedures =
        [⟨"Start", "Start", .startEvent, .unimplemented, .next "Ghost"⟩] := Except.ok.inj hprogram
    simp [Program.procedure?, hprocedures]

end Diagram

end ProcessCompiler
