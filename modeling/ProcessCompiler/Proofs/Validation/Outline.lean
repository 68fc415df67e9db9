import ProcessCompiler.Proofs.Validation.Rules
/-!
# Outlines

Validation looks at what a node is and what its text says, never at where it
leads. `Node.outline` is that part of a node, and `Diagram.SameWork` says that
two diagrams differ in nothing but edges and names. A lenient resolution does
not stop at an edge that leads nowhere, so the two have nodes of the same
outlines (`map_outline_scanned`), and every check gives the same answer on
nodes of one outline. The verdict is then the same (`validate_lenient_of_sameWork`).
-/

namespace ProcessCompiler

open Text

/-! ## Records without edges -/

/-- The event without its name and its flows. -/
def EventRecord.unlinked (e : EventRecord) : EventRecord :=
  { e with name := none, defaultFlow := none, outgoing := [] }

/-- The task without its name and its flows. -/
def TaskRecord.unlinked (t : TaskRecord) : TaskRecord :=
  { t with name := none, defaultFlow := none, outgoing := [] }

/-- The service task without its name and its flows. -/
def ServiceTaskRecord.unlinked (t : ServiceTaskRecord) : ServiceTaskRecord :=
  { t with name := none, defaultFlow := none, outgoing := [] }

/-- The gateway without its name and its flows. -/
def GatewayRecord.unlinked (g : GatewayRecord) : GatewayRecord :=
  { g with name := none, defaultFlow := none, outgoing := [] }

/-- The record without its name and its flows. -/
def NodeRecord.unlinked (r : NodeRecord) : NodeRecord :=
  { r with name := none, defaultFlow := none, outgoing := [] }

/-- **The same work.** Two diagrams have the same notes and lines, and their
records are the same, one by one, but for names and for the flows that are
listed or marked. Which flows there are is left open. -/
structure Diagram.SameWork (d d' : Diagram) : Prop where
  startEvents : d.startEvents.map (·.unlinked) = d'.startEvents.map (·.unlinked)
  endEvents : d.endEvents.map (·.unlinked) = d'.endEvents.map (·.unlinked)
  tasks : d.tasks.map (·.unlinked) = d'.tasks.map (·.unlinked)
  serviceTasks : d.serviceTasks.map (·.unlinked) = d'.serviceTasks.map (·.unlinked)
  gateways : d.gateways.map (·.unlinked) = d'.gateways.map (·.unlinked)
  annotations : d.annotations = d'.annotations
  associations : d.associations = d'.associations

/-- The records of a diagram without edges, list by list. -/
theorem Diagram.map_unlinked_records (d : Diagram) :
    d.records.map (·.unlinked) =
      (d.startEvents.map (·.unlinked)).map (.ofEvent .startEvent) ++
        (d.endEvents.map (·.unlinked)).map (.ofEvent .endEvent) ++
        (d.tasks.map (·.unlinked)).map .ofTask ++
        (d.serviceTasks.map (·.unlinked)).map .ofServiceTask ++
        (d.gateways.map (·.unlinked)).map .ofGateway := by
  simp only [records, List.map_append, List.map_map]
  rfl

/-! ## Nodes without edges -/

/-- What a node is and does, apart from where it leads. -/
structure Outline where
  id : String
  element : ElementKind
  message : Bool
  text : Option String
deriving DecidableEq, Repr

/-- The outline of a node. -/
def Node.outline (n : Node) : Outline := ⟨n.id, n.kind.element, n.kind.isMessageEvent, n.text⟩

/-- The node of a record has the outline that the record has without its
edges. -/
theorem Diagram.outline_scanRecord_unlinked (d : Diagram) (r : NodeRecord) :
    (d.scanRecord r.unlinked).outline = (d.scanRecord r).outline := by
  obtain ⟨kind, id, name, defaultFlow, outgoing, message, inline⟩ := r
  cases kind <;> rfl

/-- Choosing nodes by a part of their outline keeps outlines the same. -/
theorem map_outline_filter {l l' : List Node} (h : l.map Node.outline = l'.map Node.outline)
    (p : Outline → Bool) :
    (l.filter (p ·.outline)).map Node.outline = (l'.filter (p ·.outline)).map Node.outline := by
  have hfilter : ∀ l : List Node, (l.filter (p ·.outline)).map Node.outline =
      (l.map Node.outline).filter p := fun l => List.filter_map.symm
  rw [hfilter, hfilter, h]

/-- Of nodes with the same outlines, those of the same outlines are kept. -/
theorem Graph.map_outline_firsts {history history' : List Node}
    (h : history.map Node.outline = history'.map Node.outline) :
    (firsts history).map Node.outline = (firsts history').map Node.outline := by
  induction history generalizing history' with
  | nil =>
    rw [List.map_nil, eq_comm, List.map_eq_nil_iff] at h
    rw [h]
  | cons n history ih =>
    cases history' with
    | nil => cases h
    | cons n' history' =>
      obtain ⟨hhead, htail⟩ := List.cons.inj h
      have hid : n.id = n'.id := congrArg Outline.id hhead
      -- A node is dropped because of its name, which its outline keeps.
      have hkept := map_outline_filter (ih htail) (·.id ≠ n.id)
      rw [firsts, firsts, List.map_cons, List.map_cons, hhead, ← hid]
      exact congrArg _ hkept

/-- Diagrams of the same work have nodes of the same outlines. -/
theorem Diagram.SameWork.map_outline_scanned {d d' : Diagram} (h : d.SameWork d') :
    d.scanned.map Node.outline = d'.scanned.map Node.outline := by
  have hrecords : d.records.map (·.unlinked) = d'.records.map (·.unlinked) := by
    rw [map_unlinked_records, map_unlinked_records, h.startEvents, h.endEvents, h.tasks,
      h.serviceTasks, h.gateways]
  have hdrawn : ∀ d : Diagram, d.drawn.map Node.outline =
      (d.records.map (·.unlinked)).map fun r => (d.scanRecord r).outline := fun d => by
    rw [← map_scanRecord_records, List.map_map, List.map_map]
    exact List.map_congr_left fun r _ => (d.outline_scanRecord_unlinked r).symm
  -- A text is found among the record, the lines and the notes.
  have htext : ∀ node inline, d.scanText node inline = d'.scanText node inline := by
    intro node inline
    simp only [scanText, noteName?, noteText?, h.annotations, h.associations]
  refine Graph.map_outline_firsts ?_
  rw [hdrawn, hdrawn, hrecords]
  refine List.map_congr_left fun r hr => ?_
  obtain ⟨r, -, rfl⟩ := List.mem_map.1 hr
  simp only [outline_scanRecord_unlinked]
  obtain ⟨kind, id, name, defaultFlow, outgoing, message, inline⟩ := r
  cases kind <;> simp [scanRecord, Node.outline, NodeRecord.nodeKind, NodeKind.element,
    NodeKind.isMessageEvent, htext]

/-! ## Checks by outline -/

/-- What a node's text has to fit into, and whether it needs one, shows in its
outline. -/
theorem NodeKind.harness?_congr {k k' : NodeKind} (helement : k.element = k'.element)
    (hmessage : k.isMessageEvent = k'.isMessageEvent) :
    k.harness? = k'.harness? ∧ k.isPlainEvent = k'.isPlainEvent := by
  cases k <;> cases k' <;>
    simp_all [element, isMessageEvent, harness?, isPlainEvent]

namespace Validation

variable {n n' : Node}

/-- The check of a node. -/
theorem checkNode_congr (h : n.outline = n'.outline) : checkNode n = checkNode n' := by
  obtain ⟨hid, helement, hmessage, htext⟩ := Outline.mk.inj h
  obtain ⟨hharness, hplain⟩ := NodeKind.harness?_congr helement hmessage
  simp only [checkNode, checkText, Node.expression, hid, helement, htext, hharness, hplain]

/-- The check of a start event. -/
theorem checkStart_congr (h : n.outline = n'.outline) : checkStart n = checkStart n' := by
  obtain ⟨-, -, hmessage, htext⟩ := Outline.mk.inj h
  simp only [checkStart, Node.expression, hmessage, htext]

/-- The check of all nodes. -/
theorem forM_checkNode_congr {l l' : List Node} (h : l.map Node.outline = l'.map Node.outline) :
    l.forM checkNode = l'.forM checkNode := by
  induction l generalizing l' with
  | nil =>
    rw [List.map_nil, eq_comm, List.map_eq_nil_iff] at h
    rw [h]
  | cons n l ih =>
    cases l' with
    | nil => cases h
    | cons n' l' =>
      obtain ⟨hhead, htail⟩ := List.cons.inj h
      simp only [List.forM_eq_forM, List.forM_cons] at ih ⊢
      rw [checkNode_congr hhead, ih htail]

/-- The search for the start event: both fail alike, or both find one. -/
theorem findStart_congr {g g' : Graph}
    (h : g.toList.map Node.outline = g'.toList.map Node.outline) :
    (∃ r, findStart g = .error r ∧ findStart g' = .error r) ∨
      ∃ start start', findStart g = .ok start ∧ findStart g' = .ok start' ∧
        start.outline = start'.outline := by
  have hstarts : g.startEvents.map Node.outline = g'.startEvents.map Node.outline :=
    map_outline_filter h fun o => decide (o.element = .startEvent)
  unfold findStart
  generalize g.startEvents = starts at hstarts
  generalize g'.startEvents = starts' at hstarts
  rcases starts with _ | ⟨a, _ | ⟨b, rest⟩⟩ <;> rcases starts' with _ | ⟨a', _ | ⟨b', rest'⟩⟩ <;>
    simp_all

end Validation

/-! ## Verdicts -/

namespace Diagram

/-- A lenient resolution gives a graph of the nodes that a scan finds. -/
theorem exists_graph_lenient (d : Diagram) :
    ∃ g, d.graph .lenient = .ok g ∧ g.toList = d.scanned := by
  refine ⟨_, (graph_of_meets d.meets_records).2.1, ?_⟩
  rw [Graph.toList_ofNodes, map_scanRecord_records, scanned]

/-- Behind sound nodes and a start event, only the check of that event is left. -/
theorem validate_of_findStart {s : Strictness} {d : Diagram} {g : Graph} {start : Node}
    (hg : d.graph s = .ok g) (hnodes : g.toList.forM Validation.checkNode = .ok ())
    (hfind : Validation.findStart g = .ok start) :
    d.validate s = (Validation.checkStart start).map fun _ => ⟨g, start⟩ := by
  rw [validate_of_graph hg, hnodes, hfind]
  change (Validation.checkStart start >>= fun _ => pure (⟨g, start⟩ : Validated)) = _
  cases Validation.checkStart start <;> rfl

/-- **In a lenient validation the edges do not count.** Two diagrams of the same
work, with whatever flows, are both rejected for the same reason or both accepted.
If they are accepted, their nodes have the same names, kinds, message marks and texts in the
same order, and the same node is the start. -/
theorem validate_lenient_of_sameWork {d d' : Diagram} (h : d.SameWork d') :
    (∃ r, d.validate .lenient = .error r ∧ d'.validate .lenient = .error r) ∨
      ∃ v v', d.validate .lenient = .ok v ∧ d'.validate .lenient = .ok v' ∧
        v.graph.toList.map Node.outline = v'.graph.toList.map Node.outline ∧
        v.start.id = v'.start.id := by
  obtain ⟨g, hg, hlist⟩ := exists_graph_lenient d
  obtain ⟨g', hg', hlist'⟩ := exists_graph_lenient d'
  have hsame : g.toList.map Node.outline = g'.toList.map Node.outline := by
    rw [hlist, hlist', h.map_outline_scanned]
  have hnodes := Validation.forM_checkNode_congr hsame
  cases hok : g'.toList.forM Validation.checkNode with
  | error r =>
    rw [hok] at hnodes
    rw [validate_of_graph hg, validate_of_graph hg', hnodes, hok]
    exact .inl ⟨r, rfl, rfl⟩
  | ok u =>
    rw [hok] at hnodes
    rcases Validation.findStart_congr hsame with
      ⟨r, hfind, hfind'⟩ | ⟨start, start', hfind, hfind', hstart⟩
    · rw [validate_of_graph hg, validate_of_graph hg', hnodes, hok, hfind, hfind']
      exact .inl ⟨r, rfl, rfl⟩
    · rw [validate_of_findStart hg hnodes hfind, validate_of_findStart hg' hok hfind',
        Validation.checkStart_congr hstart]
      cases Validation.checkStart start' with
      | error r => exact .inl ⟨r, rfl, rfl⟩
      | ok u => exact .inr ⟨_, _, rfl, rfl, hsame, congrArg Outline.id hstart⟩

/-- The process of `shipping` with its edges in disorder: a gateway has another name and
lists a flow that leads nowhere, the default flow is on an event, and the flows that exist lead
elsewhere. -/
def disordered : Diagram :=
  { shipping with
    startEvents := shipping.startEvents.map
      ({ · with defaultFlow := some "toPaid", outgoing := ["toPaid", "toPaid"] })
    gateways := shipping.gateways.map
      ({ · with name := some "Check", defaultFlow := none, outgoing := ["gone"] })
    flows := [⟨"toPaid", "Left", "Nowhere"⟩, ⟨"toLabel", "Pack", "Pack"⟩] }

theorem validate_lenient_disordered : shipping.SameWork disordered ∧
    ∃ v v', shipping.validate .lenient = .ok v ∧ disordered.validate .lenient = .ok v' ∧
      v.graph.toList.map Node.outline = v'.graph.toList.map Node.outline ∧
      v.start.id = v'.start.id := by
  have hsame : shipping.SameWork disordered := by constructor <;> rfl
  refine ⟨hsame, (validate_lenient_of_sameWork hsame).resolve_left ?_⟩
  rintro ⟨r, hr, -⟩
  have hok : (shipping.validate .lenient).isOk = true := by decide +kernel
  rw [hr] at hok
  cases hok

end Diagram

end ProcessCompiler
