import ProcessCompiler.Proofs.Graph.Scanning
import ProcessCompiler.Proofs.Program.NameTable
/-!
# Diagrams that grow

A record that is added to one of the five lists of a diagram adds one node to
its graph, if its name is new. The node stands behind those of its own list and
before those of the later ones, and no other node changes or moves
(`grows_of_fresh`). Names are given in the order of the nodes, so a node that
stands before the new one is called what it was called without it. A node that
stands behind it may lose its name.
-/

namespace ProcessCompiler

namespace ElementKind

/-- The place of a kind in the order in which nodes are registered. -/
def place (kind : ElementKind) : Nat := all.idxOf kind

/-- Every kind has its place, between the earlier and the later ones. -/
theorem exists_all_eq (kind : ElementKind) : ∃ earlier later, all = earlier ++ kind :: later ∧
    (∀ k ∈ earlier, k.place < kind.place) ∧ ∀ k ∈ later, kind.place < k.place :=
  ⟨all.take kind.place, all.drop (kind.place + 1), by cases kind <;> decide⟩

end ElementKind

/-- A record together with the list that it belongs to. -/
inductive Addition where
  | startEvent (e : EventRecord)
  | endEvent (e : EventRecord)
  | task (t : TaskRecord)
  | serviceTask (t : ServiceTaskRecord)
  | gateway (g : GatewayRecord)
deriving DecidableEq, Repr

/-- What a record says, whichever list it belongs to. -/
def Addition.record : Addition → NodeRecord
  | startEvent e => .ofEvent .startEvent e
  | endEvent e => .ofEvent .endEvent e
  | task t => .ofTask t
  | serviceTask t => .ofServiceTask t
  | gateway g => .ofGateway g

/-- The diagram with one more record, at the end of its list. -/
def Diagram.add (d : Diagram) : Addition → Diagram
  | .startEvent e => { d with startEvents := d.startEvents ++ [e] }
  | .endEvent e => { d with endEvents := d.endEvents ++ [e] }
  | .task t => { d with tasks := d.tasks ++ [t] }
  | .serviceTask t => { d with serviceTasks := d.serviceTasks ++ [t] }
  | .gateway g => { d with gateways := d.gateways ++ [g] }

/-! ## Records and nodes -/

/-- The node of a record is drawn as the record's kind says. -/
theorem NodeRecord.element_nodeKind (r : NodeRecord) (default : Option String) :
    (r.nodeKind default).element = r.kind := by
  unfold NodeRecord.nodeKind
  cases r.kind <;> rfl

namespace Diagram

variable (d : Diagram) (a : Addition)

/-- The node of a record depends on the flows, the notes and the lines only,
which an added record leaves alone. -/
theorem scanRecord_add : (d.add a).scanRecord = d.scanRecord := by
  cases a <;> rfl

/-- The records of one of the lists. -/
def recordsOf : ElementKind → List NodeRecord
  | .startEvent => d.startEvents.map (.ofEvent .startEvent)
  | .endEvent => d.endEvents.map (.ofEvent .endEvent)
  | .task => d.tasks.map .ofTask
  | .serviceTask => d.serviceTasks.map .ofServiceTask
  | .exclusiveGateway => d.gateways.map .ofGateway

theorem records_eq_flatMap : d.records = ElementKind.all.flatMap d.recordsOf := by
  simp [records, ElementKind.all, recordsOf]

/-- A list holds records of its own kind only. -/
theorem kind_of_mem_recordsOf {d : Diagram} {kind : ElementKind} {r : NodeRecord}
    (h : r ∈ d.recordsOf kind) : r.kind = kind := by
  cases kind <;> (obtain ⟨_, -, rfl⟩ := List.mem_map.1 h; rfl)

/-- The list of an added record grows by it. -/
theorem recordsOf_add_kind :
    (d.add a).recordsOf a.record.kind = d.recordsOf a.record.kind ++ [a.record] := by
  cases a <;> exact List.map_append

/-- The other lists stay as they are. -/
theorem recordsOf_add_of_ne {kind : ElementKind} (h : kind ≠ a.record.kind) :
    (d.add a).recordsOf kind = d.recordsOf kind := by
  cases a <;> cases kind <;> first | rfl | exact absurd rfl h

/-- **The place of an added record** is behind its own list and before the
later ones. -/
theorem exists_records_add : ∃ front back, d.records = front ++ back ∧
    (d.add a).records = front ++ a.record :: back ∧
    (∀ r ∈ front, r.kind.place ≤ a.record.kind.place) ∧
    ∀ r ∈ back, a.record.kind.place < r.kind.place := by
  obtain ⟨earlier, later, hall, hearlier, hlater⟩ := a.record.kind.exists_all_eq
  have hsame : ∀ kinds : List ElementKind, a.record.kind ∉ kinds →
      kinds.flatMap (d.add a).recordsOf = kinds.flatMap d.recordsOf := fun kinds hkinds =>
    List.flatMap_congr fun kind hkind =>
      recordsOf_add_of_ne d a fun heq => hkinds (heq ▸ hkind)
  refine ⟨earlier.flatMap d.recordsOf ++ d.recordsOf a.record.kind, later.flatMap d.recordsOf,
    ?_, ?_, ?_, ?_⟩
  · rw [records_eq_flatMap, hall, List.flatMap_append, List.flatMap_cons, List.append_assoc]
  · rw [records_eq_flatMap, hall, List.flatMap_append, List.flatMap_cons, recordsOf_add_kind,
      hsame earlier fun h => lt_irrefl _ (hearlier _ h),
      hsame later fun h => lt_irrefl _ (hlater _ h)]
    simp only [List.append_assoc, List.singleton_append]
  · intro r hr
    rcases List.mem_append.1 hr with hr | hr
    · obtain ⟨kind, hkind, hr⟩ := List.mem_flatMap.1 hr
      exact kind_of_mem_recordsOf hr ▸ (hearlier kind hkind).le
    · exact (congrArg ElementKind.place (kind_of_mem_recordsOf hr)).le
  · intro r hr
    obtain ⟨kind, hkind, hr⟩ := List.mem_flatMap.1 hr
    exact kind_of_mem_recordsOf hr ▸ hlater kind hkind

end Diagram

/-! ## The nodes that are kept -/

namespace Graph

/-- Of two histories in a row the second one keeps the nodes that are new. -/
theorem firsts_append (front back : List Node) :
    firsts (front ++ back) =
      firsts front ++ (firsts back).filter (·.id ∉ front.map (·.id)) := by
  induction front with
  | nil => simp [firsts]
  | cons n front ih =>
    rw [List.cons_append, firsts, ih, firsts, List.cons_append, List.filter_append,
      List.filter_filter]
    congr 2
    refine List.filter_congr fun m _ => ?_
    simp only [List.map_cons, List.mem_cons, not_or, Bool.decide_and]

/-- **A node of a new name is kept where it stands**, and the others are kept
as without it. -/
theorem firsts_insert {front back : List Node} {n : Node}
    (h : n.id ∉ (front ++ back).map (·.id)) :
    ∃ after, firsts (front ++ back) = firsts front ++ after ∧
      firsts (front ++ n :: back) = firsts front ++ n :: after ∧ after.Sublist back := by
  rw [List.map_append, List.mem_append, not_or] at h
  -- No node behind the new one shares its name, so none is dropped for it.
  have hback : (firsts back).filter (·.id ≠ n.id) = firsts back := by
    refine List.filter_eq_self.2 fun m hm => decide_eq_true fun heq => h.2 ?_
    exact heq ▸ List.mem_map.2 ⟨m, (firsts_sublist back).subset hm, rfl⟩
  refine ⟨(firsts back).filter (·.id ∉ front.map (·.id)), firsts_append front back, ?_,
    List.filter_sublist.trans (firsts_sublist back)⟩
  rw [firsts_append, firsts, hback, List.filter_cons_of_pos (by simpa using h.1)]

end Graph

/-! ## The names that are given -/

/-- What the first procedures of a program are called, and whose they are. -/
def Program.opening (p : Program) (count : Nat) : List (String × String) :=
  (p.procedures.take count).map fun q => (q.nodeId, q.name)

/-- The first procedures are called after the table of the nodes they are of,
whatever nodes come later. -/
theorem Graph.opening_lower {g : Graph} {front back : List Node} (hfiled : g.Filed)
    (h : g.toList = front ++ back) (start : Node) (config : EmitConfig) :
    (g.lower start config).opening front.length =
      front.map fun n => (n.id, (Names.tableOf config.entryName front).nameOf n.id) := by
  have hnodup := hfiled.ids_nodup
  rw [h, List.map_append, List.nodup_append'] at hnodup
  rw [Program.opening, lower_procedures, ← List.map_take, h, List.take_left, List.map_map]
  refine List.map_congr_left fun n hn => ?_
  have hnew : n.id ∉ back.map (·.id) :=
    List.disjoint_left.1 hnodup.2.2 (List.mem_map.2 ⟨n, hn, rfl⟩)
  simp only [Function.comp_apply, Lowering.procedure, nameTable, h,
    Names.nameOf_tableOf_append_left config.entryName front back hnew]

/-! ## Growth -/

/-- **A graph grows by one node** if that node stands behind those of its kind
and of the earlier ones and before those of the later ones, and all others are
as they were. The procedures before that of the new node keep their names,
however the two graphs are lowered. -/
structure Graph.Grows (g g' : Graph) (n : Node) (before after : List Node) : Prop where
  nodes : g.toList = before ++ after
  nodes' : g'.toList = before ++ n :: after
  earlier : ∀ m ∈ before, m.kind.element.place ≤ n.kind.element.place
  later : ∀ m ∈ after, n.kind.element.place < m.kind.element.place
  names : ∀ (config : EmitConfig) (start start' : Node),
    (g'.lower start' config).opening before.length = (g.lower start config).opening before.length

namespace Diagram

/-- **Adding a record is local.** If no record of the diagram has its name, the
graph of the diagram grows by the node of the record. -/
theorem grows_of_fresh (d : Diagram) (a : Addition) (h : ∀ r ∈ d.records, r.id ≠ a.record.id) :
    ∃ g g' before after, d.graph .lenient = .ok g ∧ (d.add a).graph .lenient = .ok g' ∧
      g.Grows g' (d.scanRecord a.record) before after := by
  obtain ⟨front, back, hrecords, hadd, hfront, hback⟩ := exists_records_add d a
  obtain ⟨hgraph, hlist, -, -⟩ := graph_lenient_eq_scanned d
  obtain ⟨hgraph', hlist', -, -⟩ := graph_lenient_eq_scanned (d.add a)
  have hfresh : (d.scanRecord a.record).id ∉
      (front.map d.scanRecord ++ back.map d.scanRecord).map (·.id) := by
    rw [← List.map_append, ← hrecords, List.map_map]
    intro hmem
    obtain ⟨r, hr, hid⟩ := List.mem_map.1 hmem
    exact h r hr hid
  obtain ⟨after, hold, hnew, hafter⟩ := Graph.firsts_insert hfresh
  have hnodes : (Graph.ofNodes d.scanned).toList =
      Graph.firsts (front.map d.scanRecord) ++ after := by
    rw [hlist, scanned, ← map_scanRecord_records, hrecords, List.map_append, hold]
  have hnodes' : (Graph.ofNodes (d.add a).scanned).toList =
      Graph.firsts (front.map d.scanRecord) ++ d.scanRecord a.record :: after := by
    rw [hlist', scanned, ← map_scanRecord_records, hadd, scanRecord_add, List.map_append,
      List.map_cons, hnew]
  have helement : ∀ r, (d.scanRecord r).kind.element = r.kind := fun r => r.element_nodeKind _
  refine ⟨_, _, _, after, hgraph, hgraph', hnodes, hnodes', ?_, ?_, ?_⟩
  · intro m hm
    obtain ⟨r, hr, rfl⟩ := List.mem_map.1 ((Graph.firsts_sublist _).subset hm)
    rw [helement, helement]
    exact hfront r hr
  · intro m hm
    obtain ⟨r, hr, rfl⟩ := List.mem_map.1 (hafter.subset hm)
    rw [helement, helement]
    exact hback r hr
  · intro config start start'
    rw [Graph.opening_lower (Graph.filed_ofNodes _) hnodes' start' config,
      Graph.opening_lower (Graph.filed_ofNodes _) hnodes start config]

/-- A diagram with two tasks of one name, whose gateway is called like what an
end event will be called. -/
def repeating : Diagram :=
  { Diagram.empty with
    startEvents := [⟨"Start", none, none, none, none, ["go"]⟩]
    tasks := [⟨"Work", none, none, some "x", []⟩, ⟨"Work", some "second", none, some "y", []⟩]
    gateways := [⟨"a_b", none, none, some "x", []⟩]
    flows := [⟨"go", "Start", "a-b"⟩] }

theorem grows_of_fresh_repeating :
    (∀ r ∈ repeating.records, r.id ≠ "a-b") ∧
      ∃ g g' before after, repeating.graph .lenient = .ok g ∧
        (repeating.add (.endEvent ⟨"a-b", none, none, none, none, []⟩)).graph .lenient = .ok g' ∧
        g.Grows g' ⟨"a-b", none, .endEvent false, none, []⟩ before after :=
  have hfresh : ∀ r ∈ repeating.records, r.id ≠ "a-b" := by decide
  ⟨hfresh, grows_of_fresh repeating (.endEvent ⟨"a-b", none, none, none, none, []⟩) hfresh⟩

end Diagram

end ProcessCompiler
