import Mathlib.Data.List.DropRight
import ProcessCompiler.Proofs.Graph.Faults
import ProcessCompiler.Proofs.Graph.Registry
/-!
# Resolution as a scan of the diagram

Resolution looks flows, lines and notes up in indexes that are built once for
a diagram. What it finds can be said without them: `Diagram.scanned` goes
through the lists of the diagram again for every record, and
`graph_lenient_eq_scanned` says that the graph of a diagram holds exactly
these nodes.

Every function of the resolution has one lemma that gives its result and the
faults it meets in terms of the lists (`meets_resolveText`,
`meets_resolveFlows`, `meets_resolveKind`, `meets_resolveNode`,
`meets_resolveRecords`). Later modules read what a resolution does off these.
-/

namespace ProcessCompiler

open Text

/-! ## Indexes and lists -/

/-- An index that grows by a list keeps its values, and has the first value
of the list for a name that is new. -/
theorem Index.get?_foldl_insertNew {α : Type} (entries : List (String × α)) (i : Index α)
    (name : String) :
    (entries.foldl (fun i (entry : String × α) => i.insertNew entry.1 entry.2) i).get? name =
      (i.get? name).or (entries.lookup name) := by
  induction entries generalizing i with
  | nil => simp
  | cons entry entries ih =>
    obtain ⟨key, value⟩ := entry
    rw [List.foldl_cons, ih, Index.get?_insertNew]
    by_cases hname : name = key
    · subst hname
      cases i.get? name <;> simp
    · have hne : (name == key) = false := by simpa using hname
      simp [hname, hne, List.lookup_cons]

/-- **An index of a list** says of a name what a scan of the list finds
first. -/
theorem Index.get?_ofList_map {α β : Type} (l : List α) (key : α → String) (value : α → β)
    (name : String) :
    (Index.ofList (l.map fun a => (key a, value a))).get? name =
      (l.find? (key · == name)).map value := by
  have hlookup : (l.map fun a => (key a, value a)).lookup name =
      (l.find? (key · == name)).map value := by
    induction l with
    | nil => rfl
    | cons a l ih =>
      by_cases hname : key a = name
      · simp [hname]
      · have hne : (name == key a) = false := by simpa using Ne.symm hname
        simp [List.lookup_cons, hname, hne, ih]
  rw [← hlookup]
  exact Index.get?_foldl_insertNew _ .empty name

/-! ## Trimmed texts -/

namespace Text

/-- Trimming once is enough. -/
theorem trim_trim (s : List Char) : trim (trim s) = trim s := by
  -- The start of a trimmed text is that of the text without its first blanks.
  have hstart : trimStart (trim s) = trim s := by
    rw [trimStart, List.dropWhile_eq_self_iff]
    intro hlen
    have hprefix : trim s <+: trimStart s := List.rdropWhile_prefix isBlank (trimStart s)
    have hlen' : 0 < (trimStart s).length := hlen.trans_le hprefix.length_le
    have hself : (trimStart s).dropWhile isBlank = trimStart s := List.dropWhile_idempotent isBlank s
    have hhead := List.dropWhile_eq_self_iff.1 hself hlen'
    rwa [← hprefix.getElem hlen] at hhead
  rw [trim, hstart]
  exact List.rdropWhile_idempotent isBlank (trimStart s)

/-- A text that holds more than blanks is not empty, and trimmed already. -/
theorem nonBlank?_eq_some {s text : String} (h : nonBlank? s = some text) :
    text ≠ "" ∧ trimmed text = text := by
  simp only [nonBlank?, String.isEmpty_iff] at h
  by_cases hempty : trimmed s = ""
  · simp [hempty] at h
  · rw [if_neg hempty, Option.some.injEq] at h
    refine ⟨h ▸ hempty, ?_⟩
    rw [← h, trimmed, trimmed, String.toList_ofList, trim_trim]

end Text

/-! ## What a scan finds -/

/-- The kind of a record's node, given its default target, which events do
not have. -/
def NodeRecord.nodeKind (r : NodeRecord) (default : Option String) : NodeKind :=
  match r.kind with
  | .startEvent => .startEvent r.message
  | .endEvent => .endEvent r.message
  | .task => .task default
  | .serviceTask => .serviceTask default
  | .exclusiveGateway => .exclusiveGateway default

namespace Diagram

variable (d : Diagram)

/-- Where the first flow of a name leads. -/
def flowTarget? (flow : String) : Option String :=
  (d.flows.find? (·.id == flow)).map (·.target)

/-- The note that the first line from a node leads to. -/
def noteName? (node : String) : Option String :=
  (d.associations.find? (·.source == node)).map (·.target)

/-- What the first note of a name says, if there is one. -/
def noteText? (note : String) : Option (Option String) :=
  (d.annotations.find? (·.id == note)).map (·.text)

/-- The text of a node: its own, or else that of the note it is tied to. -/
def scanText (node : String) (inline : Option String) : Option String :=
  (inline.bind nonBlank?).or do
    let note ← d.noteName? node
    let text ← d.noteText? note
    text.bind nonBlank?

/-- The targets of the flows that are not the default one. -/
def scanOutgoing (default : Option String) (flows : List String) : List String :=
  ((flows.map trimmed).filter (default ≠ some ·)).filterMap d.flowTarget?

/-- The target of the default flow, if the flow is one of the given ones. -/
def scanDefault (default : Option String) (flows : List String) : Option String :=
  default.bind fun flow => if flow ∈ flows.map trimmed then d.flowTarget? flow else none

/-- The node of an event, whose tag counts only if it has a message. -/
def scanEvent (kind : Bool → NodeKind) (e : EventRecord) : Node where
  id := e.id
  name := e.name
  kind := kind e.message.isSome
  text := d.scanText e.id (if e.message.isSome then e.actionType else none)
  outgoing := d.scanOutgoing e.defaultFlow e.outgoing

/-- The node of a task, a service task or a gateway. -/
def scanWork (kind : Option String → NodeKind) (id : String) (name default inline : Option String)
    (flows : List String) : Node where
  id
  name
  kind := kind (d.scanDefault default flows)
  text := d.scanText id inline
  outgoing := d.scanOutgoing default flows

/-- The nodes of all records, list by list. -/
def drawn : List Node :=
  d.startEvents.map (d.scanEvent .startEvent) ++ d.endEvents.map (d.scanEvent .endEvent) ++
    d.tasks.map (fun t => d.scanWork .task t.id t.name t.defaultFlow t.call t.outgoing) ++
    d.serviceTasks.map
      (fun t => d.scanWork .serviceTask t.id t.name t.defaultFlow t.script t.outgoing) ++
    d.gateways.map
      (fun g => d.scanWork .exclusiveGateway g.id g.name g.defaultFlow g.condition g.outgoing)

/-- **The nodes of a diagram, found by scanning**: of the records of one name,
the first. -/
def scanned : List Node := Graph.firsts d.drawn

/-- The node of a record of any list. -/
def scanRecord (r : NodeRecord) : Node where
  id := r.id
  name := r.name
  kind := r.nodeKind (d.scanDefault r.defaultFlow r.outgoing)
  text := d.scanText r.id r.inline
  outgoing := d.scanOutgoing r.defaultFlow r.outgoing

theorem map_scanRecord_records : d.records.map d.scanRecord = d.drawn := by
  have hstart : d.scanRecord ∘ .ofEvent .startEvent = d.scanEvent .startEvent := rfl
  have hend : d.scanRecord ∘ .ofEvent .endEvent = d.scanEvent .endEvent := rfl
  simp only [records, drawn, List.map_append, List.map_map, hstart, hend]
  rfl

/-! ## What is at fault -/

/-- The fault of a record's text: a note that does not exist. -/
def textFaults (r : NodeRecord) : List Fault :=
  match r.inline.bind nonBlank?, d.noteName? r.id with
  | none, some note => if (d.noteText? note).isSome then [] else [.missingNote r.id note]
  | _, _ => []

/-- The faults of a node's flows: those that lead nowhere. -/
def flowFaults (node : String) (flows : List String) : List Fault :=
  ((flows.map trimmed).filter fun flow => (d.flowTarget? flow).isNone).map (.danglingFlow node)

/-- The fault of a record's kind: an event with a default target. -/
def kindFaults (r : NodeRecord) (default : Option String) : List Fault :=
  match r.kind with
  | .startEvent | .endEvent => if default.isSome then [.defaultOnEvent r.id] else []
  | .task | .serviceTask | .exclusiveGateway => []

/-- The faults of a record by itself. -/
def recordFaults (r : NodeRecord) : List Fault :=
  d.textFaults r ++ (d.flowFaults r.id r.outgoing ++
    kindFaults r (d.scanDefault r.defaultFlow r.outgoing))

/-- The faults of some records that are registered behind others: those of each
record by itself, and then that of a name that is taken. -/
def faultsFrom : List NodeRecord → Graph → List Fault
  | [], _ => []
  | r :: rest, g =>
    let later := faultsFrom rest (g.insert (d.scanRecord r)).1
    d.recordFaults r ++ if g.contains r.id then .duplicateNode r.id :: later else later

/-- The faults of a diagram. -/
def faults : List Fault := d.faultsFrom d.records .empty

end Diagram

/-! ## The functions of the resolution -/

namespace Resolution

variable (d : Diagram) (r : NodeRecord)

theorem get?_targets (flow : String) : (indexes d).targets.get? flow = d.flowTarget? flow :=
  Index.get?_ofList_map d.flows (·.id) (·.target) flow

theorem get?_notes (node : String) : (indexes d).notes.get? node = d.noteName? node :=
  Index.get?_ofList_map d.associations (·.source) (·.target) node

theorem get?_texts (note : String) : (indexes d).texts.get? note = d.noteText? note :=
  Index.get?_ofList_map d.annotations (·.id) (·.text) note

/-- Finding a record's text. -/
theorem meets_resolveText :
    Meets (resolveText · (indexes d) r) (d.scanText r.id r.inline) (d.textFaults r) := by
  simp only [resolveText, Diagram.scanText, Diagram.textFaults, get?_notes, get?_texts]
  cases r.inline.bind nonBlank? with
  | some text => exact .pure _
  | none =>
    cases d.noteName? r.id with
    | none => exact .pure _
    | some note =>
      simp only [Option.none_or, Option.bind_eq_bind, Option.bind_some]
      cases d.noteText? note with
      | some text => exact .pure _
      | none => exact (meets_degrade _).bind (.pure _)

/-- A flow that leads nowhere is passed over. -/
theorem scan_cons_of_none {flow : String} (default : Option String) (flows : List String)
    (h : d.flowTarget? (trimmed flow) = none) :
    d.scanOutgoing default (flow :: flows) = d.scanOutgoing default flows ∧
      d.scanDefault default (flow :: flows) = d.scanDefault default flows := by
  constructor
  · by_cases hdefault : default = some (trimmed flow)
    · simp [Diagram.scanOutgoing, hdefault]
    · simp [Diagram.scanOutgoing, hdefault, h]
  · cases default with
    | none => simp [Diagram.scanDefault]
    | some name =>
      by_cases hname : name = trimmed flow
      · simp [Diagram.scanDefault, hname, h]
      · simp [Diagram.scanDefault, hname]

/-- The default flow gives the default target, however often it is listed. -/
theorem scan_cons_of_default {flow target : String} (flows : List String)
    (h : d.flowTarget? (trimmed flow) = some target) :
    d.scanOutgoing (some (trimmed flow)) (flow :: flows) =
        d.scanOutgoing (some (trimmed flow)) flows ∧
      d.scanDefault (some (trimmed flow)) (flow :: flows) =
        (d.scanDefault (some (trimmed flow)) flows).or (some target) := by
  constructor
  · simp [Diagram.scanOutgoing]
  · simp only [Diagram.scanDefault, Option.bind_some, List.map_cons, List.mem_cons, true_or, if_true,
      h]
    by_cases hmem : trimmed flow ∈ flows.map trimmed
    · rw [if_pos hmem, Option.some_or]
    · rw [if_neg hmem, Option.none_or]

/-- Any other flow gives an ordinary target. -/
theorem scan_cons_of_ne {default : Option String} {flow target : String} (flows : List String)
    (h : d.flowTarget? (trimmed flow) = some target) (hdefault : default ≠ some (trimmed flow)) :
    d.scanOutgoing default (flow :: flows) = target :: d.scanOutgoing default flows ∧
      d.scanDefault default (flow :: flows) = d.scanDefault default flows := by
  constructor
  · simp [Diagram.scanOutgoing, hdefault, h]
  · cases default with
    | none => simp [Diagram.scanDefault]
    | some name =>
      have hname : name ≠ trimmed flow := fun heq => hdefault (heq ▸ rfl)
      simp [Diagram.scanDefault, hname]

/-- Following a record's flows. A flow that leads nowhere is met before
those behind it. -/
theorem meets_resolveFlows (flows : List String) :
    Meets (resolveFlows · (indexes d) r flows)
      (d.scanOutgoing r.defaultFlow flows, d.scanDefault r.defaultFlow flows)
      (d.flowFaults r.id flows) := by
  induction flows with
  | nil =>
    have hdefault : d.scanDefault r.defaultFlow [] = none := by
      cases hflow : r.defaultFlow <;> simp [Diagram.scanDefault]
    rw [hdefault]
    exact .pure _
  | cons flow rest ih =>
    simp only [resolveFlows, get?_targets]
    cases htarget : d.flowTarget? (trimmed flow) with
    | none =>
      have hfaults : d.flowFaults r.id (flow :: rest) =
          [.danglingFlow r.id (trimmed flow)] ++ d.flowFaults r.id rest := by
        simp [Diagram.flowFaults, htarget]
      obtain ⟨houtgoing, hdefault⟩ := scan_cons_of_none d r.defaultFlow rest htarget
      rw [houtgoing, hdefault, hfaults]
      exact (meets_degrade _).bind ih
    | some target =>
      have hfaults : d.flowFaults r.id (flow :: rest) = d.flowFaults r.id rest ++ [] := by
        simp [Diagram.flowFaults, htarget]
      rw [hfaults]
      by_cases hflow : r.defaultFlow = some (trimmed flow)
      · obtain ⟨houtgoing, hdefault⟩ := scan_cons_of_default d rest htarget
        rw [hflow] at ih ⊢
        rw [houtgoing, hdefault]
        simp only [if_true]
        exact ih.bind (.pure _)
      · obtain ⟨houtgoing, hdefault⟩ := scan_cons_of_ne d rest htarget hflow
        rw [houtgoing, hdefault]
        simp only [if_neg hflow]
        exact ih.bind (.pure _)

/-- Finding the kind of a record's node. -/
theorem meets_resolveKind (default : Option String) :
    Meets (resolveKind · r default) (r.nodeKind default) (Diagram.kindFaults r default) := by
  simp only [resolveKind, NodeRecord.nodeKind, Diagram.kindFaults]
  cases r.kind with
  | startEvent => exact (Meets.pure (NodeKind.startEvent r.message)).degrade_if _ _
  | endEvent => exact (Meets.pure (NodeKind.endEvent r.message)).degrade_if _ _
  | task => exact .pure _
  | serviceTask => exact .pure _
  | exclusiveGateway => exact .pure _

/-- **A record**: the faults of its text come first, then those of its
flows, then that of its kind. -/
theorem meets_resolveNode :
    Meets (resolveNode · (indexes d) r) (d.scanRecord r) (d.recordFaults r) := by
  have hfaults : d.recordFaults r = d.textFaults r ++ (d.flowFaults r.id r.outgoing ++
      (Diagram.kindFaults r (d.scanDefault r.defaultFlow r.outgoing) ++ [])) := by
    rw [List.append_nil, Diagram.recordFaults]
  rw [hfaults]
  exact (meets_resolveText d r).bind ((meets_resolveFlows d r r.outgoing).bind
    ((meets_resolveKind r _).bind (.pure _)))

/-- **All records**: the graph grows by one node a record, and a name that
is taken is met behind the faults of the record itself. -/
theorem meets_resolveRecords (rs : List NodeRecord) (g : Graph) :
    Meets (resolveRecords · (indexes d) rs g)
      ((rs.map d.scanRecord).foldl (fun g n => (g.insert n).1) g) (d.faultsFrom rs g) := by
  induction rs generalizing g with
  | nil => exact .pure g
  | cons r rest ih =>
    have hinsert : (!(g.insert (d.scanRecord r)).2) = g.contains r.id := by
      have hid : (d.scanRecord r).id = r.id := rfl
      cases hc : g.contains r.id <;> simp [Graph.insert, hid, hc]
    rw [Diagram.faultsFrom, ← hinsert]
    exact (meets_resolveNode d r).bind ((ih _).degrade_if _ _)

end Resolution

/-! ## Diagrams -/

namespace Diagram

open Resolution

variable (d : Diagram)

/-- **A diagram**: the nodes of its records are registered one after another,
and its faults are met on the way. -/
theorem meets_records :
    Meets (resolveRecords · (indexes d) d.records .empty)
      (Graph.ofNodes (d.records.map d.scanRecord)) d.faults :=
  meets_resolveRecords d d.records .empty

variable {d}

/-- A text that a scan finds is not empty, and trimmed. -/
theorem scanText_eq_some {node text : String} {inline : Option String}
    (h : d.scanText node inline = some text) : text ≠ "" ∧ trimmed text = text := by
  rw [scanText, Option.or_eq_some_iff] at h
  rcases h with hinline | ⟨-, hnote⟩
  · obtain ⟨own, -, hown⟩ := Option.bind_eq_some_iff.1 hinline
    exact nonBlank?_eq_some hown
  · obtain ⟨note, -, hnote⟩ := Option.bind_eq_some_iff.1 hnote
    obtain ⟨text?, -, htext⟩ := Option.bind_eq_some_iff.1 hnote
    obtain ⟨given, -, hgiven⟩ := Option.bind_eq_some_iff.1 htext
    exact nonBlank?_eq_some hgiven

/-- A node that a scan finds is the node of a record. -/
theorem exists_record_of_mem_scanned {n : Node} (hn : n ∈ d.scanned) :
    ∃ r ∈ d.records, d.scanRecord r = n := by
  have hdrawn : n ∈ d.records.map d.scanRecord := by
    rw [map_scanRecord_records]
    exact (Graph.firsts_sublist d.drawn).subset hn
  exact List.mem_map.1 hdrawn

/-- The text of a node that a scan finds is not empty, and trimmed. -/
theorem text_of_mem_scanned {n : Node} (hn : n ∈ d.scanned) {text : String}
    (htext : n.text = some text) : text ≠ "" ∧ trimmed text = text := by
  obtain ⟨r, -, rfl⟩ := exists_record_of_mem_scanned hn
  exact scanText_eq_some htext

/-- **Resolution by indexes is resolution by scanning.** The lenient resolution
of every diagram registers the nodes that a scan finds, and no others: they are
listed in the order of the scan, and looking a name up finds what the scan
finds first. The text of a node is never blank and has no blanks at its ends,
so reading it changes nothing. -/
theorem graph_lenient_eq_scanned (d : Diagram) :
    d.graph .lenient = .ok (.ofNodes d.scanned) ∧
      (Graph.ofNodes d.scanned).toList = d.scanned ∧
      (∀ id, (Graph.ofNodes d.scanned).get? id = d.scanned.find? (·.id == id)) ∧
      ∀ n ∈ d.scanned, n.expression = n.text ∧
        ∀ text, n.text = some text → text ≠ "" ∧ trimmed text = text := by
  have hlist : (Graph.ofNodes d.scanned).toList = d.scanned := by
    rw [Graph.toList_ofNodes, scanned, Graph.firsts_firsts]
  refine ⟨?_, hlist, ?_, ?_⟩
  · rw [graph, resolve, d.meets_records.lenient, scanned, Graph.ofNodes_firsts,
      map_scanRecord_records]
    rfl
  · intro id
    rw [(Graph.filed_ofNodes d.scanned).get?_eq_find?, hlist]
  · intro n hn
    refine ⟨?_, fun text htext => text_of_mem_scanned hn htext⟩
    cases htext : n.text with
    | none => rw [Node.expression, htext, Option.bind_none]
    | some text =>
      obtain ⟨hne, htrimmed⟩ := text_of_mem_scanned hn htext
      rw [Node.expression, htext, Option.bind_some, nonBlank?, htrimmed,
        if_neg (by simpa using hne)]

/-- A diagram in which every rule of resolution is at work: a tag without a
message, a default flow on an event, a text of blanks, a note and a flow that
exist twice, a default flow that is listed twice, a flow that leads nowhere,
and two records of one name. -/
def tangled : Diagram :=
  { Diagram.empty with
    startEvents := [⟨"Start", none, some "again", some "@a/b", none, ["go", "again"]⟩]
    tasks := [⟨"Work", none, some "fail", some " \n", ["go", " fail", "fail", "gone", "again "]⟩,
      ⟨"Work", some "second", none, some "y", []⟩]
    flows := [⟨"go", "Start", "Work"⟩, ⟨"fail", "Work", "Start"⟩, ⟨"go", "Work", "End"⟩,
      ⟨"again", "Work", "Work"⟩]
    annotations := [⟨"note", some " x; "⟩, ⟨"note", some "z"⟩]
    associations := [⟨none, "Work", "note"⟩, ⟨none, "Work", "gone"⟩] }

theorem graph_lenient_eq_scanned_tangled :
    tangled.scanned = [⟨"Start", none, .startEvent false, none, ["Work"]⟩,
      ⟨"Work", none, .task (some "Start"), some "x;", ["Work", "Work"]⟩] ∧
    tangled.graph .lenient = .ok (.ofNodes tangled.scanned) ∧
    ∃ n ∈ tangled.scanned, n.expression = some "x;" := by
  have hscanned : tangled.scanned = [⟨"Start", none, .startEvent false, none, ["Work"]⟩,
      ⟨"Work", none, .task (some "Start"), some "x;", ["Work", "Work"]⟩] := by decide +kernel
  have hmem : (⟨"Work", none, .task (some "Start"), some "x;", ["Work", "Work"]⟩ : Node) ∈
      tangled.scanned := by
    rw [hscanned]
    simp
  obtain ⟨hgraph, -, -, htext⟩ := graph_lenient_eq_scanned tangled
  exact ⟨hscanned, hgraph, _, hmem, (htext _ hmem).1⟩

end Diagram

end ProcessCompiler
