import ProcessCompiler.Proofs.Graph.Strictness
import ProcessCompiler.Proofs.Reordered
/-!
# The order of flows, notes and lines

Resolution looks flows, notes and lines up by name and takes the first of a
name. So their order counts only among those of one name, and
`Diagram.Rearranged` says that two diagrams differ in no other way, apart from
what resolution never reads. What a scan finds is then the same
(`Reordered.find?_eq`), and so is all that follows from it
(`resolve_of_rearranged`).
-/

namespace ProcessCompiler

open Text

/-! ## Look-ups and computations -/

/-- Looking a value up by scanning a list of pairs. -/
theorem find?_map_pair {α β : Type} (l : List α) (key : α → String) (value : α → β)
    (name : String) :
    ((l.map fun a => (key a, value a)).find? (·.1 == name)).map (·.2) =
      (l.find? (key · == name)).map value := by
  rw [List.find?_map, Option.map_map]
  rfl

/-- Computations that meet the same run the same. -/
theorem Resolution.Meets.run_eq {α : Type} {m m' : Strictness → Resolve α} {a : α}
    {faults : List Fault} (h : Meets m a faults) (h' : Meets m' a faults) (s : Strictness)
    (log : List Fault) : (m s).run log = (m' s).run log := by
  cases s with
  | lenient => rw [h.lenient, h'.lenient]
  | strict => rw [h.strict, h'.strict]

/-! ## Diagrams in another order -/

/-- The event with a message that has no name, if it has one. -/
def EventRecord.unsigned (e : EventRecord) : EventRecord :=
  { e with message := e.message.map fun _ => ⟨none⟩ }

/-- **A diagram rearranged.** The records of nodes are the same, but for the
names of message definitions. Flows, notes and lines are in another order that
keeps the first of each name, that is of each node for lines. Where flows
begin, what lines are called and what the process is called is left open. -/
structure Diagram.Rearranged (d d' : Diagram) : Prop where
  startEvents : d.startEvents.map (·.unsigned) = d'.startEvents.map (·.unsigned)
  endEvents : d.endEvents.map (·.unsigned) = d'.endEvents.map (·.unsigned)
  tasks : d.tasks = d'.tasks
  serviceTasks : d.serviceTasks = d'.serviceTasks
  gateways : d.gateways = d'.gateways
  flows : Reordered (·.1) (d.flows.map fun f => (f.id, f.target))
    (d'.flows.map fun f => (f.id, f.target))
  annotations : Reordered (·.1) (d.annotations.map fun a => (a.id, a.text))
    (d'.annotations.map fun a => (a.id, a.text))
  associations : Reordered (·.1) (d.associations.map fun a => (a.source, a.target))
    (d'.associations.map fun a => (a.source, a.target))

namespace Diagram

/-- The record of an event does not show what its message is called. -/
theorem map_ofEvent_congr {l l' : List EventRecord}
    (h : l.map (·.unsigned) = l'.map (·.unsigned)) (kind : ElementKind) :
    l.map (NodeRecord.ofEvent kind) = l'.map (NodeRecord.ofEvent kind) := by
  have hunsigned : ∀ l : List EventRecord,
      l.map (NodeRecord.ofEvent kind) = (l.map (·.unsigned)).map (.ofEvent kind) := fun l => by
    rw [List.map_map]
    refine List.map_congr_left fun e _ => ?_
    simp [NodeRecord.ofEvent, EventRecord.unsigned]
  rw [hunsigned l, hunsigned l', h]

namespace Rearranged

variable {d d' : Diagram} (h : d.Rearranged d')
include h

theorem records_eq : d.records = d'.records := by
  rw [records, map_ofEvent_congr h.startEvents, map_ofEvent_congr h.endEvents, h.tasks,
    h.serviceTasks, h.gateways, records]

theorem flowTarget?_eq : d.flowTarget? = d'.flowTarget? := by
  funext flow
  rw [flowTarget?, ← find?_map_pair, h.flows.find?_eq, find?_map_pair, flowTarget?]

theorem noteName?_eq : d.noteName? = d'.noteName? := by
  funext node
  rw [noteName?, ← find?_map_pair, h.associations.find?_eq, find?_map_pair, noteName?]

theorem noteText?_eq : d.noteText? = d'.noteText? := by
  funext note
  rw [noteText?, ← find?_map_pair, h.annotations.find?_eq, find?_map_pair, noteText?]

/-- A record becomes the same node. -/
theorem scanRecord_eq : d.scanRecord = d'.scanRecord := by
  funext r
  simp only [scanRecord, scanDefault, scanText, scanOutgoing, h.flowTarget?_eq, h.noteName?_eq,
    h.noteText?_eq]

/-- A record has the same faults. -/
theorem recordFaults_eq : d.recordFaults = d'.recordFaults := by
  funext r
  simp only [recordFaults, textFaults, flowFaults, scanDefault, h.flowTarget?_eq, h.noteName?_eq,
    h.noteText?_eq]

/-- The same faults are met, in the same order. -/
theorem faults_eq : d.faults = d'.faults := by
  have hfrom : ∀ rs g, d.faultsFrom rs g = d'.faultsFrom rs g := by
    intro rs
    induction rs with
    | nil => exact fun _ => rfl
    | cons r rest ih =>
      intro g
      rw [faultsFrom, faultsFrom, h.scanRecord_eq, h.recordFaults_eq, ih]
  rw [faults, faults, hfrom, h.records_eq]

/-- The resolution is the same, with what it passes over. -/
theorem resolve_eq (s : Strictness) : d.resolve s = d'.resolve s := by
  have hmeets := d.meets_records
  rw [h.scanRecord_eq, h.faults_eq, congrArg (List.map _) h.records_eq] at hmeets
  exact hmeets.run_eq d'.meets_records s []

end Rearranged

/-- **The order of flows, notes and lines does not count** where their names
differ. Of two diagrams that differ in nothing else, a resolution of either kind gives
the same graph and passes over the same faults in the same order, or ends with
the same fault. It reports the same but for the name of the process, and the
program is the same text, with and without validation. -/
theorem resolve_of_rearranged {d d' : Diagram} (h : d.Rearranged d') (s : Strictness) :
    d.resolve s = d'.resolve s ∧ d.graph s = d'.graph s ∧
      { d with id := d'.id }.resolveNotices s = d'.resolveNotices s ∧
      ∀ config, (d.validate s).map (·.emit config) = (d'.validate s).map (·.emit config) ∧
        d.emitUnchecked s config = d'.emitUnchecked s config := by
  have hresolve := h.resolve_eq s
  have hgraph : d.graph s = d'.graph s := by rw [graph, graph, hresolve]
  have hrenamed : { d with id := d'.id }.resolve s = d'.resolve s := hresolve
  refine ⟨hresolve, hgraph, ?_, fun config => ⟨?_, ?_⟩⟩
  · rw [resolveNotices, resolveNotices, hrenamed]
  · rw [validate, validate, hgraph]
  · rw [emitUnchecked, emitUnchecked, hgraph]

/-- The diagram of `tangled` with its flows in another order. The two flows of
one name keep theirs. -/
def retangled : Diagram :=
  { tangled with
    id := some "Process"
    flows := [⟨"again", "Start", "Work"⟩, ⟨"go", "Work", "Work"⟩, ⟨"fail", "Start", "Start"⟩,
      ⟨"go", "Start", "End"⟩]
    associations := tangled.associations.map ({ · with id := some "Line" }) }

theorem resolve_retangled : tangled.Rearranged retangled ∧
    tangled.resolve .lenient = retangled.resolve .lenient ∧
    tangled.graph .strict = retangled.graph .strict := by
  have hrearranged : tangled.Rearranged retangled :=
    { startEvents := rfl
      endEvents := rfl
      tasks := rfl
      serviceTasks := rfl
      gateways := rfl
      flows := ⟨by decide, by decide⟩
      annotations := ⟨by decide, by decide⟩
      associations := ⟨by decide, by decide⟩ }
  exact ⟨hrearranged, (resolve_of_rearranged hrearranged .lenient).1,
    (resolve_of_rearranged hrearranged .strict).2.1⟩

end Diagram

end ProcessCompiler
