import ProcessCompiler.Notice
import ProcessCompiler.Proofs.Graph.Scanning
/-!
# Strict and lenient resolution

The two ways of resolving a diagram differ only in what a fault does. What a
diagram meets (`Diagram.exists_meets`) settles both: a strict resolution that
succeeds is the lenient one, and so are all later stages. It succeeds only on
a diagram without faults, whose records all become nodes
(`toList_of_graph_strict`).
-/

namespace ProcessCompiler

open Text

/-- An event that is not at fault has no default target to lose. -/
theorem NodeRecord.defaultTarget_nodeKind {r : NodeRecord} {default : Option String}
    (h : Diagram.kindFaults r default = []) : (r.nodeKind default).defaultTarget = default := by
  unfold Diagram.kindFaults at h
  unfold NodeRecord.nodeKind
  cases hkind : r.kind with
  | startEvent | endEvent =>
    rw [hkind] at h
    cases default with
    | none => rfl
    | some target => cases h
  | task | serviceTask | exclusiveGateway => rfl

namespace Diagram

open Resolution

/-- **A diagram** resolves, if leniently, to a graph of registered nodes. -/
theorem exists_meets (d : Diagram) : ∃ nodes faults,
    Meets (resolveRecords · (indexes d) d.records .empty) (Graph.ofNodes nodes) faults :=
  ⟨_, _, d.meets_records⟩

/-- The lenient graph, and how the strict resolution ends, from what the
diagram meets. -/
theorem graph_of_meets {d : Diagram} {g : Graph} {faults : List Fault}
    (h : Meets (resolveRecords · (indexes d) d.records .empty) g faults) :
    d.resolve .lenient = .ok (g, faults) ∧ d.graph .lenient = .ok g ∧
      d.graph .strict = (ending g [] faults).map (·.1) := by
  have hlenient : d.resolve .lenient = .ok (g, faults) := h.lenient []
  refine ⟨hlenient, by rw [graph, hlenient]; rfl, ?_⟩
  rw [graph, resolve, h.strict]

/-- A graph that a strict resolution gives is the lenient one. -/
theorem graph_lenient_of_strict {d : Diagram} {g : Graph} (h : d.graph .strict = .ok g) :
    d.graph .lenient = .ok g := by
  obtain ⟨nodes, faults, hmeets⟩ := d.exists_meets
  obtain ⟨-, hlenient, hstrict⟩ := graph_of_meets hmeets
  rw [hstrict] at h
  cases faults with
  | nil => rw [hlenient, ← Except.ok.inj h]
  | cons f rest => cases h

/-- The graph of a diagram is one of registered nodes, so its index fits. -/
theorem filed_of_graph {s : Strictness} {d : Diagram} {g : Graph} (h : d.graph s = .ok g) :
    g.Filed := by
  obtain ⟨nodes, faults, hmeets⟩ := d.exists_meets
  have hlenient : d.graph .lenient = .ok g := by
    cases s with
    | lenient => exact h
    | strict => exact graph_lenient_of_strict h
  rw [(graph_of_meets hmeets).2.1] at hlenient
  rw [← Except.ok.inj hlenient]
  exact Graph.filed_ofNodes nodes

/-- Records that meet no fault have none of their own, and names that are
distinct and new. -/
theorem of_faultsFrom_eq_nil {d : Diagram} {rs : List NodeRecord} {g : Graph}
    (h : d.faultsFrom rs g = []) :
    (rs.map (·.id)).Nodup ∧ ∀ r ∈ rs, d.recordFaults r = [] ∧ ¬g.contains r.id = true := by
  induction rs generalizing g with
  | nil => exact ⟨List.nodup_nil, fun r hr => absurd hr List.not_mem_nil⟩
  | cons r rest ih =>
    rw [faultsFrom, List.append_eq_nil_iff] at h
    obtain ⟨hself, hrest⟩ := h
    have hnew : ¬g.contains r.id = true := by
      intro hc
      rw [if_pos hc] at hrest
      cases hrest
    rw [if_neg hnew] at hrest
    obtain ⟨hnodup, hlater⟩ := ih hrest
    -- What comes later is new also behind `r`, so it does not have its name.
    have hapart : ∀ r' ∈ rest, r'.id ≠ r.id ∧ ¬g.contains r'.id = true := fun r' hr' => by
      have hnot := (hlater r' hr').2
      rw [Graph.contains_insert] at hnot
      exact not_or.1 hnot
    refine ⟨List.nodup_cons.2 ⟨?_, hnodup⟩, List.forall_mem_cons.2 ⟨⟨hself, hnew⟩, ?_⟩⟩
    · intro hmem
      obtain ⟨r', hr', hid⟩ := List.mem_map.1 hmem
      exact (hapart r' hr').1 hid
    · exact fun r' hr' => ⟨(hlater r' hr').1, (hapart r' hr').2⟩

/-- Every flow of a record without faults exists. -/
theorem exists_flowTarget_of_recordFaults {d : Diagram} {r : NodeRecord} (h : d.recordFaults r = [])
    {flow : String} (hflow : flow ∈ r.outgoing) :
    ∃ target, d.flowTarget? (trimmed flow) = some target := by
  have hflows : d.flowFaults r.id r.outgoing = [] :=
    (List.append_eq_nil_iff.1 (List.append_eq_nil_iff.1 h).2).1
  rw [flowFaults, List.map_eq_nil_iff, List.filter_eq_nil_iff] at hflows
  have hsome := hflows (trimmed flow) (List.mem_map_of_mem hflow)
  exact Option.ne_none_iff_exists'.1 (by simpa using hsome)

/-- **A strict resolution that succeeds** makes a node of every record, and no
record is at fault. -/
theorem toList_of_graph_strict {d : Diagram} {g : Graph} (h : d.graph .strict = .ok g) :
    g.toList = d.records.map d.scanRecord ∧ ∀ r ∈ d.records, d.recordFaults r = [] := by
  rw [(graph_of_meets d.meets_records).2.2] at h
  cases hfaults : d.faults with
  | cons f rest =>
    rw [hfaults] at h
    cases h
  | nil =>
    rw [hfaults] at h
    obtain ⟨hnodup, hrecords⟩ := of_faultsFrom_eq_nil hfaults
    refine ⟨?_, fun r hr => (hrecords r hr).1⟩
    rw [← Except.ok.inj h, Graph.toList_ofNodes, Graph.firsts_of_nodup]
    rw [List.map_map]
    exact hnodup

/-- Only the graph decides on a diagram. -/
theorem validate_congr {s s' : Strictness} {d : Diagram} (h : d.graph s = d.graph s') :
    d.validate s = d.validate s' := by
  rw [validate, validate, h]

/-- Only the graph decides on what is emitted without validation. -/
theorem emitUnchecked_congr {s s' : Strictness} {d : Diagram} (h : d.graph s = d.graph s')
    (config : EmitConfig) : d.emitUnchecked s config = d.emitUnchecked s' config := by
  rw [emitUnchecked, emitUnchecked, h]

/-- An accepted diagram has a graph. -/
theorem graph_of_validate {s : Strictness} {d : Diagram} {v : Validated}
    (h : d.validate s = .ok v) : ∃ g, d.graph s = .ok g := by
  cases hg : d.graph s with
  | ok g => exact ⟨g, rfl⟩
  | error f =>
    rw [validate, hg] at h
    cases h

/-- **A strict resolution ends with the first fault that a lenient one
passes over.** The lenient resolution of every diagram succeeds, and reports
the faults it passed over in their order. The strict one succeeds exactly if
there are none, and then with the same graph; otherwise it ends with the
first of them. So what is accepted strictly is accepted leniently, and the
program is the same text, with and without validation. -/
theorem graph_strict_iff_no_fault (d : Diagram) :
    ∃ g faults, d.resolve .lenient = .ok (g, faults) ∧
      d.resolveNotices .lenient =
        faults.map .dropped ++ [.resolved (d.id.getD "") g.size] ∧
      (∀ g', d.graph .strict = .ok g' ↔ faults = [] ∧ g' = g) ∧
      (∀ f rest, faults = f :: rest → d.graph .strict = .error f) ∧
      ∀ v, d.validate .strict = .ok v → d.validate .lenient = .ok v ∧
        ∀ config, (d.validate .lenient).map (·.emit config) = .ok (v.emit config) ∧
          d.emitUnchecked .lenient config = d.emitUnchecked .strict config := by
  obtain ⟨nodes, faults, hmeets⟩ := d.exists_meets
  obtain ⟨hresolve, hlenient, hstrict⟩ := graph_of_meets hmeets
  refine ⟨Graph.ofNodes nodes, faults, hresolve, ?_, ?_, ?_, ?_⟩
  · rw [resolveNotices, hresolve]
  · intro g'
    rw [hstrict]
    cases faults with
    | nil => simp [ending, Except.map, eq_comm]
    | cons f rest => simp [ending, Except.map]
  · intro f rest hfaults
    rw [hstrict, hfaults]
    rfl
  · intro v hv
    obtain ⟨g, hg⟩ := graph_of_validate hv
    have hsame : d.graph .lenient = d.graph .strict := by rw [hg, graph_lenient_of_strict hg]
    rw [validate_congr hsame, hv]
    exact ⟨rfl, fun config => ⟨rfl, emitUnchecked_congr hsame config⟩⟩

/-- Two tasks of one name, the second with a flow that leads nowhere. -/
def doubled : Diagram :=
  { Diagram.empty with
    tasks := [⟨"A", none, none, none, []⟩, ⟨"A", none, none, none, ["f"]⟩] }

/-- The second record's own fault comes before that of its name, so it is
the one that a strict resolution ends with. -/
theorem graph_strict_doubled : ∃ g faults, doubled.resolve .lenient = .ok (g, faults) ∧
    faults = [.danglingFlow "A" "f", .duplicateNode "A"] ∧
    doubled.graph .strict = .error (.danglingFlow "A" "f") := by
  obtain ⟨g, faults, hresolve, -, -, hfirst, -⟩ := graph_strict_iff_no_fault doubled
  have hmap : (doubled.resolve .lenient).map (·.2) =
      .ok [.danglingFlow "A" "f", .duplicateNode "A"] := by decide +kernel
  rw [hresolve] at hmap
  have hfaults := Except.ok.inj hmap
  exact ⟨g, faults, hresolve, hfaults, hfirst _ _ hfaults⟩

end Diagram

end ProcessCompiler
