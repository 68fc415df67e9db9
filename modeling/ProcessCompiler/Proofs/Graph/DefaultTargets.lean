import ProcessCompiler.Proofs.Graph.Strictness
/-!
# Default targets among the ordinary ones

The flows of a record are parted by their names: the default flow gives the
default target of the node, and every other flow an ordinary one. Two flows may
lead to one node, so the two kinds of target are not parted by it. The default
target is an ordinary one as well exactly if some other listed flow leads there
(`default_mem_outgoing_iff`), under strict resolution too.
-/

namespace ProcessCompiler

open Text

/-- Only a kind that has a default target was given one. -/
theorem NodeRecord.eq_of_defaultTarget_nodeKind {r : NodeRecord} {default : Option String}
    {target : String} (h : (r.nodeKind default).defaultTarget = some target) :
    default = some target := by
  unfold NodeRecord.nodeKind at h
  cases hkind : r.kind <;> rw [hkind] at h <;> first | exact h | cases h

namespace Diagram

variable {d : Diagram} {s : Strictness} {g : Graph} {n : Node} {target : String}

/-- Every node of a diagram's graph is that of the first record of its name. -/
theorem exists_record_of_mem_graph (h : d.graph s = .ok g) (hn : n ∈ g.toList) :
    ∃ r, d.records.find? (·.id == n.id) = some r ∧ d.scanRecord r = n := by
  have hlenient : d.graph .lenient = .ok g := by
    cases s with
    | lenient => exact h
    | strict => exact graph_lenient_of_strict h
  obtain ⟨hgraph, hlist, -, -⟩ := graph_lenient_eq_scanned d
  obtain rfl : Graph.ofNodes d.scanned = g := Except.ok.inj (hgraph.symm.trans hlenient)
  rw [hlist, scanned, ← map_scanRecord_records] at hn
  have hfind := Graph.find?_of_mem_firsts hn
  rw [List.find?_map] at hfind
  exact Option.map_eq_some_iff.1 hfind

/-- **When the default target is an ordinary one.** The default target of a node
is where the record's default flow leads, which the record lists. It is among
the ordinary targets exactly if the record lists another flow that leads to the
same node. -/
theorem default_mem_outgoing_iff (h : d.graph s = .ok g) (hn : n ∈ g.toList)
    (htarget : n.kind.defaultTarget = some target) :
    ∃ r default, d.records.find? (·.id == n.id) = some r ∧ r.defaultFlow = some default ∧
      default ∈ r.outgoing.map trimmed ∧ d.flowTarget? default = some target ∧
      (target ∈ n.outgoing ↔
        ∃ flow ∈ r.outgoing.map trimmed, flow ≠ default ∧ d.flowTarget? flow = some target) := by
  obtain ⟨r, hr, rfl⟩ := exists_record_of_mem_graph h hn
  have hscan : d.scanDefault r.defaultFlow r.outgoing = some target :=
    NodeRecord.eq_of_defaultTarget_nodeKind htarget
  obtain ⟨default, hdefault, hlisted⟩ := Option.bind_eq_some_iff.1 hscan
  obtain ⟨hmem, hflow⟩ := Option.ite_none_right_eq_some.1 hlisted
  refine ⟨r, default, hr, hdefault, hmem, hflow, ?_⟩
  have hordinary : target ∈ (d.scanRecord r).outgoing ↔
      ∃ flow, (flow ∈ r.outgoing.map trimmed ∧ r.defaultFlow ≠ some flow) ∧
        d.flowTarget? flow = some target := by
    simp only [scanRecord, scanOutgoing, List.mem_filterMap, List.mem_filter, decide_eq_true_eq]
  rw [hordinary, hdefault]
  constructor
  · rintro ⟨flow, ⟨hlisted, hne⟩, hleads⟩
    exact ⟨flow, hlisted, fun heq => hne (heq ▸ rfl), hleads⟩
  · rintro ⟨flow, hlisted, hne, hleads⟩
    exact ⟨flow, ⟨hlisted, fun heq => hne (Option.some.inj heq).symm⟩, hleads⟩

/-- A gateway both of whose flows lead to one end, beside a task whose flows
lead apart. -/
def converging : Diagram :=
  { Diagram.empty with
    endEvents := [⟨"End", none, none, none, none, []⟩]
    tasks := [⟨"Work", none, some "fail", some "x", ["go", " fail"]⟩]
    gateways := [⟨"Open", none, some "no", some "x", ["yes", "no"]⟩]
    flows := [⟨"go", "Work", "Open"⟩, ⟨"fail", "Work", "End"⟩, ⟨"yes", "Open", "End"⟩,
      ⟨"no", "Open", "End"⟩] }

/-- Its graph, in which the gateway leads to the end either way. -/
theorem exists_graph_converging : ∃ g, converging.graph .strict = .ok g ∧
    (⟨"Open", none, .exclusiveGateway (some "End"), some "x", ["End"]⟩ : Node) ∈ g.toList := by
  have hnodes : (converging.graph .strict).map (·.toList) =
      .ok [⟨"End", none, .endEvent false, none, []⟩,
        ⟨"Work", none, .task (some "End"), some "x", ["Open"]⟩,
        ⟨"Open", none, .exclusiveGateway (some "End"), some "x", ["End"]⟩] := by decide +kernel
  cases hg : converging.graph .strict with
  | error f =>
    rw [hg] at hnodes
    cases hnodes
  | ok g =>
    rw [hg] at hnodes
    refine ⟨g, rfl, ?_⟩
    rw [show g.toList = _ from Except.ok.inj hnodes]
    decide

theorem default_mem_outgoing_iff_converging : ∃ g n, converging.graph .strict = .ok g ∧
    n ∈ g.toList ∧ n.kind.defaultTarget = some "End" ∧
    ∃ r default, converging.records.find? (·.id == n.id) = some r ∧
      r.defaultFlow = some default ∧ default ∈ r.outgoing.map trimmed ∧
      converging.flowTarget? default = some "End" ∧
      ("End" ∈ n.outgoing ↔
        ∃ flow ∈ r.outgoing.map trimmed, flow ≠ default ∧
          converging.flowTarget? flow = some "End") := by
  obtain ⟨g, hg, hn⟩ := exists_graph_converging
  exact ⟨g, _, hg, hn, rfl, default_mem_outgoing_iff hg hn rfl⟩

/-- **The ordinary targets may hold the default one**, under strict resolution
too. -/
theorem default_mem_outgoing_converging : ∃ g n, converging.graph .strict = .ok g ∧
    n ∈ g.toList ∧ n.kind.defaultTarget = some "End" ∧ "End" ∈ n.outgoing := by
  obtain ⟨g, hg, hn⟩ := exists_graph_converging
  exact ⟨g, _, hg, hn, rfl, List.mem_singleton.2 rfl⟩

end Diagram

end ProcessCompiler
