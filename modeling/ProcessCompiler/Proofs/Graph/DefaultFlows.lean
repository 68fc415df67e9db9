import Mathlib.Data.List.Forall2
import ProcessCompiler.Proofs.Graph.Strictness
/-!
# Default flows under strict resolution

A record may mark a flow as its default one. On an event that is a fault, and
on any other record the mark says where the node leads when it fails or its
condition does not hold. A resolution comes upon the mark only while it goes
through the flows that leave the record, so it decides on a default flow
exactly if the record lists it (`NodeRecord.ListsDefault`). A mark that names
any other flow, or the name of a listed one with blanks around it, is neither
honoured nor a fault: the node has no default target
(`defaults_of_graph_strict`).
-/

namespace ProcessCompiler

open Text

namespace NodeRecord

/-- The record is one of an event, which has no use for a default flow. -/
def isEvent (r : NodeRecord) : Bool := r.kind = .startEvent || r.kind = .endEvent

/-- The default flow, if there is one, is among the flows that leave the
record. -/
def ListsDefault (r : NodeRecord) : Prop :=
  ∀ flow, r.defaultFlow = some flow → flow ∈ r.outgoing.map trimmed

end NodeRecord

namespace Diagram

variable {d : Diagram} {r : NodeRecord} {flow : String}

/-- **A record's default flow is honoured**: the record is not one of an event,
and the node's default target is where the flow leads. -/
def HonoursDefault (d : Diagram) (r : NodeRecord) (n : Node) : Prop :=
  ∀ flow, r.defaultFlow = some flow → r.isEvent = false ∧
    ∃ target, d.flowTarget? flow = some target ∧ n.kind.defaultTarget = some target

/-- What becomes of a record's default flow: it is honoured exactly if it is
listed, and lost otherwise. -/
structure SettlesDefault (d : Diagram) (r : NodeRecord) (n : Node) : Prop where
  id : n.id = r.id
  element : n.kind.element = r.kind
  honours_iff : d.HonoursDefault r n ↔ r.ListsDefault
  lost : ¬r.ListsDefault → n.kind.defaultTarget = none

/-- A listed default flow of a record without faults leads somewhere, and that
is the default target. -/
theorem exists_scanDefault_of_listed (hfaults : d.recordFaults r = [])
    (hflow : r.defaultFlow = some flow) (hlisted : flow ∈ r.outgoing.map trimmed) :
    ∃ target, d.flowTarget? flow = some target ∧
      d.scanDefault r.defaultFlow r.outgoing = some target := by
  obtain ⟨written, hwritten, rfl⟩ := List.mem_map.1 hlisted
  obtain ⟨target, htarget⟩ := exists_flowTarget_of_recordFaults hfaults hwritten
  refine ⟨target, htarget, ?_⟩
  rw [scanDefault, hflow, Option.bind_some, if_pos hlisted, htarget]

/-- A default flow that is not listed gives no default target. -/
theorem scanDefault_of_not_listed (hflow : r.defaultFlow = some flow)
    (hlisted : flow ∉ r.outgoing.map trimmed) :
    d.scanDefault r.defaultFlow r.outgoing = none := by
  rw [scanDefault, hflow, Option.bind_some, if_neg hlisted]

/-- The fault of an event's default target. -/
theorem kindFaults_of_isEvent (hevent : r.isEvent = true) (target : String) :
    kindFaults r (some target) = [.defaultOnEvent r.id] := by
  simp only [NodeRecord.isEvent, Bool.or_eq_true, decide_eq_true_eq] at hevent
  rcases hevent with hkind | hkind <;> simp [kindFaults, hkind]

/-- **A record without faults settles its default flow.** -/
theorem settlesDefault_scanRecord (hfaults : d.recordFaults r = []) :
    d.SettlesDefault r (d.scanRecord r) := by
  have hkind : kindFaults r (d.scanDefault r.defaultFlow r.outgoing) = [] :=
    (List.append_eq_nil_iff.1 (List.append_eq_nil_iff.1 hfaults).2).2
  have hdefault : (d.scanRecord r).kind.defaultTarget = d.scanDefault r.defaultFlow r.outgoing :=
    NodeRecord.defaultTarget_nodeKind hkind
  refine ⟨rfl, ?_, ⟨?_, ?_⟩, ?_⟩
  · show (r.nodeKind _).element = r.kind
    unfold NodeRecord.nodeKind
    cases r.kind <;> rfl
  · -- An honoured flow gave a target, and only a listed one does.
    intro hhonours flow hflow
    by_contra hlisted
    obtain ⟨-, target, -, htarget⟩ := hhonours flow hflow
    rw [hdefault, scanDefault_of_not_listed hflow hlisted] at htarget
    cases htarget
  · intro hlists flow hflow
    obtain ⟨target, htarget, hscan⟩ := exists_scanDefault_of_listed hfaults hflow (hlists flow hflow)
    refine ⟨?_, target, htarget, hdefault.trans hscan⟩
    -- On an event the target would be a fault.
    by_contra hevent
    rw [hscan, kindFaults_of_isEvent (by simpa using hevent)] at hkind
    cases hkind
  · intro hlists
    obtain ⟨flow, hunlisted⟩ := not_forall.1 hlists
    obtain ⟨hflow, hlisted⟩ := Classical.not_imp.1 hunlisted
    rw [hdefault, scanDefault_of_not_listed hflow hlisted]

/-- **What strict resolution makes of default flows.** The nodes of a diagram
that it accepts are those of the records, in their order. A record's default
flow is honoured exactly if the record lists it among the flows that leave it;
otherwise the node has no default target, and nothing is said about it. -/
theorem defaults_of_graph_strict {g : Graph} (h : d.graph .strict = .ok g) :
    List.Forall₂ d.SettlesDefault d.records g.toList := by
  obtain ⟨hlist, hfaults⟩ := toList_of_graph_strict h
  rw [hlist, List.forall₂_map_right_iff, List.forall₂_same]
  intro r hr
  exact settlesDefault_scanRecord (hfaults r hr)

/-- A gateway whose default flow is listed, with blanks around its name, beside
a task whose default flow is not. -/
def halfListed : Diagram :=
  { Diagram.empty with
    tasks := [⟨"Work", none, some "fail", some "x", ["go"]⟩]
    gateways := [⟨"Open", none, some "fail", some "x", ["go", " fail "]⟩]
    flows := [⟨"go", "Work", "Open"⟩, ⟨"fail", "Open", "Work"⟩] }

theorem defaults_of_graph_strict_halfListed : ∃ g, halfListed.graph .strict = .ok g ∧
    List.Forall₂ halfListed.SettlesDefault halfListed.records g.toList := by
  have hok : (halfListed.graph .strict).isOk = true := by decide +kernel
  cases h : halfListed.graph .strict with
  | ok g => exact ⟨g, rfl, defaults_of_graph_strict h⟩
  | error f =>
    rw [h] at hok
    cases hok

/-- A start event and a task whose default flows exist, but do not leave them. -/
def neglected : Diagram :=
  { Diagram.empty with
    startEvents := [⟨"Start", none, some "fail", none, none, []⟩]
    tasks := [⟨"Work", none, some "fail", some "x", []⟩]
    flows := [⟨"fail", "Work", "Start"⟩] }

/-- **Strict resolution loses default flows.** It accepts an event with one, and
leaves a task without the target that its default flow has. -/
theorem not_honoursDefault_neglected : ∃ g, neglected.graph .strict = .ok g ∧
    ∃ event work, g.toList = [event, work] ∧
      (∃ r ∈ neglected.records, r.id = event.id ∧ r.isEvent = true ∧ r.defaultFlow = some "fail") ∧
      (∃ r ∈ neglected.records, r.id = work.id ∧ r.defaultFlow = some "fail" ∧
        neglected.flowTarget? "fail" = some "Start" ∧ work.kind.defaultTarget = none) ∧
      ∀ r ∈ neglected.records, ∀ n ∈ g.toList, ¬neglected.HonoursDefault r n := by
  have hnodes : (neglected.graph .strict).map (·.toList) =
      .ok [⟨"Start", none, .startEvent false, none, []⟩,
        ⟨"Work", none, .task none, some "x", []⟩] := by decide +kernel
  cases hg : neglected.graph .strict with
  | error f =>
    rw [hg] at hnodes
    cases hnodes
  | ok g =>
    rw [hg] at hnodes
    have hlist : g.toList = [⟨"Start", none, .startEvent false, none, []⟩,
        ⟨"Work", none, .task none, some "x", []⟩] := Except.ok.inj hnodes
    refine ⟨g, rfl, _, _, hlist, ?_, ?_, ?_⟩
    · exact ⟨_, List.mem_cons_self, rfl, rfl, rfl⟩
    · exact ⟨_, List.mem_cons_of_mem _ List.mem_cons_self, rfl, rfl, by decide, rfl⟩
    · have hdefaults : ∀ r ∈ neglected.records, r.defaultFlow = some "fail" := by decide
      have hnodefaults : ∀ n ∈ g.toList, n.kind.defaultTarget = none := by
        rw [hlist]
        decide
      intro r hr n hn hhonours
      obtain ⟨-, target, -, htarget⟩ := hhonours "fail" (hdefaults r hr)
      rw [hnodefaults n hn] at htarget
      cases htarget

end Diagram

end ProcessCompiler
