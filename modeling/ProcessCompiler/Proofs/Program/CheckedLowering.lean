import Mathlib.Data.List.Forall2
import ProcessCompiler.Proofs.Validation.Rules
/-!
# Lowering of accepted graphs

Lowering has an answer for every node, also for one that says nothing or
whose text cannot be cut. `Performs` is the answer that a node's kind and text
call for, without these ways out. On an accepted graph lowering gives no other:
validation leaves only plain events without a text, a task's text has its two
parts, and the only start event has its tag.
-/

namespace ProcessCompiler

open Text

namespace Lowering

variable {t : Names.Table} {n : Node}

/-- **What a node calls for.** A node's text is taken whole, without the blanks
at its ends; a task's text is taken in the two parts it is cut into. -/
inductive Performs (t : Names.Table) (n : Node) : Action → Prop
  | plainEvent : n.kind.isPlainEvent = true → Performs t n .unimplemented
  | gateway {otherwise : Option String} {raw : String} :
      n.kind = .exclusiveGateway otherwise → n.text = some raw →
      Performs t n (.guard (trimmed raw) (otherwise.map t.nameOf))
  | serviceTask {route : Option String} {raw : String} :
      n.kind = .serviceTask route → n.text = some raw →
      Performs t n (.run (trimmed raw) n.contextKey (route.map t.nameOf))
  | task {route : Option String} {raw : String} {i : Invocation} :
      n.kind = .task route → n.text = some raw → Invocation.split (trimmed raw) = some i →
      Performs t n (.invoke i.prelude? i.tail n.contextKey (route.map t.nameOf))
  | messageStart {raw : String} :
      n.kind = .startEvent true → n.text = some raw → Tag.Shaped (trimmed raw) →
      Performs t n (.subscribe (trimmed raw) n.contextKey)
  | messageEnd {raw : String} : n.kind = .endEvent true → n.text = some raw →
      Performs t n (.emit (trimmed raw))

/-- Only plain events call for nothing. -/
theorem Performs.eq_unimplemented_iff {a : Action} (h : Performs t n a) :
    a = .unimplemented ↔ n.kind.isPlainEvent = true := by
  cases h with
  | plainEvent hplain => simp [hplain]
  | gateway hkind | serviceTask hkind | task hkind | messageStart hkind | messageEnd hkind =>
    simp [hkind, NodeKind.isPlainEvent]

/-- The action of a plain event, with or without a text. -/
theorem action_of_isPlainEvent (h : n.kind.isPlainEvent = true) : action t n = .unimplemented := by
  unfold action
  rcases hkind : n.kind with (_ | _) | (_ | _) | _ | _ | _ <;>
    simp_all [NodeKind.isPlainEvent]

/-- A task's text that has two parts is lowered to them. -/
theorem invocation_of_split {text : String} {i : Invocation}
    (h : Invocation.split text = some i) : invocation text = i := by
  rw [invocation, h]

/-- **A sound node is lowered to what it calls for**, if it has the tag that a
message start needs. -/
theorem performs_action (t : Names.Table) (hsound : n.Sound) (htag : n.kind = .startEvent true →
      ∃ raw, n.text = some raw ∧ Tag.Shaped (trimmed raw)) :
    Performs t n (action t n) := by
  by_cases hplain : n.kind.isPlainEvent = true
  · rw [action_of_isPlainEvent hplain]
    exact .plainEvent hplain
  · unfold Node.Sound at hsound
    cases htext : n.expression with
    | none =>
      rw [htext] at hsound
      exact absurd hsound hplain
    | some text =>
      rw [htext] at hsound
      obtain ⟨raw, hraw, rfl, -⟩ := Node.expression_eq_some_iff.1 htext
      unfold action
      rcases hkind : n.kind with (_ | _) | (_ | _) | route | route | otherwise <;>
        rw [hkind] at hsound hplain <;> simp only [htext]
      · exact absurd rfl hplain
      · obtain ⟨raw', hraw', hshaped⟩ := htag hkind
        rw [hraw, Option.some.injEq] at hraw'
        exact .messageStart hkind hraw (hraw' ▸ hshaped)
      · exact absurd rfl hplain
      · exact .messageEnd hkind hraw
      · obtain ⟨i, hi⟩ := Option.isSome_iff_exists.1 hsound.2
        rw [invocation_of_split hi]
        exact .task hkind hraw hi
      · exact .serviceTask hkind hraw
      · exact .gateway hkind hraw

/-- A procedure is that of a node, and does what the node calls for. -/
structure Faithful (t : Names.Table) (n : Node) (p : Procedure) : Prop where
  nodeId : p.nodeId = n.id
  kind : p.kind = n.kind.element
  unimplemented_iff : p.action = .unimplemented ↔ n.kind.isPlainEvent = true
  performs : Performs t n p.action

end Lowering

namespace Diagram

/-- In an accepted graph every message start has its tag, since it is the only
start event. -/
theorem Accepts.tagged_of_mem {s : Strictness} {d : Diagram} {v : Validated} (h : d.Accepts s v)
    {n : Node} (hn : n ∈ v.graph.toList) (hkind : n.kind = .startEvent true) :
    ∃ raw, n.text = some raw ∧ Tag.Shaped (trimmed raw) := by
  obtain rfl : n = v.start := h.only.2.2 n hn (Node.isStart_iff.2 ⟨true, hkind⟩)
  exact h.tagged hkind

/-- **Lowering of an accepted graph never falls back.** Its procedures are
those of the nodes, in their order, and each does what its node calls for;
nothing is done by the procedures of plain events, and only by these. -/
theorem lower_faithful_of_validate {s : Strictness} {d : Diagram} {v : Validated}
    (h : d.validate s = .ok v) (config : EmitConfig) :
    List.Forall₂ (Lowering.Faithful (Names.tableOf config.entryName v.graph.toList))
      v.graph.toList (v.graph.lower v.start config).procedures := by
  have haccepts := validate_eq_ok_iff.1 h
  simp only [Graph.lower, List.forall₂_map_right_iff, List.forall₂_same]
  intro n hn
  have hperforms := Lowering.performs_action (Names.tableOf config.entryName v.graph.toList)
    (haccepts.sound n hn) (haccepts.tagged_of_mem hn)
  exact ⟨rfl, rfl, hperforms.eq_unimplemented_iff, hperforms⟩

/-- A process with a node of each kind. -/
theorem lower_faithful_shipping : ∃ v, shipping.validate .strict = .ok v ∧
    List.Forall₂ (Lowering.Faithful (Names.tableOf "saga" v.graph.toList))
      v.graph.toList (v.graph.lower v.start .default).procedures := by
  obtain ⟨v, hv⟩ := exists_validate_shipping
  exact ⟨v, hv, lower_faithful_of_validate hv .default⟩

end Diagram

end ProcessCompiler
