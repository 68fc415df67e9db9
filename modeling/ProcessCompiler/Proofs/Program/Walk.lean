import ProcessCompiler.Proofs.Program.NameTable
/-!
# Lowering preserves control flow

A process can be followed in two ways: from node to node through its graph,
or from procedure to procedure through its program, where every step looks a
name up. `Graph.walk` and `Program.walk` list the nodes that are met, level
by level, given which conditions hold and which invocations and scripts
succeed. Processes may run in circles, so a walk is cut off at a depth; a
walk that leaves the process has no value.

`exists_walk_lower` says that on a graph whose targets are all registered
both walks have a value, and the same one. One step is `successors_procedure`:
the procedures that follow are those of the nodes that follow, in their
order.
-/

namespace ProcessCompiler

/-! ## Walking a graph -/

/-- The nodes that follow a node, given whether its condition holds or its
code succeeds. A node without code to ask goes to its ordinary targets. -/
def Node.successors (n : Node) (succeeds : Bool) : List String :=
  match n.kind, n.expression with
  | .exclusiveGateway default, some _ | .task default, some _ | .serviceTask default, some _ =>
    if succeeds then n.outgoing else default.toList
  | _, _ => n.outgoing

/-- The nodes met on the way from a node, to a depth; none if a target is
not in the graph. -/
def Graph.walk (g : Graph) (succeeds : String → Bool) : ℕ → String → Option (List String)
  | 0, _ => some []
  | depth + 1, id => do
    let n ← g.get? id
    let visits ← (n.successors (succeeds n.id)).mapM (g.walk succeeds depth)
    return n.id :: visits.flatten

/-- Every target that a node records is registered. -/
def Graph.Closed (g : Graph) : Prop :=
  ∀ n ∈ g.toList, ∀ target ∈ n.outgoing ++ n.kind.defaultTarget.toList, g.contains target = true

/-! ## Walking a program -/

/-- The procedures that follow a procedure, given whether its condition
holds or its code succeeds. -/
def Procedure.successors (q : Procedure) (succeeds : Bool) : List String :=
  match q.action with
  | .guard _ otherwise => if succeeds then q.then_.targets else otherwise.toList
  | .invoke _ _ _ errorRoute => if succeeds then q.then_.targets else errorRoute.toList
  | .run _ _ errorRoute => if succeeds then q.then_.targets else errorRoute.toList
  | .subscribe _ _ | .emit _ | .unimplemented => q.then_.targets

/-- The nodes whose procedures are met on the way from a procedure, to a
depth; none if a name belongs to no procedure. -/
def Program.walk (p : Program) (succeeds : String → Bool) : ℕ → String → Option (List String)
  | 0, _ => some []
  | depth + 1, name => do
    let q ← p.procedure? name
    let visits ← (q.successors (succeeds q.nodeId)).mapM (p.walk succeeds depth)
    return q.nodeId :: visits.flatten

/-! ## One step -/

/-- A continuation goes on with the targets it was made of. -/
@[simp]
theorem Continuation.targets_ofTargets (targets : List String) :
    (ofTargets targets).targets = targets := by
  match targets with
  | [] => rfl
  | [_] => rfl
  | _ :: _ :: _ => rfl

/-- **One step of the program is one step of the graph**, with names for
nodes. -/
theorem Lowering.successors_procedure (t : Names.Table) (n : Node) (succeeds : Bool) :
    (procedure t n).successors succeeds = (n.successors succeeds).map t.nameOf := by
  have hthen : (procedure t n).then_.targets = n.outgoing.map t.nameOf :=
    Continuation.targets_ofTargets _
  have hroute (route : Option String) : (route.map t.nameOf).toList = route.toList.map t.nameOf := by
    cases route <;> rfl
  cases hkind : n.kind with
  | startEvent message =>
    cases message <;> cases hexpr : n.expression <;>
      simp [Procedure.successors, Node.successors, procedure, action, hkind, hexpr]
  | endEvent message =>
    cases message <;> cases hexpr : n.expression <;>
      simp [Procedure.successors, Node.successors, procedure, action, hkind, hexpr]
  | task route | serviceTask route | exclusiveGateway route =>
    cases hexpr : n.expression with
    | none => simp [Procedure.successors, Node.successors, procedure, action, hkind, hexpr]
    | some text =>
      cases succeeds <;>
        simp [Procedure.successors, Node.successors, procedure, action, hkind, hexpr, hroute]

/-- The nodes that follow a node are among the targets it records. -/
theorem Node.successors_subset (n : Node) (succeeds : Bool) :
    n.successors succeeds ⊆ n.outgoing ++ n.kind.defaultTarget.toList := by
  intro target htarget
  rw [List.mem_append]
  simp only [successors] at htarget
  split at htarget
  all_goals first
    | exact .inl htarget
    | rename_i hkind _
      cases succeeds
      · exact .inr (by simpa [hkind, NodeKind.defaultTarget] using htarget)
      · exact .inl htarget

/-! ## All steps -/

/-- Two readings that agree on every target, one of them under the target's
name, agree on a list of targets. -/
theorem exists_mapM_map {f f' : String → Option (List String)} {name : String → String}
    {targets : List String}
    (h : ∀ target ∈ targets, ∃ visited, f target = some visited ∧ f' (name target) = some visited) :
    ∃ visits, targets.mapM f = some visits ∧ (targets.map name).mapM f' = some visits := by
  induction targets with
  | nil => exact ⟨[], rfl, rfl⟩
  | cons target rest ih =>
    obtain ⟨visited, hf, hf'⟩ := h target List.mem_cons_self
    obtain ⟨visits, hrest, hrest'⟩ := ih fun t ht => h t (List.mem_cons_of_mem _ ht)
    exact ⟨visited :: visits, by simp [hf, hrest], by simp [hf', hrest']⟩

namespace Graph

variable {g : Graph} {start : Node} {config : EmitConfig} {succeeds : String → Bool}

/-- On a closed graph the walk from any registered node has a value, and the
walk of the program from that node's procedure has the same one. The
induction is on the depth; the nodes that follow are registered because the
graph is closed. -/
theorem walk_nameOf (hfiled : g.Filed) (hclosed : g.Closed) (depth : ℕ) :
    ∀ id, g.contains id = true → ∃ visited, g.walk succeeds depth id = some visited ∧
      (g.lower start config).walk succeeds depth ((g.nameTable config).nameOf id) =
        some visited := by
  induction depth with
  | zero =>
    intro id _
    exact ⟨[], rfl, rfl⟩
  | succ depth ih =>
    intro id hid
    obtain ⟨n, hn, rfl⟩ := hfiled.contains_iff.1 hid
    have hget : g.get? n.id = some n := hfiled.get?_eq_some_iff.2 ⟨hn, rfl⟩
    have hproc := @procedure?_nameOf g start config hfiled.ids_nodup n hn
    have hnext : ∀ target ∈ n.successors (succeeds n.id), g.contains target = true :=
      fun target htarget => hclosed n hn target (n.successors_subset _ htarget)
    obtain ⟨visits, hgraph, hprogram⟩ :=
      exists_mapM_map fun target htarget => ih target (hnext target htarget)
    refine ⟨n.id :: visits.flatten, ?_, ?_⟩
    · simp [walk, hget, hgraph]
    · have hsucc := Lowering.successors_procedure (g.nameTable config) n (succeeds n.id)
      have hnode : (Lowering.procedure (g.nameTable config) n).nodeId = n.id := rfl
      simp [Program.walk, hproc, hnode, hsucc, hprogram]

/-- **Lowering preserves control flow.** On the graph of any history whose
recorded targets are all registered, from any of its start events, under
any options, whatever holds and succeeds, and to any depth, the program
meets the nodes that the graph meets, in the same order, and no name that it
looks up is missing. -/
theorem exists_walk_lower (history : List Node) (hclosed : (ofNodes history).Closed)
    (start : Node) (hstart : start ∈ (ofNodes history).startEvents) (config : EmitConfig)
    (succeeds : String → Bool) (depth : ℕ) :
    ∃ visited, (ofNodes history).walk succeeds depth start.id = some visited ∧
      ((ofNodes history).lower start config).walk succeeds depth
        ((ofNodes history).lower start config).entry = some visited := by
  have hfiled := filed_ofNodes history
  have hmem : start ∈ (ofNodes history).toList := (List.mem_filter.1 hstart).1
  exact walk_nameOf hfiled hclosed depth start.id (hfiled.get?_isSome_of_mem hmem)

instance (g : Graph) : Decidable g.Closed := inferInstanceAs (Decidable (∀ _ ∈ _, ∀ _ ∈ _, _))

theorem exists_walk_lower_colliding :
    (ofNodes collidingHistory).Closed ∧ collidingStart ∈ (ofNodes collidingHistory).startEvents ∧
      ∃ visited,
        (ofNodes collidingHistory).walk (fun id => id ≠ "saga") 7 collidingStart.id =
          some visited ∧
        ((ofNodes collidingHistory).lower collidingStart .default).walk (fun id => id ≠ "saga") 7
          ((ofNodes collidingHistory).lower collidingStart .default).entry = some visited :=
  have hclosed : (ofNodes collidingHistory).Closed := by decide
  have hstart : collidingStart ∈ (ofNodes collidingHistory).startEvents := by decide
  ⟨hclosed, hstart, exists_walk_lower collidingHistory hclosed collidingStart hstart .default _ 7⟩

end Graph

end ProcessCompiler
