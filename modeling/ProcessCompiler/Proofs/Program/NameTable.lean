import Mathlib.Data.Finset.Card
import Mathlib.Data.List.Perm.Basic
import Mathlib.Algebra.Group.Nat.Even
import ProcessCompiler.Program.Lowering
import ProcessCompiler.Proofs.Graph.Registry
/-!
# Procedure names are unique

A procedure's name is free when it is given, together with that of the
handler it may fork (`isFree_firstFree`), and no later name can take it.
The invariant `Table.Distinct` ties the names in use to the three families
that draw on them: the entry procedure, the procedures and the handlers.
From it follow the uniqueness of all names of a program, and that the name
of a node's procedure leads back to that node.
-/

namespace ProcessCompiler

namespace Names

/-! ## A free name is always found -/

/-- Different numbers make different names. -/
theorem numbered_injective (base : String) : Function.Injective (numbered base) := by
  intro k k' h
  have htext : Nat.repr k = Nat.repr k' := by
    simpa [numbered, String.append_assoc] using h
  have hdigits : Nat.toDigits 10 k = Nat.toDigits 10 k' := by
    rw [← Nat.toList_repr, ← Nat.toList_repr, htext]
  rw [← Nat.ofDigitChars_ten_toDigits (n := k), hdigits, Nat.ofDigitChars_ten_toDigits]

/-- A name with a number behind it ends in a digit. -/
theorem getLast?_numbered (base : String) (k : ℕ) :
    ∃ c, (numbered base k).toList.getLast? = some c ∧ c.isDigit = true := by
  have hne : Nat.toDigits 10 k ≠ [] := Nat.toDigits_ne_nil
  refine ⟨(Nat.toDigits 10 k).getLast hne, ?_, ?_⟩
  · have htext : (numbered base k).toList = (base ++ "_").toList ++ Nat.toDigits 10 k := by
      rw [numbered, String.toList_append, ← Nat.toList_repr]
      rfl
    rw [htext, List.getLast?_append, List.getLast?_eq_some_getLast hne, Option.some_or]
  · exact Nat.isDigit_of_mem_toDigits (by decide) (by decide) (List.getLast_mem hne)

/-- Different procedures have different handlers. -/
theorem forkHandlerName_injective : Function.Injective forkHandlerName := by
  intro name name' h
  simpa [forkHandlerName] using h

/-- A handler is not named like its procedure. -/
theorem forkHandlerName_ne (name : String) : forkHandlerName name ≠ name := by
  intro h
  have hlen := congrArg String.length h
  simp [forkHandlerName] at hlen

/-- Numbers whose names are all taken are no more than the taken names. -/
theorem card_le_length_of_mem {taken : List String} {f : ℕ → String} (hf : Function.Injective f)
    {numbers : Finset ℕ} (h : ∀ i ∈ numbers, f i ∈ taken) : numbers.card ≤ taken.length :=
  calc numbers.card ≤ taken.toFinset.card :=
        Finset.card_le_card_of_injOn f (fun i hi => by simpa using h i hi) hf.injOn
    _ ≤ taken.length := taken.toFinset_card_le

/-- Among one more than twice as many numbers as there are taken names, one
makes a free name: a taken name rules out one number by itself and one by
the handler it may be. -/
theorem exists_isFree_numbered (forks : Bool) (taken : List String) (base : String) :
    ∃ i < 2 * taken.length + 1, isFree forks taken (numbered base (i + 2)) = true := by
  by_contra hnone
  push Not at hnone
  have hnumber : Function.Injective fun i => numbered base (i + 2) :=
    (numbered_injective base).comp (add_left_injective 2)
  let byName := (Finset.range (2 * taken.length + 1)).filter
    fun i => numbered base (i + 2) ∈ taken
  let byHandler := (Finset.range (2 * taken.length + 1)).filter
    fun i => forkHandlerName (numbered base (i + 2)) ∈ taken
  have hname : byName.card ≤ taken.length :=
    card_le_length_of_mem hnumber fun i hi => (Finset.mem_filter.1 hi).2
  have hhandler : byHandler.card ≤ taken.length :=
    card_le_length_of_mem (forkHandlerName_injective.comp hnumber)
      fun i hi => (Finset.mem_filter.1 hi).2
  have hcover : Finset.range (2 * taken.length + 1) ⊆ byName ∪ byHandler := by
    intro i hi
    have hbusy := hnone i (Finset.mem_range.1 hi)
    by_cases htaken : numbered base (i + 2) ∈ taken
    · exact Finset.mem_union_left _ (Finset.mem_filter.2 ⟨hi, htaken⟩)
    · refine Finset.mem_union_right _ (Finset.mem_filter.2 ⟨hi, ?_⟩)
      simp only [isFree, List.contains_eq_mem, htaken] at hbusy
      simp_all
  have hcard := (Finset.card_le_card hcover).trans (Finset.card_union_le _ _)
  rw [Finset.card_range] at hcard
  omega

/-- **A name that is not free is given a number**: the least one, from two on,
that makes it free. -/
theorem exists_firstFree_eq_numbered {forks : Bool} {taken : List String} {base : String}
    (h : isFree forks taken base = false) :
    ∃ i < 2 * taken.length + 1, firstFree forks taken base = numbered base (i + 2) ∧
      isFree forks taken (numbered base (i + 2)) = true ∧
      ∀ j < i, isFree forks taken (numbered base (j + 2)) = false := by
  have hsearch : firstFree forks taken base =
      (((List.range (2 * taken.length + 1)).find?
        fun i => isFree forks taken (numbered base (i + 2))).map
          fun i => numbered base (i + 2)).getD base := by
    simp only [firstFree, h, Bool.false_eq_true, if_false, List.find?_map]
    rfl
  cases hfound : (List.range (2 * taken.length + 1)).find?
      fun i => isFree forks taken (numbered base (i + 2)) with
  | none =>
    obtain ⟨i, hi, hfree⟩ := exists_isFree_numbered forks taken base
    have hbusy := List.find?_range_eq_none.1 hfound i hi
    rw [hfree] at hbusy
    cases hbusy
  | some i =>
    obtain ⟨hfree, hi, hleast⟩ := List.find?_range_eq_some.1 hfound
    refine ⟨i, List.mem_range.1 hi, ?_, hfree, fun j hj => by simpa using hleast j hj⟩
    rw [hsearch, hfound, Option.map_some, Option.getD_some]

/-- The name that is given is the one that was asked for, or a numbered one. -/
theorem firstFree_cases (forks : Bool) (taken : List String) (base : String) :
    (isFree forks taken base = true ∧ firstFree forks taken base = base) ∨
      (isFree forks taken base = false ∧ ∃ k, firstFree forks taken base = numbered base k) := by
  cases hbase : isFree forks taken base with
  | true => exact .inl ⟨rfl, if_pos hbase⟩
  | false =>
    obtain ⟨i, -, hname, -, -⟩ := exists_firstFree_eq_numbered hbase
    exact .inr ⟨rfl, i + 2, hname⟩

/-- **The name that is given is free.** -/
theorem isFree_firstFree (forks : Bool) (taken : List String) (base : String) :
    isFree forks taken (firstFree forks taken base) = true := by
  cases hbase : isFree forks taken base with
  | true => rwa [firstFree, if_pos hbase]
  | false =>
    obtain ⟨i, -, hname, hfree, -⟩ := exists_firstFree_eq_numbered hbase
    rwa [hname]

/-- A free name is not taken. -/
theorem not_mem_of_isFree {forks : Bool} {taken : List String} {name : String}
    (h : isFree forks taken name = true) : name ∉ taken := by
  simp only [isFree, List.contains_eq_mem, Bool.and_eq_true, Bool.not_eq_true',
    decide_eq_false_iff_not] at h
  exact h.1

/-- Nor is the name of the handler that goes with it. -/
theorem forkHandlerName_not_mem_of_isFree {taken : List String} {name : String}
    (h : isFree true taken name = true) : forkHandlerName name ∉ taken := by
  simp only [isFree, List.contains_eq_mem, Bool.and_eq_true, Bool.not_eq_true', Bool.true_and,
    decide_eq_false_iff_not] at h
  exact h.2

/-! ## The table -/

namespace Table

/-- The names of some nodes' procedures. -/
def names (t : Table) (nodes : List Node) : List String := nodes.map fun n => t.nameOf n.id

/-- The names of the handlers that some nodes' procedures fork. -/
def handlers (t : Table) (nodes : List Node) : List String :=
  (nodes.filter forks).map fun n => forkHandlerName (t.nameOf n.id)

/-- **The invariant of naming.** The table knows the nodes it has named and
no others, and the names in use are the entry name and those of the named
nodes and their handlers, each of them once. -/
structure Distinct (entryName : String) (nodes : List Node) (t : Table) : Prop where
  named : ∀ id, (t.byNode.get? id).isSome ↔ id ∈ nodes.map (·.id)
  taken_nodup : t.taken.Nodup
  perm : t.taken.Perm (entryName :: (t.names nodes ++ t.handlers nodes))

/-- Naming a node leaves the names of the others as they are. -/
theorem nameOf_assign_of_ne (t : Table) {n : Node} {id : String} (h : id ≠ n.id) :
    (t.assign n).nameOf id = t.nameOf id := by
  simp only [nameOf, assign, Index.get?_insertNew, if_neg h]

/-- A node that had no name is given a free one. -/
theorem nameOf_assign_self (t : Table) {n : Node} (h : t.byNode.get? n.id = none) :
    (t.assign n).nameOf n.id = firstFree (forks n) t.taken (procedureName n.id) := by
  simp only [nameOf, assign, Index.get?_insertNew, if_true, h, Option.getD_none,
    Option.getD_some]

/-- Naming a node leaves the names of nodes with other ids as they are. -/
theorem names_assign (t : Table) {n : Node} {nodes : List Node} (h : n.id ∉ nodes.map (·.id)) :
    (t.assign n).names nodes = t.names nodes := by
  refine List.map_congr_left fun m hm => t.nameOf_assign_of_ne ?_
  rintro heq
  exact h (List.mem_map.2 ⟨m, hm, heq⟩)

/-- And the names of their handlers. -/
theorem handlers_assign (t : Table) {n : Node} {nodes : List Node}
    (h : n.id ∉ nodes.map (·.id)) : (t.assign n).handlers nodes = t.handlers nodes := by
  refine List.map_congr_left fun m hm => ?_
  rw [t.nameOf_assign_of_ne]
  rintro heq
  exact h (List.mem_map.2 ⟨m, (List.mem_filter.1 hm).1, heq⟩)

/-- Naming nothing leaves the entry name alone in use. -/
theorem distinct_nil (entryName : String) : Distinct entryName [] ⟨[entryName], .empty⟩ where
  named id := by simp [Index.get?, Index.empty]
  taken_nodup := List.nodup_singleton entryName
  perm := List.Perm.refl _

/-- **One step of naming keeps the invariant.** -/
theorem Distinct.assign {entryName : String} {nodes : List Node} {t : Table}
    (h : Distinct entryName nodes t) {n : Node} (hn : n.id ∉ nodes.map (·.id)) :
    Distinct entryName (nodes ++ [n]) (t.assign n) := by
  have hnone : t.byNode.get? n.id = none := by
    rw [← Option.not_isSome_iff_eq_none, h.named]
    exact hn
  have hself := t.nameOf_assign_self hnone
  have hfree := isFree_firstFree (forks n) t.taken (procedureName n.id)
  set name := firstFree (forks n) t.taken (procedureName n.id) with hname
  have hnames : (t.assign n).names (nodes ++ [n]) = t.names nodes ++ [name] := by
    rw [names, List.map_append, ← names, names_assign t hn, List.map_singleton, hself]
  have hhandlers : (t.assign n).handlers (nodes ++ [n]) =
      t.handlers nodes ++ if forks n then [forkHandlerName name] else [] := by
    rw [handlers, List.filter_append, List.map_append, ← handlers, handlers_assign t hn]
    cases hforks : forks n <;> simp [hforks, hself]
  have htaken : (t.assign n).taken =
      name :: ((if forks n then [forkHandlerName name] else []) ++ t.taken) := rfl
  constructor
  · intro id
    simp only [Table.assign, Index.get?_insertNew, List.map_append, List.mem_append, List.map_cons,
      List.map_nil, List.mem_singleton]
    by_cases hid : id = n.id
    · simp [hid]
    · rw [if_neg hid, h.named]
      simp [hid]
  · rw [htaken]
    cases hforks : forks n with
    | false => exact List.nodup_cons.2 ⟨not_mem_of_isFree hfree, h.taken_nodup⟩
    | true =>
      rw [hforks] at hfree
      refine List.nodup_cons.2 ⟨?_, List.nodup_cons.2
        ⟨forkHandlerName_not_mem_of_isFree hfree, h.taken_nodup⟩⟩
      simp only [if_true, List.singleton_append, List.mem_cons, not_or]
      exact ⟨(forkHandlerName_ne name).symm, not_mem_of_isFree hfree⟩
  · rw [htaken, hnames, hhandlers]
    refine (List.Perm.cons _ (List.Perm.append_left _ h.perm)).trans ?_
    rw [List.perm_iff_count]
    intro a
    simp only [List.count_cons, List.count_append, List.count_nil]
    omega

/-- Naming one more node comes last. -/
theorem tableOf_concat (entryName : String) (nodes : List Node) (n : Node) :
    tableOf entryName (nodes ++ [n]) = (tableOf entryName nodes).assign n := by
  rw [tableOf, List.foldl_append, List.foldl_cons, List.foldl_nil, ← tableOf]

/-- **Naming all nodes of distinct ids** keeps the invariant. -/
theorem distinct_tableOf (entryName : String) {nodes : List Node}
    (h : (nodes.map (·.id)).Nodup) : Distinct entryName nodes (tableOf entryName nodes) := by
  induction nodes using List.reverseRecOn with
  | nil => exact distinct_nil entryName
  | append_singleton nodes n ih =>
    rw [List.map_append, List.map_singleton, List.nodup_append_comm, List.singleton_append,
      List.nodup_cons] at h
    rw [tableOf_concat]
    exact (ih h.2).assign h.1

/-- The names of a table are pairwise distinct, with the entry name and the
handlers among them. -/
theorem Distinct.nodup {entryName : String} {nodes : List Node} {t : Table}
    (h : Distinct entryName nodes t) :
    (entryName :: (t.names nodes ++ t.handlers nodes)).Nodup :=
  h.perm.nodup_iff.1 h.taken_nodup

end Table

/-! ## A node's turn

Names are given in the order of the nodes, so a name is settled once its node
has had its turn. -/

/-- Later nodes leave the names of the earlier ones alone. -/
theorem nameOf_tableOf_append_left (entryName : String) (front back : List Node) {id : String}
    (h : id ∉ back.map (·.id)) :
    (tableOf entryName (front ++ back)).nameOf id = (tableOf entryName front).nameOf id := by
  induction back using List.reverseRecOn with
  | nil => rw [List.append_nil]
  | append_singleton back n ih =>
    rw [List.map_append, List.mem_append, not_or] at h
    rw [← List.append_assoc, Table.tableOf_concat, Table.nameOf_assign_of_ne _ (by simpa using h.2),
      ih h.1]

section Turn

variable {entryName : String} {before after : List Node} {n : Node}

/-- **A node's name is the free one at its turn.** -/
theorem nameOf_tableOf_append (hids : ((before ++ n :: after).map (·.id)).Nodup) :
    (tableOf entryName (before ++ n :: after)).nameOf n.id =
      firstFree (forks n) (tableOf entryName before).taken (procedureName n.id) := by
  rw [List.map_append, List.map_cons, List.nodup_append'] at hids
  obtain ⟨hbefore, hafter, hdisjoint⟩ := hids
  have hnone : (tableOf entryName before).byNode.get? n.id = none := by
    rw [← Option.not_isSome_iff_eq_none, (Table.distinct_tableOf entryName hbefore).named]
    exact fun hmem => hdisjoint hmem List.mem_cons_self
  rw [List.append_cons, nameOf_tableOf_append_left _ _ _ (List.nodup_cons.1 hafter).1,
    Table.tableOf_concat, Table.nameOf_assign_self _ hnone]

/-- A node that had its turn keeps its name. -/
theorem nameOf_tableOf_of_mem (hids : ((before ++ n :: after).map (·.id)).Nodup) {m : Node}
    (hm : m ∈ before) :
    (tableOf entryName before).nameOf m.id =
      (tableOf entryName (before ++ n :: after)).nameOf m.id := by
  rw [List.map_append, List.nodup_append'] at hids
  exact (nameOf_tableOf_append_left _ _ _ (hids.2.2 (List.mem_map_of_mem hm))).symm

/-- **What is taken at a node's turn**: the name of the entry procedure, and the
names that the nodes before it and their handlers have in the whole table. -/
theorem taken_tableOf_perm (hids : ((before ++ n :: after).map (·.id)).Nodup) :
    (tableOf entryName before).taken.Perm
      (entryName :: ((tableOf entryName (before ++ n :: after)).names before ++
        (tableOf entryName (before ++ n :: after)).handlers before)) := by
  have hnames : (tableOf entryName before).names before =
      (tableOf entryName (before ++ n :: after)).names before :=
    List.map_congr_left fun _ hm => nameOf_tableOf_of_mem hids hm
  have hhandlers : (tableOf entryName before).handlers before =
      (tableOf entryName (before ++ n :: after)).handlers before :=
    List.map_congr_left fun _ hm =>
      congrArg forkHandlerName (nameOf_tableOf_of_mem hids (List.mem_filter.1 hm).1)
  have hbefore : (before.map (·.id)).Nodup := by
    rw [List.map_append, List.nodup_append'] at hids
    exact hids.1
  rw [← hnames, ← hhandlers]
  exact (Table.distinct_tableOf entryName hbefore).perm

end Turn

/-- **A name is made of its node's id alone**, or of that and a number, for the
nodes of the table and for others. -/
theorem nameOf_cases (entryName : String) (nodes : List Node) (id : String) :
    (tableOf entryName nodes).nameOf id = procedureName id ∨
      ∃ k, (tableOf entryName nodes).nameOf id = numbered (procedureName id) k := by
  induction nodes using List.reverseRecOn with
  | nil => exact .inl rfl
  | append_singleton nodes n ih =>
    rw [Table.tableOf_concat]
    by_cases hid : id = n.id
    · subst hid
      cases hget : (tableOf entryName nodes).byNode.get? n.id with
      | none =>
        rw [Table.nameOf_assign_self _ hget]
        exact (firstFree_cases _ _ _).imp (·.2) (·.2)
      | some name =>
        -- A node that is offered twice keeps the name it has.
        have hsame : ((tableOf entryName nodes).assign n).nameOf n.id =
            (tableOf entryName nodes).nameOf n.id := by
          simp only [Table.nameOf, Table.assign, Index.get?_insertNew, if_true, hget,
            Option.getD_some]
        rwa [hsame]
    · rwa [Table.nameOf_assign_of_ne _ hid]

end Names

/-! ## The names of a program -/

/-- The procedure subscribes to messages, so a handler is declared with it. -/
def Procedure.subscribes (q : Procedure) : Bool :=
  match q.action with
  | .subscribe _ _ => true
  | _ => false

/-- The names that the text of a program declares: the entry procedure, the
procedures, and the handlers of those that subscribe. -/
def Program.declaredNames (p : Program) (entryName : String) : List String :=
  entryName :: (p.procedures.map (·.name) ++
    (p.procedures.filter (·.subscribes)).map fun q => Names.forkHandlerName q.name)

/-- Only message starts subscribe. -/
theorem Lowering.forks_of_subscribes {t : Names.Table} {n : Node}
    (h : (procedure t n).subscribes = true) : Names.forks n = true := by
  simp only [Procedure.subscribes, procedure, action] at h
  split at h
  · rename_i heq
    split at heq <;> simp_all [Names.forks]
  · cases h

namespace Graph

variable {g : Graph} {start : Node} {config : EmitConfig}

/-- The table of names that a graph is lowered with. -/
def nameTable (g : Graph) (config : EmitConfig) : Names.Table :=
  Names.tableOf config.entryName g.toList

/-- The procedures of a program are those of its graph's nodes. -/
theorem lower_procedures :
    (g.lower start config).procedures =
      g.toList.map (Lowering.procedure (g.nameTable config)) := rfl

/-- The declared names are among the names in use, in one and the same
order. -/
theorem declaredNames_sublist :
    ((g.lower start config).declaredNames config.entryName).Sublist
      (config.entryName :: ((g.nameTable config).names g.toList ++
        (g.nameTable config).handlers g.toList)) := by
  rw [Program.declaredNames, lower_procedures, List.map_map, List.filter_map, List.map_map]
  refine List.Sublist.cons_cons _ (List.Sublist.append (List.Sublist.refl _) ?_)
  refine List.Sublist.map _ (List.monotone_filter_right _ ?_)
  intro n hn
  exact Lowering.forks_of_subscribes hn

/-- Different nodes have procedures of different names. -/
theorem nameOf_injOn (h : (g.toList.map (·.id)).Nodup) {m n : Node} (hm : m ∈ g.toList)
    (hn : n ∈ g.toList)
    (heq : (g.nameTable config).nameOf m.id = (g.nameTable config).nameOf n.id) : m = n := by
  have hnodup := (Names.Table.distinct_tableOf config.entryName h).nodup
  rw [List.nodup_cons, List.nodup_append'] at hnodup
  exact List.inj_on_of_nodup_map hnodup.2.1 hm hn heq

/-- **A node's name leads to its procedure.** -/
theorem procedure?_nameOf (h : (g.toList.map (·.id)).Nodup) {n : Node} (hn : n ∈ g.toList) :
    (g.lower start config).procedure? ((g.nameTable config).nameOf n.id) =
      some (Lowering.procedure (g.nameTable config) n) := by
  rw [Program.procedure?, lower_procedures, List.find?_map]
  -- The first node of that name is `n`, since no other has it.
  have hfound : g.toList.find? ((fun q : Procedure => q.name == (g.nameTable config).nameOf n.id) ∘
      Lowering.procedure (g.nameTable config)) = some n := by
    cases hfind : g.toList.find? ((fun q : Procedure =>
        q.name == (g.nameTable config).nameOf n.id) ∘ Lowering.procedure (g.nameTable config)) with
    | none =>
      have hne := List.find?_eq_none.1 hfind n hn
      simp [Lowering.procedure] at hne
    | some m =>
      have hname : (g.nameTable config).nameOf m.id = (g.nameTable config).nameOf n.id := by
        simpa [Lowering.procedure] using List.find?_some hfind
      rw [nameOf_injOn h (List.mem_of_find?_eq_some hfind) hn hname]
  rw [hfound, Option.map_some]

/-- **All names of an emitted program are distinct**, whatever nodes were
registered and whatever the entry procedure is called, and so the name of a
node's procedure leads back to the node. -/
theorem declaredNames_nodup (history : List Node) (start : Node) (config : EmitConfig) :
    (((ofNodes history).lower start config).declaredNames config.entryName).Nodup ∧
      ∀ n ∈ (ofNodes history).toList,
        (((ofNodes history).lower start config).procedure?
          (((ofNodes history).nameTable config).nameOf n.id)).map (·.nodeId) = some n.id := by
  have hids := (filed_ofNodes history).ids_nodup
  constructor
  · exact declaredNames_sublist.nodup
      (Names.Table.distinct_tableOf config.entryName hids).nodup
  · intro n hn
    rw [procedure?_nameOf hids hn, Option.map_some]
    rfl

/-- A start that waits for a message, so that a handler goes with it. -/
def collidingStart : Node := ⟨"Start", none, .startEvent true, some "@wf/begin", ["a-b"]⟩

/-- A history whose names collide: with the entry procedure, with a handler
and with each other, and one node is offered twice. Its nodes run in a
circle. -/
def collidingHistory : List Node :=
  [collidingStart,
   ⟨"a_b", none, .endEvent false, none, []⟩,
   ⟨"Start_fork", none, .exclusiveGateway (some "saga"), some "ok", ["a-b", "a_b"]⟩,
   ⟨"saga", none, .endEvent false, none, []⟩,
   ⟨"a-b", none, .task (some "a_b"), some "call(api.get_x())", ["Start_fork"]⟩,
   ⟨"a-b", none, .endEvent true, none, []⟩]

theorem declaredNames_nodup_colliding :
    (⟨"saga", none, .endEvent false, none, []⟩ : Node) ∈ (ofNodes collidingHistory).toList ∧
      (((ofNodes collidingHistory).lower collidingStart .default).declaredNames
        "saga").Nodup ∧
      (((ofNodes collidingHistory).lower collidingStart .default).procedure?
        (((ofNodes collidingHistory).nameTable .default).nameOf "saga")).map (·.nodeId) =
          some "saga" :=
  have hmem : (⟨"saga", none, .endEvent false, none, []⟩ : Node) ∈
      (ofNodes collidingHistory).toList := by decide
  ⟨hmem, (declaredNames_nodup collidingHistory _ .default).1,
    (declaredNames_nodup collidingHistory _ .default).2 _ hmem⟩

end Graph

end ProcessCompiler
