import Mathlib.Data.Finset.Card
import Mathlib.Data.List.Induction
import Mathlib.Data.List.Nodup
import ProcessCompiler.Graph.Basic
/-!
# Registered graphs

A graph grows by registering nodes one after another. `Graph.ofNodes` is
the graph of such a history. Its index and its nodes agree: names are
pairwise distinct (`ids_nodup`), and looking a name up gives the registered
node of that name (`get?_eq_some_iff`), whatever was offered twice. What is
registered is `firsts` of the history: of the nodes of one name, the first. So
all that can be seen of a graph is said in terms of its history, and a node that
was refused might as well not have been offered (`keeps_ofNodes`).
-/

namespace ProcessCompiler

/-- What an index says after a name was given a value: the first value of
that name, and all else as before. -/
theorem Index.get?_insertNew {α : Type} (i : Index α) (name name' : String) (value : α) :
    (i.insertNew name value).get? name' =
      if name' = name then some ((i.get? name).getD value) else i.get? name' := by
  rw [Index.insertNew]
  cases hget : i.get? name with
  | some first =>
    rw [if_pos (by simp [Index.contains, hget])]
    by_cases heq : name' = name
    · rw [heq, if_pos rfl, hget, Option.getD_some]
    · rw [if_neg heq]
  | none =>
    rw [if_neg (by simp [Index.contains, hget])]
    by_cases heq : name' = name
    · simp [heq, Index.get?]
    · have hne : (name' == name) = false := by simpa using heq
      simp [heq, hne, Index.get?, List.lookup_cons]

namespace Graph

/-- The graph after registering some nodes, in their order. -/
def ofNodes (history : List Node) : Graph :=
  history.foldl (fun g n => (g.insert n).1) .empty

/-- Registering one more node comes last. -/
theorem ofNodes_concat (history : List Node) (n : Node) :
    ofNodes (history ++ [n]) = ((ofNodes history).insert n).1 := by
  simp only [ofNodes, List.foldl_append, List.foldl_cons, List.foldl_nil]

/-- **The index fits the nodes.** Every place holds the node it is filed
under, every node is filed, and no name is filed twice. -/
structure Filed (g : Graph) : Prop where
  place_of_get? : ∀ id place, g.places.get? id = some place →
    ∃ n, g.nodes[place]? = some n ∧ n.id = id
  get?_of_place : ∀ place n, g.nodes[place]? = some n → g.places.get? n.id = some place

/-- A name that is filed nowhere belongs to no node. -/
theorem Filed.get?_isSome_of_mem {g : Graph} (h : g.Filed) {n : Node} (hn : n ∈ g.toList) :
    g.contains n.id = true := by
  obtain ⟨place, hplace⟩ := List.getElem?_of_mem hn
  rw [toList, Array.getElem?_toList] at hplace
  have hget := h.get?_of_place place n hplace
  simp only [contains, Index.contains, hget, Option.isSome_some]

/-- The graph without nodes is filed. -/
theorem filed_empty : (empty : Graph).Filed where
  place_of_get? id place h := by simp [empty, Index.get?, Index.empty] at h
  get?_of_place place n h := by simp [empty] at h

/-- Registering a node keeps the index fitting. -/
theorem Filed.insert {g : Graph} (h : g.Filed) (n : Node) : (g.insert n).1.Filed := by
  by_cases hc : g.contains n.id = true
  · rw [Graph.insert, if_pos hc]
    exact h
  · have hnone : g.places.get? n.id = none := by simpa [contains, Index.contains] using hc
    rw [Graph.insert, if_neg hc]
    constructor
    · intro id place hplace
      rw [Index.get?_insertNew, hnone, Option.getD_none] at hplace
      by_cases hid : id = n.id
      · rw [if_pos hid, Option.some.injEq] at hplace
        exact ⟨n, by rw [← hplace, Array.getElem?_push_size], hid.symm⟩
      · rw [if_neg hid] at hplace
        obtain ⟨m, hm, hmid⟩ := h.place_of_get? id place hplace
        have hlt : place < g.nodes.size := (Array.getElem?_eq_some_iff.1 hm).1
        exact ⟨m, by rw [Array.getElem?_push_lt hlt, ← Array.getElem?_eq_getElem hlt, hm], hmid⟩
    · intro place m hm
      rw [Index.get?_insertNew, hnone, Option.getD_none]
      rcases Nat.lt_trichotomy place g.nodes.size with hlt | heq | hgt
      · rw [Array.getElem?_push_lt hlt, ← Array.getElem?_eq_getElem hlt] at hm
        have hfiled := h.get?_of_place place m hm
        have hid : m.id ≠ n.id := by
          intro hid
          rw [← hid, hfiled] at hnone
          cases hnone
        rw [if_neg hid, hfiled]
      · rw [heq, Array.getElem?_push_size, Option.some.injEq] at hm
        rw [heq, ← hm, if_pos rfl]
      · rw [Array.getElem?_eq_none (by simp; omega)] at hm
        cases hm

/-- **Every history leaves the index fitting.** -/
theorem filed_ofNodes (history : List Node) : (ofNodes history).Filed := by
  induction history using List.reverseRecOn with
  | nil => exact filed_empty
  | append_singleton history n ih =>
    rw [ofNodes_concat]
    exact ih.insert n

/-- The names of a filed graph's nodes are pairwise distinct. -/
theorem Filed.ids_nodup {g : Graph} (h : g.Filed) : (g.toList.map (·.id)).Nodup := by
  rw [List.nodup_iff_getElem?_ne_getElem?]
  intro i j hij hj heq
  simp only [List.getElem?_map, toList, Array.getElem?_toList] at heq
  rw [List.length_map, toList, Array.length_toList] at hj
  have hi : i < g.nodes.size := by omega
  have hid : (g.nodes[i]).id = (g.nodes[j]).id := by
    simpa [Array.getElem?_eq_getElem hi, Array.getElem?_eq_getElem hj] using heq
  have hgi := h.get?_of_place i _ (Array.getElem?_eq_getElem hi)
  have hgj := h.get?_of_place j _ (Array.getElem?_eq_getElem hj)
  rw [hid, hgj, Option.some.injEq] at hgi
  omega

/-- **Looking a name up** gives the registered node of that name. -/
theorem Filed.get?_eq_some_iff {g : Graph} (h : g.Filed) {id : String} {n : Node} :
    g.get? id = some n ↔ n ∈ g.toList ∧ n.id = id := by
  simp only [get?, Option.bind_eq_some_iff]
  constructor
  · rintro ⟨place, hplace, hn⟩
    obtain ⟨m, hm, hid⟩ := h.place_of_get? id place hplace
    rw [hm, Option.some.injEq] at hn
    subst hn
    exact ⟨by rw [toList, Array.mem_toList_iff]; exact Array.mem_of_getElem? hm, hid⟩
  · rintro ⟨hn, rfl⟩
    obtain ⟨place, hplace⟩ := List.getElem?_of_mem hn
    rw [toList, Array.getElem?_toList] at hplace
    exact ⟨place, h.get?_of_place place n hplace, hplace⟩

/-- A name is taken exactly if some node has it. -/
theorem Filed.contains_iff {g : Graph} (h : g.Filed) {id : String} :
    g.contains id = true ↔ ∃ n ∈ g.toList, n.id = id := by
  constructor
  · intro hc
    obtain ⟨place, hplace⟩ := Option.isSome_iff_exists.1 hc
    obtain ⟨n, hn, hid⟩ := h.place_of_get? id place hplace
    exact ⟨n, by rw [toList, Array.mem_toList_iff]; exact Array.mem_of_getElem? hn, hid⟩
  · rintro ⟨n, hn, rfl⟩
    exact h.get?_isSome_of_mem hn

/-- **A place that is filed lies inside the nodes**, and looking its name up gives
the node there. -/
theorem Filed.get?_of_place_eq {g : Graph} (h : g.Filed) {id : String} {place : Nat}
    (hplace : g.places.get? id = some place) :
    ∃ _ : place < g.nodes.size, g.get? id = some g.nodes[place] := by
  obtain ⟨n, hn, -⟩ := h.place_of_get? id place hplace
  obtain ⟨hlt, rfl⟩ := Array.getElem?_eq_some_iff.1 hn
  exact ⟨hlt, by rw [get?, hplace, Option.bind_some, hn]⟩

/-- A name is taken exactly if looking it up gives something. -/
theorem Filed.contains_eq_isSome {g : Graph} (h : g.Filed) (id : String) :
    g.contains id = (g.get? id).isSome := by
  cases hplace : g.places.get? id with
  | none => rw [contains, Index.contains, get?, hplace, Option.bind_none]; rfl
  | some place =>
    obtain ⟨_, hget⟩ := h.get?_of_place_eq hplace
    rw [contains, Index.contains, hplace, hget]
    rfl

/-- Registering a node takes its name and no other. -/
theorem contains_insert (g : Graph) (n : Node) (id : String) :
    (g.insert n).1.contains id = true ↔ id = n.id ∨ g.contains id = true := by
  rw [insert]
  by_cases hn : g.contains n.id = true
  · rw [if_pos hn]
    exact ⟨Or.inr, fun h => h.elim (fun heq => heq ▸ hn) fun h => h⟩
  · rw [if_neg hn]
    simp only [contains, Index.contains, Index.get?_insertNew]
    by_cases hid : id = n.id
    · simp [hid]
    · simp [hid]

/-- Looking a name up scans the nodes. -/
theorem Filed.get?_eq_find? {g : Graph} (h : g.Filed) (id : String) :
    g.get? id = g.toList.find? (·.id == id) := by
  cases hfind : g.toList.find? (·.id == id) with
  | some n =>
    have hid : n.id = id := by simpa using List.find?_some hfind
    exact h.get?_eq_some_iff.2 ⟨List.mem_of_find?_eq_some hfind, hid⟩
  | none =>
    rw [Option.eq_none_iff_forall_ne_some]
    intro n hn
    obtain ⟨hmem, hid⟩ := h.get?_eq_some_iff.1 hn
    exact absurd (beq_iff_eq.2 hid) (List.find?_eq_none.1 hfind n hmem)

/-! ## The nodes that are kept -/

/-- Of the nodes of one name, the first. -/
def firsts : List Node → List Node
  | [] => []
  | n :: rest => n :: (firsts rest).filter (·.id ≠ n.id)

/-- Nothing but nodes of the history is kept. -/
theorem firsts_sublist (history : List Node) : (firsts history).Sublist history := by
  induction history with
  | nil => exact List.Sublist.refl _
  | cons n history ih => exact (List.filter_sublist.trans ih).cons_cons n

/-- A node that comes last is kept if its name is new. -/
theorem firsts_concat (history : List Node) (n : Node) :
    firsts (history ++ [n]) =
      if n.id ∈ history.map (·.id) then firsts history else firsts history ++ [n] := by
  induction history with
  | nil => rfl
  | cons m history ih =>
    rw [List.cons_append, firsts, ih, firsts, List.map_cons]
    by_cases hn : n.id ∈ history.map (·.id)
    · rw [if_pos hn, if_pos (List.mem_cons_of_mem _ hn)]
    · rw [if_neg hn, List.filter_append, List.filter_singleton]
      by_cases hm : n.id = m.id
      · rw [if_pos (hm ▸ List.mem_cons_self), decide_eq_false (by simpa using hm), cond_false,
          List.append_nil]
      · rw [if_neg (by simp [hm, hn]), decide_eq_true hm, cond_true, List.cons_append]

/-- The names of a history are those of the nodes it keeps. -/
theorem mem_ids_firsts {history : List Node} {id : String} :
    id ∈ (firsts history).map (·.id) ↔ id ∈ history.map (·.id) := by
  induction history with
  | nil => rfl
  | cons n history ih =>
    simp only [firsts, List.map_cons, List.mem_cons, ← ih, List.mem_map, List.mem_filter,
      decide_eq_true_eq]
    grind

/-- The node that is kept of a name is the first one of the history. -/
theorem find?_of_mem_firsts {history : List Node} {n : Node} (h : n ∈ firsts history) :
    history.find? (·.id == n.id) = some n := by
  induction history with
  | nil => cases h
  | cons m history ih =>
    rcases List.mem_cons.1 h with rfl | hmem
    · simp
    · obtain ⟨hrest, hid⟩ := List.mem_filter.1 hmem
      have hne : (m.id == n.id) = false :=
        beq_eq_false_iff_ne.2 fun heq => of_decide_eq_true hid heq.symm
      rw [List.find?_cons, hne]
      exact ih hrest

/-- Nodes of distinct names are all kept. -/
theorem firsts_of_nodup {history : List Node} (h : (history.map (·.id)).Nodup) :
    firsts history = history := by
  induction history with
  | nil => rfl
  | cons n history ih =>
    rw [List.map_cons, List.nodup_cons] at h
    rw [firsts, ih h.2, List.filter_eq_self.2]
    intro m hm
    have hne : m.id ≠ n.id := fun heq => h.1 (heq ▸ List.mem_map.2 ⟨m, hm, rfl⟩)
    exact decide_eq_true hne

/-- **A history registers the nodes it keeps**, in their order. -/
theorem toList_ofNodes (history : List Node) : (ofNodes history).toList = firsts history := by
  induction history using List.reverseRecOn with
  | nil => rfl
  | append_singleton history n ih =>
    have hcontains : (ofNodes history).contains n.id = true ↔ n.id ∈ history.map (·.id) := by
      rw [(filed_ofNodes history).contains_iff, ← mem_ids_firsts, ← ih, List.mem_map]
    rw [ofNodes_concat, firsts_concat, insert]
    by_cases hn : n.id ∈ history.map (·.id)
    · rw [if_pos (hcontains.2 hn), if_pos hn, ih]
    · rw [if_neg (mt hcontains.1 hn), if_neg hn, ← ih, toList, toList, Array.toList_push]

/-- The names that are taken after a history are those it offered. -/
theorem contains_ofNodes_iff {history : List Node} {id : String} :
    (ofNodes history).contains id = true ↔ id ∈ history.map (·.id) := by
  rw [(filed_ofNodes history).contains_iff, toList_ofNodes, ← List.mem_map, mem_ids_firsts]

/-- Keeping the first node of a name once is enough. -/
theorem firsts_firsts (history : List Node) : firsts (firsts history) = firsts history := by
  refine firsts_of_nodup ?_
  rw [← toList_ofNodes]
  exact (filed_ofNodes history).ids_nodup

/-- What is not kept leaves no trace: registering the kept nodes alone gives
the same graph. -/
theorem ofNodes_firsts (history : List Node) : ofNodes (firsts history) = ofNodes history := by
  induction history using List.reverseRecOn with
  | nil => rfl
  | append_singleton history n ih =>
    rw [firsts_concat]
    by_cases hn : n.id ∈ history.map (·.id)
    · rw [if_pos hn, ih, ofNodes_concat, insert, if_pos (contains_ofNodes_iff.2 hn)]
    · rw [if_neg hn, ofNodes_concat, ofNodes_concat, ih]

/-! ## What is seen of a history -/

/-- **Looking a name up after a history** gives the first node of that name that
was offered. -/
theorem get?_ofNodes (history : List Node) (id : String) :
    (ofNodes history).get? id = history.find? (·.id == id) := by
  cases hget : (ofNodes history).get? id with
  | some n =>
    obtain ⟨hn, rfl⟩ := (filed_ofNodes history).get?_eq_some_iff.1 hget
    rw [toList_ofNodes] at hn
    exact (find?_of_mem_firsts hn).symm
  | none =>
    rw [(filed_ofNodes history).get?_eq_find?, toList_ofNodes, List.find?_eq_none] at hget
    refine (List.find?_eq_none.2 fun n hn heq => ?_).symm
    -- A name that was offered belongs to a node that is kept.
    obtain ⟨m, hm, hid⟩ := List.mem_map.1 (mem_ids_firsts.2 (List.mem_map_of_mem hn))
    exact hget m hm (by rw [hid]; exact heq)

/-- There are as many nodes as names were offered. -/
theorem size_ofNodes (history : List Node) :
    (ofNodes history).size = (history.map (·.id)).toFinset.card := by
  have hids := (filed_ofNodes history).ids_nodup
  have hsame : (history.map (·.id)).toFinset = ((ofNodes history).toList.map (·.id)).toFinset := by
    ext id
    rw [List.mem_toFinset, List.mem_toFinset, toList_ofNodes, mem_ids_firsts]
  rw [hsame, List.toFinset_card_of_nodup hids, List.length_map, toList, Array.length_toList, size]

/-- A node is refused exactly if its name is taken. -/
theorem insert_refused_iff {g : Graph} {n : Node} :
    (g.insert n).2 = false ↔ g.contains n.id = true := by
  rw [insert]
  split_ifs with hn
  · exact ⟨fun _ => hn, fun _ => rfl⟩
  · exact ⟨False.elim, fun h => absurd h hn⟩

/-- **A refused node leaves no trace**, whatever is registered after it. -/
theorem ofNodes_of_refused {before after : List Node} {n : Node}
    (h : ((ofNodes before).insert n).2 = false) :
    ofNodes (before ++ n :: after) = ofNodes (before ++ after) := by
  have hsame : ((ofNodes before).insert n).1 = ofNodes before := by
    rw [insert, if_pos (insert_refused_iff.1 h)]
  rw [List.append_cons, ofNodes, List.foldl_append, ← ofNodes, ofNodes_concat, hsame, ofNodes,
    ← List.foldl_append, ← ofNodes]

/-- **What a graph keeps of its history.** The index holds the names of the nodes
and no others, each with the place of its node, so looking a name up never leaves
the nodes. It gives the first node that was offered under the name. The nodes stand
in the order in which their names were first offered, each name once. -/
structure Keeps (history : List Node) (g : Graph) : Prop where
  place_iff : ∀ id place, g.places.get? id = some place ↔
    ∃ n, g.nodes[place]? = some n ∧ n.id = id
  inside : ∀ id place, g.places.get? id = some place →
    ∃ _ : place < g.nodes.size, g.get? id = some g.nodes[place]
  first : ∀ id, g.get? id = history.find? (·.id == id)
  missing : ∀ id, g.get? id = none ↔ ∀ n ∈ history, n.id ≠ id
  contains : ∀ id, g.contains id = (g.get? id).isSome
  nodes : g.toList = firsts history
  ids_nodup : (g.toList.map (·.id)).Nodup
  size : g.size = (history.map (·.id)).toFinset.card

/-- **Index and nodes stay in step**, whatever nodes are offered one after another.
A node is refused exactly if its name was offered before, and then everything is,
and will be, as if it had not been offered. -/
theorem keeps_ofNodes (history : List Node) :
    (ofNodes history).Keeps history ∧
      ∀ before n after, history = before ++ n :: after →
        (((ofNodes before).insert n).2 = false ↔ n.id ∈ before.map (·.id)) ∧
        (((ofNodes before).insert n).2 = false → ofNodes history = ofNodes (before ++ after)) := by
  have hfiled := filed_ofNodes history
  constructor
  · constructor
    · intro id place
      refine ⟨hfiled.place_of_get? id place, ?_⟩
      rintro ⟨n, hn, rfl⟩
      exact hfiled.get?_of_place place n hn
    · exact fun id place hplace => hfiled.get?_of_place_eq hplace
    · exact get?_ofNodes history
    · intro id
      rw [get?_ofNodes, List.find?_eq_none]
      simp only [beq_iff_eq, ne_eq]
    · exact hfiled.contains_eq_isSome
    · exact toList_ofNodes history
    · exact hfiled.ids_nodup
    · exact size_ofNodes history
  · rintro before n after rfl
    exact ⟨insert_refused_iff.trans contains_ofNodes_iff, ofNodes_of_refused⟩

/-- A history that offers a name twice, the second time for a node of another
kind, and goes on after that. -/
def repeatedHistory : List Node :=
  [⟨"a", none, .task none, none, []⟩,
   ⟨"s1", none, .startEvent false, none, ["a"]⟩,
   ⟨"a", none, .startEvent true, none, []⟩,
   ⟨"s2", none, .startEvent true, none, []⟩]

theorem keeps_ofNodes_repeated :
    ((ofNodes (repeatedHistory.take 2)).insert ⟨"a", none, .startEvent true, none, []⟩).2 = false ∧
      ofNodes repeatedHistory = ofNodes (repeatedHistory.eraseIdx 2) ∧
      (ofNodes repeatedHistory).get? "a" = some ⟨"a", none, .task none, none, []⟩ ∧
      (ofNodes repeatedHistory).startEvents.map (·.id) = ["s1", "s2"] := by
  have hrefused : ((ofNodes (repeatedHistory.take 2)).insert
      ⟨"a", none, .startEvent true, none, []⟩).2 = false := by decide
  obtain ⟨hkeeps, hrest⟩ := keeps_ofNodes repeatedHistory
  refine ⟨hrefused, (hrest (repeatedHistory.take 2) _ (repeatedHistory.drop 3) rfl).2 hrefused, ?_, ?_⟩
  · rw [hkeeps.first]
    decide
  · rw [startEvents, hkeeps.nodes]
    decide

end Graph

end ProcessCompiler
