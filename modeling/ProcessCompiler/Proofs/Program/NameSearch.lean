import ProcessCompiler.Proofs.Loop
import ProcessCompiler.Proofs.Program.NameTable
/-!
# The search for a name

At its turn a node asks for the name of its id. While the name on trial is not
free, the next number from two on is put behind the name that was asked for.
Nothing bounds this loop, but every taken name rules out at most two numbers, so
it ends (`loop_firstFree`), and it ends with the least number that will do. What
is taken at a node's turn is the entry procedure's name, the names of the nodes
before it and those of their handlers: `chosen_nameOf`.
-/

namespace ProcessCompiler

namespace Names

variable {taken : List String} {base : String} {n : Node}

/-- **A name is free for a node** if it is not taken and, where the node is a
message start, the name of the handler that goes with it is not taken either. -/
def Free (taken : List String) (n : Node) (name : String) : Prop :=
  name ∉ taken ∧ (n.kind = .startEvent true → forkHandlerName name ∉ taken)

instance (taken : List String) (n : Node) (name : String) : Decidable (Free taken n name) :=
  inferInstanceAs (Decidable (_ ∧ _))

theorem isFree_iff {name : String} : isFree (forks n) taken name = true ↔ Free taken n name := by
  by_cases hforks : n.kind = .startEvent true <;> simp [isFree, Free, forks, hforks]

theorem isFree_eq_false_iff {name : String} :
    isFree (forks n) taken name = false ↔ ¬Free taken n name := by
  rw [← isFree_iff, Bool.not_eq_true]

/-! ## The loop -/

/-- Where a search stands: the name on trial, and the number to try next. -/
structure Search where
  name : String
  number : ℕ

/-- Put the next number behind the name that was asked for. -/
def Search.retry (base : String) (s : Search) : Search := ⟨numbered base s.number, s.number + 1⟩

theorem Search.iterate_retry (base : String) (i : ℕ) :
    (retry base)^[i + 1] ⟨base, 2⟩ = ⟨numbered base (i + 2), i + 3⟩ := by
  induction i with
  | zero => rfl
  | succ i ih => rw [Function.iterate_succ_apply', ih, retry]

/-- **The search for a name ends**, and with the name that the table gives. -/
theorem loop_firstFree (forks : Bool) (taken : List String) (base : String) :
    ∃ rounds ≤ 2 * taken.length + 1, ∃ number,
      Loop (fun s : Search => isFree forks taken s.name) (Search.retry base) rounds
        ⟨base, 2⟩ ⟨firstFree forks taken base, number⟩ := by
  cases hbase : isFree forks taken base with
  | true =>
    refine ⟨0, Nat.zero_le _, 2, ?_⟩
    rw [firstFree, if_pos hbase]
    exact .leave hbase
  | false =>
    obtain ⟨i, hi, hname, hfree, hleast⟩ := exists_firstFree_eq_numbered hbase
    refine ⟨i + 1, by omega, i + 3, ?_⟩
    rw [hname, loop_iff]
    refine ⟨(Search.iterate_retry base i).symm, hfree, fun m hm => ?_⟩
    -- The first trial is the name itself, and the later ones are numbered.
    cases m with
    | zero => exact hbase
    | succ m =>
      rw [Search.iterate_retry]
      exact hleast m (by omega)

/-! ## The name that is chosen -/

/-- **How a node comes by its name**, given the names that are taken at its turn.
The search ends with the name, which is the node's own if that is free, and has
the least number that makes it free if not. -/
structure Chosen (taken : List String) (n : Node) (name : String) : Prop where
  ends : ∃ rounds ≤ 2 * taken.length + 1, ∃ number,
    Loop (fun s : Search => isFree (forks n) taken s.name) (Search.retry (procedureName n.id))
      rounds ⟨procedureName n.id, 2⟩ ⟨name, number⟩
  own : Free taken n (procedureName n.id) → name = procedureName n.id
  least : ¬Free taken n (procedureName n.id) → ∃ k ≥ 2, name = numbered (procedureName n.id) k ∧
    Free taken n name ∧ ∀ j, 2 ≤ j → j < k → ¬Free taken n (numbered (procedureName n.id) j)

/-- The name that the table gives is chosen so. -/
theorem chosen_firstFree (taken : List String) (n : Node) :
    Chosen taken n (firstFree (forks n) taken (procedureName n.id)) where
  ends := loop_firstFree (forks n) taken (procedureName n.id)
  own hfree := if_pos (isFree_iff.2 hfree)
  least hbusy := by
    obtain ⟨i, -, hname, hfree, hleast⟩ :=
      exists_firstFree_eq_numbered (isFree_eq_false_iff.2 hbusy)
    rw [hname]
    refine ⟨i + 2, by omega, rfl, isFree_iff.1 hfree, fun j hj hlt => ?_⟩
    obtain ⟨j, rfl⟩ := Nat.exists_eq_add_of_le' hj
    exact isFree_eq_false_iff.1 (hleast j (by omega))

end Names

namespace Graph

open Names

/-- **Every node has the first name that is free at its turn**, whatever nodes
were registered and whatever the entry procedure is called. Taken are then the
name of the entry procedure, the names of the nodes before it, and those of the
handlers that these nodes fork, and nothing else. The search for the name ends. -/
theorem chosen_nameOf (history : List Node) (config : EmitConfig) {before after : List Node}
    {n : Node} (hsplit : (ofNodes history).toList = before ++ n :: after) :
    let t := (ofNodes history).nameTable config
    let taken := (tableOf config.entryName before).taken
    taken.Perm (config.entryName :: (t.names before ++ t.handlers before)) ∧
      Chosen taken n (t.nameOf n.id) := by
  intro t taken
  have hids := (filed_ofNodes history).ids_nodup
  rw [hsplit] at hids
  have ht : t = tableOf config.entryName (before ++ n :: after) := by rw [← hsplit]; rfl
  rw [ht]
  refine ⟨taken_tableOf_perm hids, ?_⟩
  rw [nameOf_tableOf_append hids]
  exact chosen_firstFree taken n

/-- A message start whose name is taken, and whose second choice would have a
handler that is named like another node. -/
def squeezedStart : Node := ⟨"a-b", none, .startEvent true, some "@wf/begin", []⟩

/-- The nodes that stand in its way. -/
def squeezing : List Node :=
  [⟨"a_b", none, .endEvent false, none, []⟩,
   ⟨"a_b_2_fork", none, .endEvent false, none, []⟩]

theorem chosen_nameOf_squeezed :
    (ofNodes (squeezing ++ squeezing ++ [squeezedStart])).toList =
        squeezing ++ squeezedStart :: [] ∧
      ((ofNodes (squeezing ++ squeezing ++ [squeezedStart])).nameTable .default).nameOf "a-b" =
        "a_b_3" ∧
      ∃ k ≥ 2, "a_b_3" = numbered "a_b" k ∧
        Free (tableOf "saga" squeezing).taken squeezedStart "a_b_3" ∧
        ∀ j, 2 ≤ j → j < k →
          ¬Free (tableOf "saga" squeezing).taken squeezedStart (numbered "a_b" j) := by
  have hsplit : (ofNodes (squeezing ++ squeezing ++ [squeezedStart])).toList =
      squeezing ++ squeezedStart :: [] := by decide
  have hname : ((ofNodes (squeezing ++ squeezing ++ [squeezedStart])).nameTable .default).nameOf
      "a-b" = "a_b_3" := by decide +kernel
  have hbase : procedureName squeezedStart.id = "a_b" := by decide +kernel
  have hbusy : ¬Free (tableOf "saga" squeezing).taken squeezedStart
      (procedureName squeezedStart.id) := by decide +kernel
  have hleast := (chosen_nameOf (squeezing ++ squeezing ++ [squeezedStart]) .default
    hsplit).2.least hbusy
  rw [hbase] at hleast
  exact ⟨hsplit, hname, hname ▸ hleast⟩

end Graph

end ProcessCompiler
