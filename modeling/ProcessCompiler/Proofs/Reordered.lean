import Mathlib.Data.List.Basic
/-!
# Lists in another order

Two lists hold the same entries, and those of one key stand in the same order.
Looking for the first entry of a key finds the same in both (`find?_eq`), and
going through both comes to the same if entries of different keys can be taken
in any order (`foldl_eq`).
-/

namespace ProcessCompiler

/-- **Another order.** Two lists hold the same entries, and those of one key
stand in the same order. -/
structure Reordered {α κ : Type} [DecidableEq κ] (key : α → κ) (l l' : List α) : Prop where
  perm : l.Perm l'
  stable : ∀ a ∈ l, l.filter (key · == key a) = l'.filter (key · == key a)

namespace Reordered

variable {α κ : Type} [DecidableEq κ] {key : α → κ} {l l' : List α}

/-- A list is in an order of its own entries. -/
theorem refl (key : α → κ) (l : List α) : Reordered key l l := ⟨.refl l, fun _ _ => rfl⟩

/-- The first entry of a key is the same in both lists. -/
theorem find?_eq (h : Reordered key l l') (k : κ) :
    l.find? (key · == k) = l'.find? (key · == k) := by
  by_cases hk : ∃ a ∈ l, key a = k
  · obtain ⟨a, ha, rfl⟩ := hk
    rw [← List.head?_filter, ← List.head?_filter, h.stable a ha]
  · -- A key that no entry of one list has is missing in the other, too.
    have hnone : ∀ a ∈ l, ¬(key a == k) = true := fun a ha heq => hk ⟨a, ha, by simpa using heq⟩
    have hnone' : ∀ a ∈ l', ¬(key a == k) = true := fun a ha => hnone a (h.perm.mem_iff.2 ha)
    rw [List.find?_eq_none.2 hnone, List.find?_eq_none.2 hnone']

/-- The entries of a key may be put before the others. -/
theorem filter_append (key : α → κ) (l : List α) (k : κ) :
    Reordered key l (l.filter (key · == k) ++ l.filter (!key · == k)) where
  perm := (List.filter_append_perm (key · == k) l).symm
  stable a _ := by
    rw [List.filter_append, List.filter_filter, List.filter_filter]
    by_cases hk : key a = k
    · subst hk
      simp
    · have hnone : l.filter (fun x => key x == key a && key x == k) = [] := by
        simp only [List.filter_eq_nil_iff, Bool.and_eq_true, beq_iff_eq, not_and]
        exact fun x _ hx => hx ▸ hk
      rw [hnone, List.nil_append]
      refine List.filter_congr fun x _ => ?_
      by_cases hx : key x = key a
      · simp [hx, hk]
      · simp [hx]

/-- The first entry of a list stands in the other before all of its key, and
the rest is in another order. -/
theorem exists_append_cons {a : α} (h : Reordered key (a :: l) l') :
    ∃ before after, l' = before ++ a :: after ∧ (∀ b ∈ before, key b ≠ key a) ∧
      Reordered key l (before ++ after) := by
  have hstable := h.stable a List.mem_cons_self
  rw [List.filter_cons_of_pos (by simp)] at hstable
  obtain ⟨before, after, rfl, hbefore, -, hafter⟩ := List.filter_eq_cons_iff.1 hstable.symm
  refine ⟨before, after, rfl, fun b hb => by simpa using hbefore b hb, ?_, fun b hb => ?_⟩
  · exact (List.perm_cons a).1 (h.perm.trans List.perm_middle)
  · have hfilter := h.stable b (List.mem_cons_of_mem a hb)
    rw [List.filter_append, List.filter_cons, List.filter_cons] at hfilter
    rw [List.filter_append]
    split at hfilter
    next heq =>
      -- Entries of the key of `a` stand behind it only.
      have hkey : key a = key b := by simpa using heq
      have hnone : before.filter (key · == key b) = [] :=
        List.filter_eq_nil_iff.2 fun c hc => hkey ▸ hbefore c hc
      rw [hnone, List.nil_append] at hfilter ⊢
      exact (List.cons.inj hfilter).2
    next => exact hfilter

/-- Going through both lists comes to the same if the order counts among
entries of one key only. -/
theorem foldl_eq {β : Type} {f : β → α → β} (h : Reordered key l l')
    (hcomm : ∀ a ∈ l, ∀ b ∈ l, key a ≠ key b → ∀ r, f (f r a) b = f (f r b) a) (r : β) :
    l.foldl f r = l'.foldl f r := by
  induction l generalizing l' r with
  | nil => rw [h.perm.nil_eq]
  | cons a l ih =>
    obtain ⟨before, after, rfl, hbefore, hrest⟩ := h.exists_append_cons
    have hmem : ∀ b ∈ before, b ∈ a :: l := fun b hb =>
      h.perm.mem_iff.2 (List.mem_append_left _ hb)
    have hfront : ∀ r, f (before.foldl f r) a = before.foldl f (f r a) := by
      clear h hrest ih
      induction before with
      | nil => exact fun _ => rfl
      | cons b before ihbefore =>
        intro r
        obtain ⟨hb, hbefore⟩ := List.forall_mem_cons.1 hbefore
        obtain ⟨hbmem, hmem⟩ := List.forall_mem_cons.1 hmem
        rw [List.foldl_cons, List.foldl_cons, ihbefore hbefore hmem,
          hcomm b hbmem a List.mem_cons_self hb]
    rw [List.foldl_append, List.foldl_cons, List.foldl_cons, hfront, ← List.foldl_append]
    exact ih hrest (fun b hb c hc => hcomm b (List.mem_cons_of_mem a hb) c
      (List.mem_cons_of_mem a hc)) (f r a)

end Reordered

end ProcessCompiler
