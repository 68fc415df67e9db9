import ProcessCompiler.Proofs.Scan.ShiftedStrings
/-!
# Raw strings in a shifted text

A raw string has no escapes, so the end of a line always is part of its value.
Where one is in it, the shifted string has another value (`rawValue_of_shifted`).
-/

namespace ProcessCompiler

namespace Grammar

namespace Scan

open Text Layout

variable {w : ℕ} {u x x' rest : List Char} {c : Char} {f : Flavour}
variable {v v' : List UInt8}

theorem rawValue_cons {n : ℕ} (hq : c ≠ '"') (hr : c ≠ '\r') (x : List Char) :
    rawValue f n (c :: x) =
      if f.admits c then (rawValue f n x).map fun (v, r) => (bytes c ++ v, r) else none := by
  rw [rawValue]
  all_goals grind -ring -linarith

/-- Behind a carriage return only a line feed may come. -/
theorem rawValue_return {n : ℕ} (h : rawValue f n ('\r' :: x) = some (v, rest)) :
    ∃ y v', x = '\n' :: y ∧ v = 10 :: v' ∧ rawValue f n y = some (v', rest) := by
  cases x with
  | nil => cases h
  | cons d y =>
    by_cases hd : d = '\n'
    · subst hd
      rw [rawValue] at h
      obtain ⟨⟨v', r⟩, hv, heq⟩ := Option.map_eq_some_iff.1 h
      obtain ⟨rfl, rfl⟩ := Prod.mk.inj heq
      exact ⟨y, v', rfl, rfl, hv⟩
    · rw [rawValue] at h
      · cases h
      · simp [hd]

/-- **Blanks and line ends in a raw string**, up to a line feed. -/
theorem rawValue_blanks {n : ℕ} (hu : ∀ c ∈ u, isBlank c = true) (hlast : u.getLast? = some '\n')
    (h : rawValue f n (u ++ x) = some (v, rest)) :
    ∃ p v', v = p ++ 10 :: v' ∧ rawValue f n x = some (v', rest) := by
  induction hn : u.length using Nat.strongRecOn generalizing u v with
  | _ k ih =>
    have hfed : ∀ {u₂ v₂}, u₂.length < k → (∀ c ∈ u₂, isBlank c = true) →
        (u₂ = [] ∨ u₂.getLast? = some '\n') → rawValue f n (u₂ ++ x) = some (v₂, rest) →
        ∃ p v', 10 :: v₂ = p ++ 10 :: v' ∧ rawValue f n x = some (v', rest) := by
      rintro u₂ v₂ hlen hblank (rfl | hlast) hv
      · exact ⟨[], v₂, rfl, hv⟩
      · obtain ⟨p, v', rfl, hx⟩ := ih _ hlen hblank hlast hv rfl
        exact ⟨10 :: p, v', rfl, hx⟩
    cases u with
    | nil => cases hlast
    | cons c u =>
      have hblank : isBlank c = true := hu c List.mem_cons_self
      have htail : ∀ d ∈ u, isBlank d = true := fun d hd => hu d (List.mem_cons_of_mem _ hd)
      have hlen : u.length < k := by rw [← hn, List.length_cons]; omega
      rw [List.cons_append] at h
      by_cases hreturn : c = '\r'
      · subst hreturn
        have hlast' := (getLast?_tail hlast).resolve_left fun h => absurd h.2 (by decide)
        obtain ⟨y, v₂, hy, rfl, hv⟩ := rawValue_return h
        cases u with
        | nil => cases hlast'
        | cons d u =>
          obtain ⟨rfl, rfl⟩ := List.cons.inj hy
          have hu₂ : u = [] ∨ u.getLast? = some '\n' := (getLast?_tail hlast').imp_left And.left
          exact hfed (Nat.lt_of_succ_lt hlen) (fun d hd => htail d (List.mem_cons_of_mem _ hd)) hu₂ hv
      · rw [rawValue_cons (ne_of_isBlank hblank rfl) hreturn] at h
        split_ifs at h with hadmits
        obtain ⟨⟨v₂, r⟩, hv, heq⟩ := Option.map_eq_some_iff.1 h
        obtain ⟨rfl, rfl⟩ := Prod.mk.inj heq
        by_cases hfeed : c = '\n'
        · subst hfeed
          exact hfed hlen htail ((getLast?_tail hlast).imp_left And.left) hv
        · have hlast' := (getLast?_tail hlast).resolve_left fun h => hfeed h.2
          obtain ⟨p, v', rfl, hx⟩ := ih _ hlen htail hlast' hv rfl
          exact ⟨bytes c ++ p, v', (List.append_assoc _ _ _).symm, hx⟩

/-- A text begins with a number of hash signs exactly if the shifted one does. -/
theorem hashes_of_shifted (n : ℕ) (h : Shifted w x x') :
    (∀ y, x = List.replicate n '#' ++ y →
      ∃ y', x' = List.replicate n '#' ++ y' ∧ Shifted w y y') ∧
    ∀ y', x' = List.replicate n '#' ++ y' → ∃ y, x = List.replicate n '#' ++ y := by
  induction n generalizing x x' with
  | zero =>
    refine ⟨?_, fun y' _ => ⟨x, rfl⟩⟩
    rintro y rfl
    exact ⟨x', rfl, h⟩
  | succ n ih =>
    constructor
    · rintro y rfl
      obtain ⟨z', rfl, hz⟩ := h.cons (by decide) (by decide)
      obtain ⟨y', rfl, hy⟩ := (ih hz).1 y rfl
      exact ⟨y', rfl, hy⟩
    · rintro y' rfl
      rcases h.atEnd_or_cons with ⟨-, hend⟩ | ⟨c, z, z', rfl, heq, -, hz⟩
      · cases hend
      · obtain ⟨rfl, rfl⟩ := List.cons.inj heq
        obtain ⟨y, rfl⟩ := (ih hz).2 y' rfl
        exact ⟨y, rfl⟩

/-- The hash signs that close a raw string. -/
theorem closes_iff (n : ℕ) (x : List Char) :
    ((x.take n).length == n && (x.take n).all (· == '#')) = true ↔
      ∃ y, x = List.replicate n '#' ++ y := by
  simp only [Bool.and_eq_true, beq_iff_eq, List.all_eq_true]
  constructor
  · rintro ⟨hlen, hall⟩
    refine ⟨x.drop n, ?_⟩
    rw [← List.eq_replicate_iff.2 ⟨hlen, hall⟩, List.take_append_drop]
  · rintro ⟨y, rfl⟩
    simp

theorem mem_of_rawValue {n : ℕ} (h : rawValue f n x = some (v, rest)) : '"' ∈ x := by
  fun_induction rawValue f n x generalizing v with
  | case2 | case3 => exact List.mem_cons_self
  | case4 r ih =>
    obtain ⟨⟨v', r'⟩, hv, -⟩ := Option.map_eq_some_iff.1 h
    exact List.mem_cons_of_mem _ (List.mem_cons_of_mem _ (ih (v := v') (by grind)))
  | case6 c r hq hr hr' hc ih =>
    obtain ⟨⟨v', r'⟩, hv, -⟩ := Option.map_eq_some_iff.1 h
    exact List.mem_cons_of_mem _ (ih (v := v') (by grind))
  | _ => cases h

/-- The beginning of a shifted line adds line feeds and blanks to the value. -/
theorem rawValue_turn {n : ℕ} (f : Flavour) (k w : ℕ) (h : rawValue f n x = some (v, rest)) :
    rawValue f n (List.replicate k '\n' ++ List.replicate w ' ' ++ x) =
      some (List.replicate k 10 ++ List.replicate w 32 ++ v, rest) := by
  have hfeed : f.admits '\n' = true := by cases f <;> rfl
  have hspace : f.admits ' ' = true := by cases f <;> rfl
  have hspaces : rawValue f n (List.replicate w ' ' ++ x) = some (List.replicate w 32 ++ v, rest) := by
    induction w with
    | zero => exact h
    | succ w ih =>
      rw [List.replicate_succ, List.cons_append, rawValue_cons (by decide) (by decide),
        if_pos hspace, ih]
      rfl
  rw [List.append_assoc, List.append_assoc]
  induction k with
  | zero => exact hspaces
  | succ k ih =>
    rw [List.replicate_succ, List.cons_append, rawValue_cons (by decide) (by decide), if_pos hfeed,
      ih]
    rfl

/-- **Raw strings in a shifted text.** -/
theorem rawValue_of_shifted {n : ℕ} (hw : 0 < w) (h : Shifted w x x')
    (hv : rawValue f n x = some (v, rest)) :
    ∃ u v' rest', x = u ++ rest ∧ rawValue f n x' = some (v', rest') ∧ Shifted w rest rest' ∧
      Revalued u v v' := by
  induction h generalizing v with
  | @stop r j k m hm hhead hj =>
    have hquote := mem_of_rawValue hv
    rcases List.mem_append.1 hquote with hquote | hquote
    · exact absurd (List.eq_of_mem_replicate hquote) (by decide)
    · exact absurd (hm _ hquote) (by decide)
  | @turn r j m x x' hm hlast hj h ih =>
    -- Behind a return a raw string has to go on with a line feed.
    have hr : r ≤ 1 := by
      rcases r with _ | _ | r
      · omega
      · omega
      · obtain ⟨y, v', hy, -⟩ := rawValue_return hv
        cases hy
    obtain rfl : j = 0 := by omega
    obtain ⟨p, v₂, rfl, hx⟩ := rawValue_blanks (isBlank_of_mem_turn r hm) (getLast?_turn r hlast) hv
    obtain ⟨u, v', rest', rfl, hv', hrest', hvalue⟩ := ih hx
    exact ⟨List.replicate r '\r' ++ '\n' :: m ++ u, _, rest', by simp, rawValue_turn f _ w hv',
      hrest', hvalue.turn hw (by simp) p _⟩
  | @keep c x x' hc hr h ih =>
    by_cases hquote : c = '"'
    · subst hquote
      rw [rawValue] at hv
      -- The quote closes the string in both texts or in none: no line ends among the signs.
      split_ifs at hv with hclose
      · obtain ⟨rfl, rfl⟩ := Prod.mk.inj (Option.some.inj hv)
        obtain ⟨y, rfl⟩ := (closes_iff n x).1 hclose
        obtain ⟨y', rfl, hy⟩ := (hashes_of_shifted n h).1 y rfl
        refine ⟨'"' :: List.replicate n '#', [], y', by simp, ?_, by simpa using hy, fun _ => rfl,
          by simp⟩
        rw [rawValue, if_pos ((closes_iff n _).2 ⟨y', rfl⟩)]
        simp
      · have hopen : ¬((x'.take n).length == n && (x'.take n).all (· == '#')) = true := by
          rw [closes_iff] at hclose ⊢
          rintro ⟨y', hy'⟩
          exact hclose ((hashes_of_shifted n h).2 y' hy')
        obtain ⟨⟨v₂, r⟩, hv₂, heq⟩ := Option.map_eq_some_iff.1 hv
        obtain ⟨rfl, rfl⟩ := Prod.mk.inj heq
        obtain ⟨u, v', rest', rfl, hv', hrest', hvalue⟩ := ih hv₂
        refine ⟨'"' :: u, 34 :: v', rest', rfl, ?_, hrest', hvalue.cons (by decide) [34]⟩
        rw [rawValue, if_neg hopen, hv', Option.map_some]
    · have hreturn : c ≠ '\r' := by
        rintro rfl
        obtain ⟨y, v', rfl, -⟩ := rawValue_return hv
        exact hr rfl rfl
      rw [rawValue_cons hquote hreturn] at hv
      split_ifs at hv with hadmits
      obtain ⟨⟨v₂, r⟩, hv₂, heq⟩ := Option.map_eq_some_iff.1 hv
      obtain ⟨rfl, rfl⟩ := Prod.mk.inj heq
      obtain ⟨u, v', rest', rfl, hv', hrest', hvalue⟩ := ih hv₂
      refine ⟨c :: u, bytes c ++ v', rest', rfl, ?_, hrest', hvalue.cons hc (bytes c)⟩
      rw [rawValue_cons hquote hreturn, if_pos hadmits, hv', Option.map_some]

/-- From its hash signs on, **a raw string is carried over**, too. -/
theorem rawStringValue_of_shifted (hw : 0 < w) (h : Shifted w x x')
    (hv : rawStringValue f x = some (v, rest)) :
    ∃ u v' rest', x = u ++ rest ∧ rawStringValue f x' = some (v', rest') ∧
      Shifted w rest rest' ∧ Revalued u v v' := by
  obtain ⟨n, r, hn, rfl, hr⟩ := rawStringValue_eq_some_iff.1 hv
  obtain ⟨y', rfl, hy⟩ := (hashes_of_shifted n h).1 _ rfl
  obtain ⟨r', rfl, hquote⟩ := hy.cons (by decide) (by decide)
  obtain ⟨u, v', rest', rfl, hv', hrest, hvalue⟩ := rawValue_of_shifted hw hquote hr
  have hmem : '\n' ∈ List.replicate n '#' ++ '"' :: u ↔ '\n' ∈ u := by simp
  refine ⟨List.replicate n '#' ++ '"' :: u, v', rest', by simp, ?_, hrest, ?_⟩
  · exact rawStringValue_eq_some_iff.2 ⟨n, r', hn, rfl, hv'⟩
  · exact ⟨fun h => hvalue.same (mt hmem.2 h), fun h => hvalue.parted (hmem.1 h)⟩

end Scan

end Grammar

end ProcessCompiler
