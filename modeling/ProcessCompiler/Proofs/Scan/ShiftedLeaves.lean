import ProcessCompiler.Proofs.Scan.ShiftedLiterals
/-!
# Leaves of a shifted text

A leaf of a text is found in the shifted text, too, and means the same there,
unless its piece is broken (`follows_leaf`).
-/

namespace ProcessCompiler

namespace Grammar

namespace Scan

open Text Layout

variable {w : ℕ} {u x x' z rest : List Char} {c : Char} {l : Leaf}

/-- The sense of the leaf at the start of a text. -/
def leafSense (x : List Char) : Option (List Sense × List Char) :=
  (leaf x).map fun (l, rest) => ([senseOf (.leaf l)], rest)

/-- **What a step comes to in the shifted text**, from what it means in the text,
the piece it takes and what follows. -/
inductive Follows (w : ℕ) (found : Option (List Sense × List Char)) (S : List Sense)
    (piece rest : List Char) : Prop where
  /-- The same is found, and the text goes on at the same place. -/
  | same {rest' : List Char} (hwhole : isBroken piece = false) (hfound : found = some (S, rest'))
      (hrest : Shifted w rest rest')
  /-- The piece is broken. If something is found, it means something else. -/
  | changed (hbroken : isBroken piece = true)
      (hfound : ∀ S' rest', found = some (S', rest') → S'.length = S.length ∧ S' ≠ S)

/-! ## Pieces inside a line -/

theorem breaksIn_of_not_mem {f : Flavour} {s : StringState} (h : '\n' ∉ x) :
    breaksIn f s x = false := by
  induction x generalizing s with
  | nil => rfl
  | cons c x ih =>
    rw [List.mem_cons, not_or] at h
    simp only [breaksIn]
    split
    · simp [Ne.symm h.1, ih h.2]
    · rfl

/-- A piece inside a line is not broken. -/
theorem isBroken_of_not_mem (h : '\n' ∉ u) : isBroken u = false := by
  unfold isBroken
  split
  · exact breaksIn_of_not_mem fun hmem => h (by simp [hmem])
  · exact breaksIn_of_not_mem fun hmem => h (by simp [hmem])
  · exact breaksIn_of_not_mem fun hmem => h (by simp [hmem])
  · rw [Bool.eq_false_iff, Ne, List.contains_iff_mem]
    exact h

/-! ## Lifetimes -/

theorem take_two_of_shifted (h : Shifted w x x') :
    (x'.take 2 != ['r', '#']) = (x.take 2 != ['r', '#']) := by
  obtain ⟨u, b, b', rfl, rfl, -, hb, hb', -⟩ := h.exists_line
  rw [take_two_append (border_of_atEnd hb), take_two_append (border_of_atEnd hb')]

theorem looksQuoted_of_shifted (h : Shifted w x x') : looksQuoted x' = looksQuoted x := by
  obtain ⟨u, b, b', rfl, rfl, -, hb, hb', -⟩ := h.exists_line
  rw [looksQuoted_append (border_of_atEnd hb), looksQuoted_append (border_of_atEnd hb')]

theorem not_digit_of_word (h : startsWith isWordStart x = true) : startsWith isDigit x = false := by
  cases x with
  | nil => rfl
  | cons c x => exact isDigit_of_isWordStart h

/-- A name that begins a literal begins one in the shifted text. -/
theorem literal_isSome_of_shifted (hw : 0 < w) (h : Shifted w x x') {n : Leaf}
    (hname : name x = some (n, rest)) (hquote : startsWith (· == '\'') rest = false)
    (hl : (literal x).isSome = true) : (literal x').isSome = true := by
  have hstart := startsWith_of_name hname
  have hstart' : startsWith isWordStart x' = true := by
    rw [startsWith_of_shifted h (by decide) (by decide), hstart]
  rw [literal_of_not_digit (not_digit_of_word hstart)] at hl
  rw [literal_of_not_digit (not_digit_of_word hstart')]
  obtain ⟨⟨l, r⟩, hl⟩ := Option.isSome_iff_exists.1 hl
  rcases quoted_of_shifted hw h hl with ⟨l', rest', hl', -⟩ | ⟨-, z, rfl | rfl⟩
  · rw [hl']
    rfl
  · cases hstart'
  · obtain ⟨u, rest', -, -, -, hname', hrest⟩ := inLine_name.exists_of_shifted h hname
    obtain rfl := (Prod.mk.inj (Option.some.inj hname')).2
    rw [← startsWith_of_shifted hrest (by decide) (by decide)] at hquote
    cases hquote

/-- **A lifetime of a shifted text** is the same one. -/
theorem lifetime_of_shifted (hw : 0 < w) (h : Shifted w x x') (hl : lifetime x = some (l, rest)) :
    ∃ u rest', x = u ++ rest ∧ '\n' ∉ u ∧ lifetime x' = some (l, rest') ∧ Shifted w rest rest' := by
  unfold lifetime at hl
  rcases hname : name x with _ | ⟨n, after⟩
  · rw [hname] at hl
    cases hl
  obtain ⟨u, after', hu, -, hline, hname', hafter⟩ := inLine_name.exists_of_shifted h hname
  have hquote := startsWith_of_shifted (p := (· == '\'')) hafter rfl rfl
  have hhash := startsWith_of_shifted (p := (· == '#')) hafter rfl rfl
  simp only [hname] at hl
  split_ifs at hl with hstop hlit hx
  all_goals
    obtain ⟨rfl, rfl⟩ := Prod.mk.inj (Option.some.inj hl)
    have hlifetime : lifetime x' = if (literal x').isSome then some (.punct '\'' true, x')
        else if looksQuoted x' then none else some (.lifetime (nameText n), after') := by
      rw [← hquote, ← hhash, ← take_two_of_shifted h] at hstop
      simp only [lifetime, hname', if_neg hstop]
    rw [Bool.not_eq_true, Bool.or_eq_false_iff] at hstop
  · have hlit' := literal_isSome_of_shifted hw h hname hstop.1 hlit
    exact ⟨[], x', rfl, List.not_mem_nil, by rw [hlifetime, if_pos hlit'], h⟩
  · have hx' : looksQuoted x' = false := by
      rw [looksQuoted_of_shifted h, Bool.eq_false_iff]
      exact hx
    have hlit' : literal x' = none := literal_of_word (startsWith_of_name hname') hx'
    exact ⟨u, after', hu, hline, by rw [hlifetime, hlit', hx']; rfl, hafter⟩

/-! ## Leaves -/

theorem Follows.of_leaf {rest' : List Char} (hx : x = u ++ rest) (hu : '\n' ∉ u)
    (hl : leaf x' = some (l, rest')) (hrest : Shifted w rest rest') :
    Follows w (leafSense x') [senseOf (.leaf l)] (taken x rest) rest := by
  refine .same ?_ ?_ hrest
  · rw [taken_eq hx]
    exact isBroken_of_not_mem hu
  · rw [leafSense, hl, Option.map_some]

theorem literal_of_isPunct (hc : isPunct c = true) (hne : c ≠ '\'') (x : List Char) :
    literal (c :: x) = none := by
  have hdigit : startsWith isDigit (c :: x) = false := by
    have hrest := isWordRest_of_isPunct hc
    simp only [isWordRest, Bool.or_eq_false_iff] at hrest
    exact hrest.1.2
  rw [literal_of_not_digit hdigit]
  unfold quoted
  split <;> simp_all [isPunct]

theorem literal_of_apostrophe (hc : c ≠ '\\') (x : List Char) :
    literal ('\'' :: c :: x) = none ↔ startsWith (· == '\'') x = false := by
  have hone : oneChar (c :: x) = some x := by simp [oneChar, hc]
  have hquoted : quoted ('\'' :: c :: x) =
      quotedOf .char ('\'' :: c :: x) ((oneChar (c :: x)).bind closeQuote) := rfl
  rw [literal_of_not_digit rfl, hquoted, quotedOf_eq_none, hone, Option.bind_some]
  cases x with
  | nil => simp [closeQuote, startsWith]
  | cons d x => by_cases hd : d = '\'' <;> simp [closeQuote, startsWith, hd]

/-- **Punctuation and lifetimes of a shifted text.** -/
theorem follows_punctLeaf (hw : 0 < w) (h : Shifted w x x') (hlit : literal x = none)
    (hl : punctLeaf x = some (l, rest)) :
    Follows w (leafSense x') [senseOf (.leaf l)] (taken x rest) rest := by
  rcases hp : punct x with _ | ⟨c, r⟩
  · rw [punctLeaf, hp] at hl
    cases hl
  obtain ⟨rfl, hc⟩ := exists_cons_of_punct hp
  have hreturn : c ≠ '\r' := by rintro rfl; cases hc
  have hfeed : c ≠ '\n' := by rintro rfl; cases hc
  obtain ⟨r', rfl, hr⟩ := h.cons hreturn hfeed
  by_cases hquote : c = '\''
  · subst hquote
    have hl : lifetime r = some (l, rest) := hl
    -- The character behind the apostrophe begins a name.
    obtain ⟨n, after, hname⟩ : ∃ n after, name r = some (n, after) := by
      rcases hname : name r with _ | ⟨n, after⟩
      · rw [lifetime, hname] at hl
        cases hl
      · exact ⟨n, after, rfl⟩
    have hstart := startsWith_of_name hname
    obtain ⟨d, y, rfl⟩ : ∃ d y, r = d :: y := by
      cases r with
      | nil => cases hstart
      | cons d y => exact ⟨d, y, rfl⟩
    have hd : ∀ {e}, isWordStart e = false → d ≠ e := by
      rintro e he rfl
      exact absurd hstart (Bool.eq_false_iff.1 he)
    obtain ⟨y', rfl, hy⟩ := hr.cons (hd rfl) (hd rfl)
    have hlit' : literal ('\'' :: d :: y') = none := by
      rw [literal_of_apostrophe (hd rfl)] at hlit ⊢
      rw [startsWith_of_shifted hy rfl rfl, hlit]
    have hleaf : ∀ found, lifetime (d :: y') = some found → leaf ('\'' :: d :: y') = some found := by
      intro found hfound
      have hpunct : punctLeaf ('\'' :: d :: y') = some found := hfound
      rw [leaf, hlit', hpunct]
    obtain ⟨u, rest', hu, hline, hl', hrest⟩ := lifetime_of_shifted hw hr hl
    exact .of_leaf (u := '\'' :: u) (by rw [hu]; rfl) (by simp [hline]) (hleaf _ hl') hrest
  · rw [punctLeaf_of_punct hp hquote] at hl
    obtain ⟨rfl, rfl⟩ := Prod.mk.inj (Option.some.inj hl)
    obtain ⟨u, rest', hu, -, hline, hp', hrest⟩ := inLine_punct.exists_of_shifted h hp
    have hjoins : joins rest' = joins r := inLine_punct.any_of_shifted hrest (· != ';')
    have hleaf : leaf (c :: r') = some (.punct c (joins r), rest') := by
      rw [leaf, literal_of_isPunct hc hquote, punctLeaf_of_punct hp' hquote, hjoins]
    exact .of_leaf hu hline hleaf hrest

/-- **Literals of a shifted text.** -/
theorem follows_literal (hw : 0 < w) (h : Shifted w x x') {lit : Literal}
    (hl : literal x = some (lit, rest)) :
    Follows w (leafSense x') [senseOf (.leaf (.literal lit))] (taken x rest) rest := by
  have hdigit := startsWith_of_shifted (p := isDigit) h (by decide) (by decide)
  have hleaf : ∀ lit' rest', literal x' = some (lit', rest') →
      leaf x' = some (.literal lit', rest') := by
    intro lit' rest' hlit'
    rw [leaf, hlit']
  by_cases hx : startsWith isDigit x = true
  · rw [literal_of_digit hx] at hl
    obtain ⟨u, rest', hu, -, hline, hl', hrest⟩ := inLine_number.exists_of_shifted h hl
    refine .of_leaf hu hline (hleaf _ _ ?_) hrest
    rw [literal_of_digit (hdigit.trans hx), hl']
  · rw [Bool.not_eq_true] at hx
    rw [literal_of_not_digit hx] at hl
    rcases quoted_of_shifted hw h hl with ⟨lit', rest', hl', hcarried⟩ | ⟨hbroken, z, rfl | rfl⟩
    · rw [← literal_of_not_digit (hdigit.trans hx)] at hl'
      have hfound : leafSense x' = some ([senseOf (.leaf (.literal lit'))], rest') := by
        rw [leafSense, hleaf _ _ hl', Option.map_some]
      by_cases hbroken : isBroken (taken x rest) = true
      · refine .changed hbroken fun S' r' heq => ?_
        rw [hfound] at heq
        obtain ⟨rfl, -⟩ := Prod.mk.inj (Option.some.inj heq)
        exact ⟨rfl, by simpa using hcarried.broken.1 hbroken⟩
      · have hsense := not_not.1 (mt hcarried.broken.2 hbroken)
        exact .same (Bool.eq_false_iff.2 hbroken) (by rw [hfound, hsense]) hcarried.shifted
    · have hnone : leafSense ('\'' :: '\n' :: ' ' :: z) = none := rfl
      refine .changed hbroken fun S' r' heq => ?_
      rw [hnone] at heq
      cases heq
    · have hnone : leafSense ('b' :: '\'' :: '\n' :: ' ' :: z) = none := rfl
      refine .changed hbroken fun S' r' heq => ?_
      rw [hnone] at heq
      cases heq

/-- **Leaves of a shifted text.** -/
theorem follows_leaf (hw : 0 < w) (h : Shifted w x x') (hl : leaf x = some (l, rest)) :
    Follows w (leafSense x') [senseOf (.leaf l)] (taken x rest) rest := by
  unfold leaf at hl
  rcases hlit : literal x with _ | ⟨lit, r⟩
  · rcases hp : punctLeaf x with _ | ⟨l', r⟩
    · simp only [hlit, hp] at hl
      split_ifs at hl with hquoted
      obtain ⟨u, rest', hu, -, hline, hname, hrest⟩ := inLine_name.exists_of_shifted h hl
      have hstart := startsWith_of_name hname
      have hquoted' : looksQuoted x' = false := by
        rw [looksQuoted_of_shifted h, Bool.eq_false_iff]
        exact hquoted
      refine .of_leaf hu hline ?_ hrest
      rw [leaf, literal_of_word hstart hquoted', punctLeaf_of_word hstart]
      simpa [hquoted'] using hname
    · simp only [hlit, hp] at hl
      obtain ⟨rfl, rfl⟩ := Prod.mk.inj (Option.some.inj hl)
      exact follows_punctLeaf hw h hlit hp
  · rw [hlit] at hl
    obtain ⟨rfl, rfl⟩ := Prod.mk.inj (Option.some.inj hl)
    exact follows_literal hw h hlit

end Scan

end Grammar

end ProcessCompiler
