import ProcessCompiler.Proofs.Scan.Literal
/-!
# Steps of the scanner before a border

A step of the scanner takes a leaf, a bracket or a documenting comment. With
text behind a border it takes the same one, unless a comment that documents
runs on to the end of its line, or the mark of a missing expression is only
completed behind the border.
-/

namespace ProcessCompiler

namespace Grammar

namespace Scan

open Text

variable {b x y rest : List Char} {c : Char} {l : Leaf}

/-! ## Leaves -/

theorem take_two_append (hb : Border b) (x : List Char) :
    ((x ++ b).take 2 != ['r', '#']) = (x.take 2 != ['r', '#']) := by
  rcases x with _ | ⟨c, _ | ⟨d, x⟩⟩
  · rcases b with _ | ⟨c, b⟩
    · rfl
    · have hc : c ≠ 'r' := hb.ne_word rfl
      simp [bne, hc]
  · rcases b with _ | ⟨d, b⟩
    · simp
    · have hd : d ≠ '#' := hb.ne_punct rfl
      simp [bne, hd]
  · rfl

theorem lifetime_append (hb : Border b) (h : lifetime x = some (l, rest)) :
    lifetime (x ++ b) = some (l, rest ++ b) := by
  have hquote : startsWith (· == '\'') b = false := hb.not_punct fun c h => by
    simp_all [isJoining, isPunct]
  have hhash : startsWith (· == '#') b = false := hb.not_punct fun c h => by
    simp_all [isJoining, isPunct]
  unfold lifetime at h ⊢
  rw [name_append hb]
  rcases hname : name x with _ | ⟨n, after⟩
  · rw [hname] at h
    cases h
  · rw [hname] at h
    simp only [Option.map_some, behind, startsWith_append hquote, startsWith_append hhash,
      take_two_append hb] at h ⊢
    split_ifs at h with hstop hlit hx
    · obtain ⟨found, hfound⟩ := Option.isSome_iff_exists.1 hlit
      obtain ⟨rfl, rfl⟩ := Prod.mk.inj (Option.some.inj h)
      rw [if_neg hstop, literal_append hb hfound]
      rfl
    · obtain ⟨rfl, rfl⟩ := Prod.mk.inj (Option.some.inj h)
      rw [Bool.not_eq_true] at hx
      have hx' : looksQuoted (x ++ b) = false := by rw [looksQuoted_append hb, hx]
      have hstart' : startsWith isWordStart (x ++ b) = true := by
        rw [startsWith_append hb.start, startsWith_of_name hname]
      rw [if_neg hstop, literal_of_word hstart' hx', hx']
      rfl

/-- Punctuation other than the apostrophe is a leaf of its own. -/
theorem punctLeaf_of_punct (h : punct x = some (c, rest)) (hc : c ≠ '\'') :
    punctLeaf x = some (.punct c (joins rest), rest) := by
  unfold punctLeaf
  rw [h]
  split <;> simp_all

/-- The first character of punctuation. -/
theorem exists_cons_of_punct {d : Char} (h : punct x = some (d, rest)) :
    x = d :: rest ∧ isPunct d = true := by
  cases x with
  | nil => cases h
  | cons c x =>
    rw [punct_cons] at h
    split_ifs at h with h₁ h₂
    obtain ⟨rfl, rfl⟩ := Prod.mk.inj (Option.some.inj h)
    exact ⟨rfl, h₂⟩

theorem punctLeaf_append (hb : Border b) (h : punctLeaf x = some (l, rest)) :
    punctLeaf (x ++ b) = some (l, rest ++ b) := by
  have hpb := punct_append hb (x := x) (by rintro rfl; cases h)
  rcases hp : punct x with _ | ⟨c, r⟩
  · rw [punctLeaf, hp] at h
    cases h
  · rw [hp] at hpb
    by_cases hc : c = '\''
    · subst hc
      rw [punctLeaf, hp] at h
      rw [punctLeaf, hpb]
      exact lifetime_append hb h
    · rw [punctLeaf_of_punct hp hc] at h
      obtain ⟨rfl, rfl⟩ := Prod.mk.inj (Option.some.inj h)
      rw [punctLeaf_of_punct hpb hc, joins_append hb]

theorem isWordRest_of_isPunct (h : isPunct c = true) : isWordRest c = false := by
  have hall : (['~', '!', '@', '#', '$', '%', '^', '&', '*', '-', '=', '+', '|', ';', ':', ',',
      '<', '.', '>', '/', '?', '\''].all fun d => !isWordRest d) = true := by decide
  simpa using List.all_eq_true.1 hall c (List.contains_iff_mem.1 h)

/-- A word begins no punctuation. -/
theorem punctLeaf_of_word (h : startsWith isWordStart x = true) : punctLeaf x = none := by
  cases x with
  | nil => rfl
  | cons c x =>
    have hstart : isWordStart c = true := h
    have hc : isPunct c ≠ true := fun hc => by
      simpa [isWordRest, hstart] using isWordRest_of_isPunct hc
    have hp : punct (c :: x) = none := by simp [punct_cons, hc]
    rw [punctLeaf, hp]

theorem closeQuote_append_none (hb : Border b) (h : closeQuote x = none) :
    closeQuote (x ++ b) = none := by
  rcases x with _ | ⟨c, x⟩
  · rcases b with _ | ⟨c, b⟩
    · rfl
    · have hc : c ≠ '\'' := hb.ne_punct rfl
      simp [closeQuote, hc]
  · have hc : c ≠ '\'' := by rintro rfl; cases h
    simp [closeQuote, hc]

/-- Punctuation and lifetimes begin no literal, whatever follows behind a
border. -/
theorem literal_of_punctLeaf (hb : Border b) (h : punctLeaf x = some (l, rest))
    (hl : literal x = none) : literal (x ++ b) = none := by
  rcases hp : punct x with _ | ⟨c, r⟩
  · rw [punctLeaf, hp] at h
    cases h
  obtain ⟨rfl, hc⟩ := exists_cons_of_punct hp
  have hdigit : startsWith isDigit (c :: r) = false := by
    have hrest := isWordRest_of_isPunct hc
    simp only [isWordRest, Bool.or_eq_false_iff] at hrest
    exact hrest.1.2
  rw [literal_of_not_digit hdigit] at hl
  rw [literal_of_not_digit (by rw [startsWith_append hb.digit, hdigit])]
  by_cases hquote : c = '\''
  · subst hquote
    -- a lifetime: the character behind the apostrophe is no backslash
    rw [punctLeaf, hp] at h
    obtain ⟨d, r, rfl, hd⟩ : ∃ d r', r = d :: r' ∧ d ≠ '\\' := by
      cases r with
      | nil => cases h
      | cons d r => exact ⟨d, r, rfl, by rintro rfl; cases h⟩
    have hone : ∀ u, oneChar (d :: u) = some u := fun u => by simp [oneChar, hd]
    have hopen : (oneChar (d :: r)).bind closeQuote = none := quotedOf_eq_none.1 hl
    rw [hone] at hopen
    refine quotedOf_eq_none.2 ?_
    rw [List.append_eq, List.cons_append, hone]
    exact closeQuote_append_none hb hopen
  · unfold quoted
    split <;> simp_all [isPunct]

/-- The leaf at the start of a text stays the one it is. -/
theorem leaf_append (hb : Border b) (h : leaf x = some (l, rest)) :
    leaf (x ++ b) = some (l, rest ++ b) := by
  unfold leaf at h
  rcases hl : literal x with _ | ⟨lit, r⟩
  · rw [hl] at h
    rcases hp : punctLeaf x with _ | ⟨l', r'⟩
    · simp only [hp] at h
      split_ifs at h with hx
      rw [Bool.not_eq_true] at hx
      have hstart := startsWith_of_name h
      have hstart' : startsWith isWordStart (x ++ b) = true := by
        rw [startsWith_append hb.start, hstart]
      have hx' : looksQuoted (x ++ b) = false := by rw [looksQuoted_append hb, hx]
      have hname : name (x ++ b) = some (l, rest ++ b) := by rw [name_append hb, h]; rfl
      simp [leaf, literal_of_word hstart' hx', punctLeaf_of_word hstart', hx', hname]
    · simp only [hp] at h
      obtain ⟨rfl, rfl⟩ := Prod.mk.inj (Option.some.inj h)
      simp only [leaf, literal_of_punctLeaf hb hp hl, punctLeaf_append hb hp]
  · rw [hl] at h
    obtain ⟨rfl, rfl⟩ := Prod.mk.inj (Option.some.inj h)
    rw [leaf, literal_append hb hl]

/-! ## Comments -/

theorem append_ne_cons {d : Char} (hx : ∀ r, x ≠ d :: r) (hb : x = [] → ∀ r, b ≠ d :: r)
    (r : List Char) : x ++ b ≠ d :: r := by
  rcases x with _ | ⟨c, x⟩
  · exact hb rfl r
  · intro h
    obtain ⟨rfl, -⟩ := List.cons.inj h
    exact hx x rfl

theorem Border.ne_cons (hb : Border b) {d : Char} (hd : isJoining d = true) (r : List Char) :
    b ≠ d :: r := by
  rintro rfl
  exact hb.ne_punct hd rfl

theorem blockText_append {depth : ℕ} (h : blockText depth x = some (y, rest)) (b : List Char) :
    blockText depth (x ++ b) = some (y, rest ++ b) := by
  fun_induction blockText depth x generalizing y with
  | case1 depth x ih =>
    obtain ⟨⟨s, r⟩, hs, heq⟩ := Option.map_eq_some_iff.1 h
    obtain ⟨rfl, rfl⟩ := Prod.mk.inj heq
    simp only [List.cons_append, blockText, ih hs, Option.map_some]
  | case2 x =>
    obtain ⟨rfl, rfl⟩ := Prod.mk.inj (Option.some.inj h)
    rfl
  | case3 x depth ih =>
    obtain ⟨⟨s, r⟩, hs, heq⟩ := Option.map_eq_some_iff.1 h
    obtain ⟨rfl, rfl⟩ := Prod.mk.inj heq
    simp only [List.cons_append, blockText, ih hs, Option.map_some]
  | case4 depth c x h₁ h₂ ih =>
    obtain ⟨⟨s, r⟩, hs, heq⟩ := Option.map_eq_some_iff.1 h
    obtain ⟨rfl, rfl⟩ := Prod.mk.inj heq
    have hx : x ≠ [] := by rintro rfl; cases hs
    rw [List.cons_append, blockText, ih hs]
    · rfl
    · exact fun r hc => append_ne_cons (fun r => h₁ r hc) (absurd · hx) r
    · exact fun r hc => append_ne_cons (fun r => h₂ r hc) (absurd · hx) r
  | case5 => cases h

/-- The text of a line that ends before the text does. -/
theorem lineText_append (h : lineText x = (y, rest)) (hrest : rest ≠ []) (b : List Char) :
    lineText (x ++ b) = (y, rest ++ b) := by
  fun_induction lineText x generalizing y with
  | case1 x =>
    obtain ⟨rfl, rfl⟩ := Prod.mk.inj h
    rfl
  | case2 x =>
    obtain ⟨rfl, rfl⟩ := Prod.mk.inj h
    rfl
  | case3 c x h₁ h₂ s r hs ih =>
    obtain ⟨rfl, rfl⟩ := Prod.mk.inj h
    have hx : x ≠ [] := by rintro rfl; exact hrest (Prod.mk.inj hs).2.symm
    rw [List.cons_append, lineText, ih hs]
    · exact fun r hc => append_ne_cons (fun r => h₁ r hc) (absurd · hx) r
    · exact h₂
  | case4 => exact absurd (Prod.mk.inj h).2.symm hrest

/-- What is neither comment documents nothing. -/
theorem docComment_eq_none (h : ∀ d r, x = '/' :: d :: r → d ≠ '/' ∧ d ≠ '*') :
    docComment x = none := by
  unfold docComment
  split <;> first | rfl | exact absurd rfl (h _ _ rfl).1 | exact absurd rfl (h _ _ rfl).2

/-- A comment that ends with its line. -/
def startsLine (x : List Char) : Bool := ['/', '/'].isPrefixOf x

theorem docComment_checked {inner i : Bool} {found : List Char × List Char} :
    docComment.checked inner found = some (i, y, rest) ↔
      inner = i ∧ found = (y, rest) ∧ noBareReturn y = true := by
  obtain ⟨y', rest'⟩ := found
  unfold docComment.checked
  split_ifs with h
  · grind -ring -linarith
  · grind -ring -linarith

/-- A comment that documents stays the one it is, unless it runs on to the end
of its line. -/
theorem docComment_append (hb : Border b) {inner : Bool} (h : docComment x = some (inner, y, rest))
    (hrest : startsLine x = true → rest ≠ []) :
    docComment (x ++ b) = some (inner, y, rest ++ b) := by
  unfold docComment at h
  split at h
  · obtain ⟨rfl, htext, hy⟩ := docComment_checked.1 h
    exact docComment_checked.2 ⟨rfl, lineText_append htext (hrest rfl) b, hy⟩
  · obtain ⟨found, hfound, h⟩ := Option.bind_eq_some_iff.1 h
    obtain ⟨rfl, rfl, hy⟩ := docComment_checked.1 h
    have htext := blockText_append hfound b
    exact Option.bind_eq_some_iff.2 ⟨_, htext, docComment_checked.2 ⟨rfl, rfl, hy⟩⟩
  · cases h
  · rename_i r hr
    obtain ⟨rfl, htext, hy⟩ := docComment_checked.1 h
    have hr' := append_ne_cons (fun r => hr r) fun _ => hb.ne_cons (show isJoining '/' = true from rfl)
    rw [List.cons_append, List.cons_append, List.cons_append, docComment]
    · exact docComment_checked.2 ⟨rfl, lineText_append htext (hrest rfl) b, hy⟩
    · exact hr'
  · cases h
  · rename_i r hr
    obtain ⟨found, hfound, h⟩ := Option.bind_eq_some_iff.1 h
    obtain ⟨rfl, rfl, hy⟩ := docComment_checked.1 h
    have htext := blockText_append hfound b
    have hr' := append_ne_cons (fun r => hr r) fun _ => hb.ne_cons (show isJoining '*' = true from rfl)
    rw [List.cons_append, List.cons_append, List.cons_append, docComment]
    · exact Option.bind_eq_some_iff.2 ⟨_, htext, docComment_checked.2 ⟨rfl, rfl, hy⟩⟩
    · exact hr'
  · cases h

/-! ## Steps -/

/-- A leaf begins with no comment. -/
theorem not_comment_of_leaf (h : leaf x = some (l, rest)) {d : Char} {r : List Char}
    (hx : x = '/' :: d :: r) : d ≠ '/' ∧ d ≠ '*' := by
  subst hx
  by_contra hd
  have hp : punct ('/' :: d :: r) = none := by
    rw [punct_cons, if_pos ⟨rfl, by simp only [startsWith]; grind⟩]
  have hl : literal ('/' :: d :: r) = none := literal_of_not_digit rfl
  rw [leaf, hl] at h
  simp only [punctLeaf, hp] at h
  cases h

theorem bracket_append (hx : x ≠ []) (b : List Char) :
    bracket (x ++ b) = (bracket x).map (behind b) := by
  obtain ⟨c, x, rfl⟩ := List.exists_cons_of_ne_nil hx
  unfold bracket
  rw [List.cons_append]
  split <;> simp_all [behind]

/-- Nor does it with text behind a border. -/
theorem docComment_append_none (hb : Border b) (hne : x ≠ [])
    (hx : ∀ d r, x = '/' :: d :: r → d ≠ '/' ∧ d ≠ '*') : docComment (x ++ b) = none := by
  refine docComment_eq_none fun d r h => ?_
  rcases x with _ | ⟨c, _ | ⟨e, x⟩⟩
  · exact absurd rfl hne
  · obtain ⟨-, rfl⟩ := List.cons.inj h
    exact ⟨hb.ne_punct rfl, hb.ne_punct rfl⟩
  · simp only [List.cons_append, List.cons.injEq] at h
    obtain ⟨rfl, rfl, -⟩ := h
    exact hx e x rfl

/-- **A step takes the same lexemes before a border.** -/
theorem step_append (hb : Border b) {found : List Lexeme} (h : step x = some (found, rest))
    (hline : ∀ inner y, docComment x = some (inner, y, rest) → startsLine x = true → rest ≠ [])
    (hmark : missingMark.isPrefixOf (x ++ b) = true → missingMark.isPrefixOf x = true) :
    step (x ++ b) = some (found, rest ++ b) := by
  unfold step at h ⊢
  rcases hdoc : docComment x with _ | ⟨inner, y, r⟩
  · rw [hdoc] at h
    by_cases hm : missingMark.isPrefixOf x = true
    · obtain ⟨x, rfl⟩ := List.isPrefixOf_iff_prefix.1 hm
      obtain ⟨rfl, rfl⟩ := Prod.mk.inj (Option.some.inj ((if_pos hm).symm.trans h))
      rfl
    · have hm' : ¬missingMark.isPrefixOf (x ++ b) = true := fun h => hm (hmark h)
      have hne : x ≠ [] := by rintro rfl; cases h
      have hbracket := bracket_append hne b
      simp only [if_neg hm] at h
      rcases hbr : bracket x with _ | ⟨br, r⟩
      · rw [hbr] at h hbracket
        obtain ⟨⟨l, r⟩, hleaf, heq⟩ := Option.map_eq_some_iff.1 h
        obtain ⟨rfl, rfl⟩ := Prod.mk.inj heq
        have hdoc' := docComment_append_none hb hne fun d r hx => not_comment_of_leaf hleaf hx
        simp only [hdoc', if_neg hm', hbracket, leaf_append hb hleaf]
        rfl
      · rw [hbr] at h hbracket
        obtain ⟨rfl, rfl⟩ := Prod.mk.inj (Option.some.inj h)
        have hdoc' := docComment_append_none hb hne fun d r hx => by subst hx; cases hbr
        simp only [hdoc', if_neg hm', hbracket]
        rfl
  · rw [hdoc] at h
    obtain ⟨rfl, rfl⟩ := Prod.mk.inj (Option.some.inj h)
    rw [docComment_append hb hdoc (hline _ _ hdoc)]

/-- The mark of a missing expression is completed behind a border only where
all of it but the last bracket stands before it. -/
theorem missingMark_append (hb : Border b) (h : missingMark.isPrefixOf (x ++ b) = true) :
    missingMark.isPrefixOf x = true ∨ x = [] ∨ x = missingMark.dropLast := by
  obtain ⟨t, ht⟩ := List.isPrefixOf_iff_prefix.1 h
  rcases List.append_eq_append_iff.1 ht with ⟨u, hu, -⟩ | ⟨u, hu, rfl⟩
  · exact .inl (List.isPrefixOf_iff_prefix.2 ⟨u, hu.symm⟩)
  rcases u with _ | ⟨d, u⟩
  · exact .inl (List.isPrefixOf_iff_prefix.2 ⟨[], by rw [hu, List.append_nil, List.append_nil]⟩)
  -- only the first and the last character of the mark are brackets
  have hinner : ∀ k < 11, k = 0 ∨ k = 10 ∨ isWordRest (missingMark.getD k ' ') = true ∨
      isJoining (missingMark.getD k ' ') = true := by decide
  have hd : missingMark.getD x.length ' ' = d := by simp [hu]
  have hlength : x.length < 11 := by
    have hlen : missingMark.length = x.length + (u.length + 1) := by simp [hu]
    have hmark : missingMark.length = 11 := rfl
    omega
  rcases hinner x.length hlength with hx | hx | hx | hx
  · exact .inr (.inl (List.length_eq_zero_iff.1 hx))
  · right; right
    have htake : missingMark.take x.length = x := by simp [hu]
    rw [← htake, hx]
    rfl
  · exact absurd hd.symm (hb.ne_word hx)
  · exact absurd hd.symm (hb.ne_punct hx)

end Scan

end Grammar

end ProcessCompiler
