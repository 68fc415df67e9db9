import ProcessCompiler.Proofs.Scan.Compose
/-!
# Texts before a closing brace

A text without lexemes gets none from blanks, semicolons and a closing brace
behind it: none of them ends a literal or a comment that the text leaves open,
and none goes on with anything. Only a carriage return at the end of the text
could be completed, by a line feed right behind it. So where a text inside
braces has lexemes, it has lexemes on its own, and so has the text without the
semicolons at its end.
-/

namespace ProcessCompiler

namespace Grammar

namespace Scan

open Text

variable {e x y z rest : List Char} {c : Char} {s : GapState} {f : Flavour}

/-- A blank or a semicolon. -/
def isLoose (c : Char) : Bool := isBlank c || c == ';'

theorem isLoose_of_isBlank (h : isBlank c = true) : isLoose c = true := by rw [isLoose, h]; rfl

/-- What is the same for all blanks and for the semicolon. -/
theorem eq_of_isLoose {α : Type} {a : α} (g : Char → α)
    (hblank : ∀ n ∈ blankCodes, g (Char.ofNat n) = a) (hsemi : g ';' = a)
    (h : isLoose c = true) : g c = a := by
  rcases Bool.or_eq_true_iff.1 h with hc | hc
  · simpa [Char.ofNat_toNat] using hblank _ (mem_blankCodes hc)
  · rwa [eq_of_beq hc]

/-- Blanks and semicolons, at least one, and closing braces behind the first. -/
def IsTrail (e : List Char) : Prop :=
  ∃ c w, isLoose c = true ∧ (∀ d ∈ w, (isLoose d || d == '\x7d') = true) ∧ e = c :: w

namespace IsTrail

theorem border (he : IsTrail e) : Border e := by
  obtain ⟨c, w, hc, -, rfl⟩ := he
  rcases Bool.or_eq_true_iff.1 hc with hc | hc
  · exact border_of_isBlank hc _
  · rw [eq_of_beq hc]
    exact ⟨rfl, rfl, rfl⟩

theorem not_mem (he : IsTrail e) (hc : (isLoose c || c == '\x7d') = false) : c ∉ e := by
  obtain ⟨d, w, hd, hw, rfl⟩ := he
  have hall : ∀ d, (isLoose d || d == '\x7d') = true → c ≠ d := by
    rintro d hd rfl
    rw [hc] at hd
    cases hd
  rw [List.mem_cons, not_or]
  exact ⟨hall d (by rw [hd, Bool.true_or]), fun hmem => hall c (hw c hmem) rfl⟩

theorem ne_cons (he : IsTrail e) (hc : isLoose c = false) (r : List Char) : e ≠ c :: r := by
  obtain ⟨d, w, hd, -, rfl⟩ := he
  intro h
  obtain ⟨rfl, -⟩ := List.cons.inj h
  rw [hc] at hd
  cases hd

/-- Blanks and semicolons before such an end. -/
theorem append {w : List Char} (hw : ∀ c ∈ w, isLoose c = true) (he : IsTrail e) :
    IsTrail (w ++ e) := by
  cases w with
  | nil => exact he
  | cons c w =>
    obtain ⟨d, v, hd, hv, rfl⟩ := he
    have hall : ∀ a ∈ w ++ d :: v, (isLoose a || a == '\x7d') = true := by
      intro a ha
      rcases List.mem_append.1 ha with ha | ha
      · rw [hw a (List.mem_cons_of_mem _ ha), Bool.true_or]
      · rcases List.mem_cons.1 ha with rfl | ha
        · rw [hd, Bool.true_or]
        · exact hv a ha
    exact ⟨c, w ++ d :: v, hw c List.mem_cons_self, hall, rfl⟩

/-- It ends a line of its own, if there is one before the brace. -/
theorem append_feed {w : List Char} (hw : Blank w) : IsTrail (w ++ ['\n', '\x7d']) :=
  append (fun c hc => isLoose_of_isBlank (hw c hc)) ⟨'\n', ['\x7d'], rfl, by simp, rfl⟩

end IsTrail

/-- A blank and a closing brace. -/
def braceEnd : List Char := [' ', '\x7d']

theorem isTrail_braceEnd : IsTrail braceEnd := ⟨' ', ['\x7d'], rfl, by simp, rfl⟩

theorem border_braceEnd : Border braceEnd := isTrail_braceEnd.border

theorem keepsReturn_braceEnd (x : List Char) : KeepsReturn x braceEnd := fun _ => by simp [braceEnd]

/-! ## Literals -/

theorem stringFrom_trail (he : IsTrail e) {s : StringState} (h : stringFrom f s x = none) :
    stringFrom f s (x ++ e) = none := by
  induction x generalizing s with
  | nil =>
    rcases hs : stringFrom f s e with _ | r
    · exact hs
    · exact absurd (mem_of_stringFrom hs) (he.not_mem rfl)
  | cons c x ih =>
    simp only [List.cons_append, stringFrom] at h ⊢
    split at h
    · cases h
    · exact ih h
    · rfl

/-- The hash signs behind a raw string do not go on with the end. -/
theorem hashes_trail (he : IsTrail e) {n : ℕ}
    (h : ¬((x.take n).length == n && (x.take n).all (· == '#')) = true) :
    ¬(((x ++ e).take n).length == n && ((x ++ e).take n).all (· == '#')) = true := by
  rcases Nat.lt_or_ge x.length n with hn | hn
  · intro hall
    rw [Bool.and_eq_true, List.all_eq_true] at hall
    obtain ⟨c, w, hc, -, rfl⟩ := he
    have hmem : c ∈ (x ++ c :: w).take n := by
      obtain ⟨k, hk⟩ := Nat.exists_eq_add_of_lt hn
      rw [hk, Nat.add_assoc, List.take_length_add_append]
      exact List.mem_append_right _ List.mem_cons_self
    rw [eq_of_beq (hall.2 c hmem)] at hc
    cases hc
  · rwa [List.take_append_of_le_length hn]

/-- A raw string that is not closed. -/
theorem rawFrom_of_not_mem {n : ℕ} (h : '"' ∉ x) : rawFrom f n x = none := by
  fun_induction rawFrom f n x with
  | case1 => rfl
  | case2 => simp at h
  | case3 => simp at h
  | case4 rest ih => exact ih fun hr => h (List.mem_cons_of_mem _ (List.mem_cons_of_mem _ hr))
  | case5 => rfl
  | case6 c rest hq hr hr' hc ih => exact ih fun hr => h (List.mem_cons_of_mem _ hr)
  | case7 => rfl

theorem rawFrom_trail (he : IsTrail e) (hx : KeepsReturn x e) {n : ℕ} (h : rawFrom f n x = none) :
    rawFrom f n (x ++ e) = none := by
  fun_induction rawFrom f n x with
  | case1 => exact rawFrom_of_not_mem (he.not_mem rfl)
  | case2 => cases h
  | case3 rest hn ih =>
    rw [List.cons_append, rawFrom, if_neg (hashes_trail he hn)]
    exact ih hx.tail h
  | case4 rest ih => exact ih hx.tail.tail h
  | case5 rest hr =>
    rw [List.cons_append, rawFrom]
    exact hx.ne_feed hr
  | case6 c rest hq hr hr' hc ih =>
    rw [List.cons_append, rawFrom, if_pos hc]
    · exact ih hx.tail h
    all_goals simp_all
  | case7 c rest hq hr hr' hc =>
    rw [List.cons_append, rawFrom, if_neg hc]
    all_goals simp_all

theorem rawString_trail (he : IsTrail e) (hx : KeepsReturn x e) (h : rawString f x = none) :
    rawString f (x ++ e) = none := by
  have hhash : startsWith (· == '#') e = false :=
    he.border.not_punct fun c h => by simp_all [isJoining, isPunct]
  simp only [rawString, takeWhile_append hhash, dropWhile_append hhash] at h ⊢
  split at h
  · rename_i r heq
    have hsuffix : '"' :: r <:+ x := heq ▸ List.dropWhile_suffix _
    rw [heq]
    simp only [List.cons_append]
    split_ifs at h ⊢ with hn
    · exact rawFrom_trail he (hx.suffix hsuffix).tail h
    · rfl
  · rename_i hne
    split
    · rename_i r heq
      exact absurd heq (append_ne_cons (fun r => hne r) (fun _ => he.ne_cons rfl) r)
    · rfl

/-- No digit, nor what ends digits, begins the end. -/
theorem hexValue?_of_isLoose (h : isLoose c = true) : hexValue? c = none :=
  eq_of_isLoose hexValue? (by decide +kernel) rfl h

theorem unicodeFrom_trail (he : IsTrail e) {v n : ℕ} (h : unicodeFrom v n x = none) :
    unicodeFrom v n (x ++ e) = none := by
  induction x generalizing v n with
  | nil =>
    obtain ⟨c, w, hc, -, rfl⟩ := he
    have hgap : c ≠ '_' := by rintro rfl; cases hc
    have hbrace : c ≠ '\x7d' := by rintro rfl; cases hc
    simp [unicodeFrom, digitStep, hexValue?_of_isLoose hc, hgap, hbrace]
  | cons c x ih =>
    simp only [List.cons_append, unicodeFrom] at h ⊢
    split at h
    · exact ih h
    · cases h
    · rfl

/-- No escape of one letter is a blank or a semicolon. -/
theorem admitsEscape_of_isLoose (h : isLoose c = true) : f.admitsEscape c = false := by
  cases f <;> exact eq_of_isLoose (Flavour.admitsEscape _) (by decide +kernel) rfl h

theorem isHexDigit_of_isLoose (h : isLoose c = true) : isHexDigit c = false :=
  eq_of_isLoose isHexDigit (by decide +kernel) rfl h

/-- A character escape that begins with neither a byte nor a brace. -/
theorem oneChar_escape (hc : c ≠ 'x') (hy : ∀ r, c = 'u' → y ≠ '\x7b' :: r) :
    oneChar ('\\' :: c :: y) = if Flavour.text.admitsEscape c then some y else none := by
  rw [oneChar]
  · exact fun a b r h => absurd h hc
  · exact hy

/-- An escape that is not allowed is not completed by the end. -/
theorem oneChar_escape_trail (he : IsTrail e) (hx : oneChar ('\\' :: c :: y) = none) :
    oneChar ('\\' :: c :: (y ++ e)) = none := by
  by_cases hc : c = 'x'
  · subst hc
    rcases y with _ | ⟨a, _ | ⟨b, y⟩⟩
    · obtain ⟨d, w, hd, -, rfl⟩ := he
      have hhigh : Flavour.text.admitsHigh d = false :=
        eq_of_isLoose Flavour.text.admitsHigh (by decide +kernel) rfl hd
      have hletter : Flavour.text.admitsEscape 'x' = false := rfl
      cases w <;> simp [oneChar, hhigh, hletter]
    · obtain ⟨d, w, hd, -, rfl⟩ := he
      simp [oneChar, isHexDigit_of_isLoose hd]
    · simp only [oneChar, List.cons_append] at hx ⊢
      split_ifs at hx ⊢
      rfl
  · by_cases hu : ∃ r, c = 'u' ∧ y = '\x7b' :: r
    · obtain ⟨r, rfl, rfl⟩ := hu
      exact unicodeFrom_trail he hx
    · have hy : ∀ r, c = 'u' → y ≠ '\x7b' :: r := fun r hc hy => hu ⟨r, hc, hy⟩
      rw [oneChar_escape hc hy] at hx
      rw [oneChar_escape hc fun r hc =>
        append_ne_cons (fun r => hy r hc) (fun _ => he.ne_cons rfl) r]
      split_ifs at hx ⊢
      rfl

/-- The end closes no apostrophe, whatever it is taken for. -/
theorem closeQuote_trail (he : IsTrail e) : closeQuote e.tail = none := by
  obtain ⟨c, w, -, hw, rfl⟩ := he
  rcases w with _ | ⟨d, w⟩
  · rfl
  · have hd : d ≠ '\'' := by
      rintro rfl
      cases hw '\'' List.mem_cons_self
    simp [closeQuote, hd]

theorem oneChar_trail (he : IsTrail e) (h : (oneChar x).bind closeQuote = none) :
    (oneChar (x ++ e)).bind closeQuote = none := by
  rcases hx : oneChar x with _ | y
  · rcases x with _ | ⟨c, _ | ⟨d, y⟩⟩
    · have hclose := closeQuote_trail he
      obtain ⟨c, w, hc, -, rfl⟩ := he
      have hslash : c ≠ '\\' := by rintro rfl; cases hc
      simpa [oneChar, hslash] using hclose
    · by_cases hc : c = '\\'
      · subst hc
        obtain ⟨d, w, hd, -, rfl⟩ := he
        have hletter : d ≠ 'x' := by rintro rfl; cases hd
        have hunicode : d ≠ 'u' := by rintro rfl; cases hd
        rw [List.cons_append, List.nil_append,
          oneChar_escape hletter fun _ h => absurd h hunicode, admitsEscape_of_isLoose hd]
        rfl
      · simp [oneChar, hc] at hx
    · by_cases hc : c = '\\'
      · subst hc
        rw [List.cons_append, List.cons_append, oneChar_escape_trail he hx]
        rfl
      · simp [oneChar, hc] at hx
  · rw [hx] at h
    rw [oneChar_append hx]
    exact closeQuote_append_none he.border h

theorem oneByte_escape (hc : c ≠ 'x') (y : List Char) :
    oneByte ('\\' :: c :: y) = if Flavour.bytes.admitsEscape c then some y else none := by
  rw [oneByte]
  exact fun a b r h => absurd h hc

theorem oneByte_trail (he : IsTrail e) (h : (oneByte x).bind closeQuote = none) :
    (oneByte (x ++ e)).bind closeQuote = none := by
  rcases hx : oneByte x with _ | y
  · rcases x with _ | ⟨c, y⟩
    · have hclose := closeQuote_trail he
      obtain ⟨c, w, hc, -, rfl⟩ := he
      have hslash : c ≠ '\\' := by rintro rfl; cases hc
      have hone : oneByte (c :: w) = if Flavour.bytes.admits c then some w else none := by
        simp [oneByte, hslash]
      rw [List.nil_append, hone]
      split_ifs
      · exact hclose
      · rfl
    by_cases hc : c = '\\'
    · subst hc
      rcases y with _ | ⟨d, y⟩
      · obtain ⟨d, w, hd, -, rfl⟩ := he
        have hletter : d ≠ 'x' := by rintro rfl; cases hd
        rw [List.cons_append, List.nil_append, oneByte_escape hletter, admitsEscape_of_isLoose hd]
        rfl
      by_cases hd : d = 'x'
      · subst hd
        rcases y with _ | ⟨a, _ | ⟨b, y⟩⟩
        · obtain ⟨d, w, hd, -, rfl⟩ := he
          have hletter : Flavour.bytes.admitsEscape 'x' = false := rfl
          cases w <;> simp [oneByte, isHexDigit_of_isLoose hd, hletter]
        · obtain ⟨d, w, hd, -, rfl⟩ := he
          simp [oneByte, isHexDigit_of_isLoose hd]
        · simp only [oneByte, List.cons_append] at hx ⊢
          split_ifs at hx ⊢
          rfl
      · rw [oneByte_escape hd] at hx
        rw [List.cons_append, List.cons_append, oneByte_escape hd]
        split_ifs at hx ⊢
        rfl
    · simp [oneByte, hc] at hx ⊢
      simp [hx]
  · rw [hx] at h
    rw [oneByte_append hx]
    exact closeQuote_append_none he.border h

/-- A text takes no new beginning from the end behind it. -/
theorem append_trail_ne (he : IsTrail e) {y : List Char} (hy : y.any isLoose = false)
    (hx : ∀ r, x ≠ y ++ r) (r : List Char) : x ++ e ≠ y ++ r := by
  intro h
  rcases List.append_eq_append_iff.1 h with ⟨z, rfl, hz⟩ | ⟨z, rfl, -⟩
  · cases z with
    | nil => exact hx [] (by simp)
    | cons c z =>
      have hc : isLoose c = false := by simpa using List.any_eq_false.1 hy c (by simp)
      exact he.ne_cons hc _ hz
  · exact hx z rfl

theorem quoted_trail (he : IsTrail e) (hx : KeepsReturn x e) (h : quoted x = none) :
    quoted (x ++ e) = none := by
  unfold quoted at h
  split at h
  · exact quotedOf_eq_none.2 (stringFrom_trail he (quotedOf_eq_none.1 h))
  · exact quotedOf_eq_none.2 (stringFrom_trail he (quotedOf_eq_none.1 h))
  · exact quotedOf_eq_none.2 (rawString_trail he hx.tail.tail (quotedOf_eq_none.1 h))
  · exact quotedOf_eq_none.2 (stringFrom_trail he (quotedOf_eq_none.1 h))
  · exact quotedOf_eq_none.2 (rawString_trail he hx.tail.tail (quotedOf_eq_none.1 h))
  · exact quotedOf_eq_none.2 (oneByte_trail he (quotedOf_eq_none.1 h))
  · exact quotedOf_eq_none.2 (oneChar_trail he (quotedOf_eq_none.1 h))
  · exact quotedOf_eq_none.2 (rawString_trail he hx.tail (quotedOf_eq_none.1 h))
  · rename_i h₁ h₂ h₃ h₄ h₅ h₆ h₇ h₈
    unfold quoted
    split
    · exact absurd ‹_› (append_trail_ne he (y := ['"']) rfl h₁ _)
    · exact absurd ‹_› (append_trail_ne he (y := ['b', '"']) rfl h₂ _)
    · exact absurd ‹_› (append_trail_ne he (y := ['b', 'r']) rfl h₃ _)
    · exact absurd ‹_› (append_trail_ne he (y := ['c', '"']) rfl h₄ _)
    · exact absurd ‹_› (append_trail_ne he (y := ['c', 'r']) rfl h₅ _)
    · exact absurd ‹_› (append_trail_ne he (y := ['b', '\'']) rfl h₆ _)
    · exact absurd ‹_› (append_trail_ne he (y := ['\'']) rfl h₇ _)
    · exact absurd ‹_› (append_trail_ne he (y := ['r']) rfl h₈ _)
    · rfl

theorem literal_trail (he : IsTrail e) (hx : KeepsReturn x e) (h : literal x = none) :
    literal (x ++ e) = none := by
  have hb := he.border
  by_cases hdigit : startsWith isDigit x = true
  · rw [literal_of_digit hdigit] at h
    rw [literal_of_digit (by rw [startsWith_append hb.digit, hdigit]), decimal_append hb,
      integer_append hb]
    cases hd : decimal x <;> cases hi : integer x <;> simp_all
  · rw [Bool.not_eq_true] at hdigit
    rw [literal_of_not_digit hdigit] at h
    rw [literal_of_not_digit (by rw [startsWith_append hb.digit, hdigit])]
    exact quoted_trail he hx h

/-! ## Steps -/

theorem lifetime_trail (he : IsTrail e) (hx : KeepsReturn x e) (h : lifetime x = none) :
    lifetime (x ++ e) = none := by
  have hb := he.border
  have hquote : startsWith (· == '\'') e = false := hb.not_punct fun c h => by
    simp_all [isJoining, isPunct]
  have hhash : startsWith (· == '#') e = false := hb.not_punct fun c h => by
    simp_all [isJoining, isPunct]
  unfold lifetime at h ⊢
  rw [name_append hb]
  rcases hname : name x with _ | ⟨n, after⟩
  · rfl
  · rw [hname] at h
    simp only [Option.map_some, behind, startsWith_append hquote, startsWith_append hhash,
      take_two_append hb] at h ⊢
    split_ifs at h with hstop hlit hquoted
    · rw [if_pos hstop]
    · have hlit' := literal_trail he hx (Option.not_isSome_iff_eq_none.1 hlit)
      have hquoted' : looksQuoted (x ++ e) = true := by rw [looksQuoted_append hb, hquoted]
      rw [if_neg hstop, hlit', if_neg (by decide), if_pos hquoted']

theorem punctLeaf_trail (he : IsTrail e) (hne : x ≠ []) (hx : KeepsReturn x e)
    (h : punctLeaf x = none) : punctLeaf (x ++ e) = none := by
  have hpb := punct_append he.border hne
  rcases hp : punct x with _ | ⟨c, r⟩
  · rw [hp] at hpb
    rw [punctLeaf, hpb]
    rfl
  · rw [hp] at hpb
    by_cases hc : c = '\''
    · subst hc
      rw [punctLeaf, hp] at h
      rw [punctLeaf, hpb]
      obtain ⟨rfl, -⟩ := exists_cons_of_punct hp
      exact lifetime_trail he hx.tail h
    · rw [punctLeaf_of_punct hp hc] at h
      cases h

theorem leaf_trail (he : IsTrail e) (hne : x ≠ []) (hx : KeepsReturn x e) (h : leaf x = none) :
    leaf (x ++ e) = none := by
  have hb := he.border
  unfold leaf at h
  rcases hl : literal x with _ | found
  · rcases hp : punctLeaf x with _ | found
    · simp only [hl, hp] at h
      simp only [leaf, literal_trail he hx hl, punctLeaf_trail he hne hx hp,
        looksQuoted_append hb, name_append hb]
      split_ifs at h ⊢
      · rfl
      · rw [h]
        rfl
    · simp only [hl, hp] at h
      cases h
  · simp only [hl] at h
    cases h

theorem blockText_of_not_mem {depth : ℕ} (h : '/' ∉ x) : blockText depth x = none := by
  fun_induction blockText depth x with
  | case1 => simp at h
  | case2 => simp at h
  | case3 => simp at h
  | case4 depth c x h₁ h₂ ih => rw [ih fun hx => h (List.mem_cons_of_mem _ hx), Option.map_none]
  | case5 => rfl

theorem blockText_trail (he : IsTrail e) {depth : ℕ} (h : blockText depth x = none) :
    blockText depth (x ++ e) = none := by
  fun_induction blockText depth x with
  | case1 depth x ih =>
    simp only [List.cons_append, blockText, ih (Option.map_eq_none_iff.1 h), Option.map_none]
  | case2 x => cases h
  | case3 x depth ih =>
    simp only [List.cons_append, blockText, ih (Option.map_eq_none_iff.1 h), Option.map_none]
  | case4 depth c x h₁ h₂ ih =>
    rw [List.cons_append, blockText, ih (Option.map_eq_none_iff.1 h)]
    · rfl
    · exact fun r hc => append_ne_cons (fun r => h₁ r hc) (fun _ => he.ne_cons rfl) r
    · exact fun r hc => append_ne_cons (fun r => h₂ r hc) (fun _ => he.ne_cons rfl) r
  | case5 => exact blockText_of_not_mem (he.not_mem rfl)

theorem noBareReturn_append (hx : KeepsReturn x z) (h : noBareReturn x = false) :
    noBareReturn (x ++ z) = false := by
  fun_induction noBareReturn x with
  | case1 x ih => exact ih hx.tail.tail h
  | case2 x hr =>
    rw [List.cons_append, noBareReturn]
    exact hx.ne_feed hr
  | case3 c x h₁ h₂ ih =>
    by_cases hc : c = '\r'
    · exact absurd hc h₂
    · rw [List.cons_append, noBareReturn]
      · exact ih hx.tail h
      · exact fun r hr => absurd hr hc
      · exact h₂
  | case4 => cases h

theorem not_mem_lineText (x : List Char) : '\n' ∉ (lineText x).1 := by
  fun_induction lineText x with
  | case1 => exact List.not_mem_nil
  | case2 => exact List.not_mem_nil
  | case3 c x h₁ h₂ s r hs ih =>
    rw [hs] at ih
    simpa [Ne.symm h₂] using ih
  | case4 => exact List.not_mem_nil

theorem checked_eq_none {inner : Bool} {found : List Char × List Char} :
    docComment.checked inner found = none ↔ noBareReturn found.1 = false := by
  unfold docComment.checked
  split_ifs with h <;> simp [h]

theorem checked_lineText_trail (hx : KeepsReturn x e) {inner : Bool}
    (h : docComment.checked inner (lineText x) = none) :
    docComment.checked inner (lineText (x ++ e)) = none := by
  rw [checked_eq_none] at h ⊢
  rcases hline : lineText x with ⟨y, _ | ⟨c, rest⟩⟩
  · obtain ⟨rfl, hn⟩ := lineText_eq_nil hline
    rw [hline] at h
    rw [lineText_append_of_not_mem hn hx]
    refine noBareReturn_append (fun _ hhead => ?_) h
    exact not_mem_lineText e (List.mem_of_head? hhead)
  · rw [hline] at h
    rw [lineText_append hline (List.cons_ne_nil c rest)]
    exact h

theorem checked_blockText_trail (he : IsTrail e) {inner : Bool}
    (h : (blockText 0 x).bind (docComment.checked inner) = none) :
    (blockText 0 (x ++ e)).bind (docComment.checked inner) = none := by
  rcases hx : blockText 0 x with _ | ⟨y, rest⟩
  · rw [blockText_trail he hx]
    rfl
  · rw [hx] at h
    rw [blockText_append hx]
    have hy : noBareReturn y = false := checked_eq_none.1 h
    exact checked_eq_none.2 hy

theorem docComment_trail (he : IsTrail e) (hx : KeepsReturn x e) (h : docComment x = none) :
    docComment (x ++ e) = none := by
  unfold docComment at h
  split at h
  · exact checked_lineText_trail hx.tail.tail.tail h
  · exact checked_blockText_trail he h
  · rfl
  · rename_i r hr
    rw [List.cons_append, List.cons_append, List.cons_append, docComment]
    · exact checked_lineText_trail hx.tail.tail.tail h
    · exact append_ne_cons hr fun _ => he.ne_cons rfl
  · rfl
  · rename_i r hr
    rw [List.cons_append, List.cons_append, List.cons_append, docComment]
    · exact checked_blockText_trail he h
    · exact append_ne_cons hr fun _ => he.ne_cons rfl
  · rename_i h₁ h₂ h₃ h₄ h₅ h₆
    unfold docComment
    split
    · exact absurd ‹_› (append_trail_ne he (y := ['/', '/', '!']) rfl h₁ _)
    · exact absurd ‹_› (append_trail_ne he (y := ['/', '*', '!']) rfl h₂ _)
    · rfl
    · exact absurd ‹_› (append_trail_ne he (y := ['/', '/', '/']) rfl h₄ _)
    · rfl
    · exact absurd ‹_› (append_trail_ne he (y := ['/', '*', '*']) rfl h₆ _)
    · rfl

theorem missingMark_trail (he : IsTrail e) (h : ¬missingMark.isPrefixOf x = true) :
    ¬missingMark.isPrefixOf (x ++ e) = true := by
  intro hmark
  obtain ⟨z, hz⟩ := List.isPrefixOf_iff_prefix.1 hmark
  refine append_trail_ne he (y := missingMark) rfl (fun r hr => h ?_) z hz.symm
  exact List.isPrefixOf_iff_prefix.2 ⟨r, hr.symm⟩

/-- A text that no step takes anything from. -/
theorem step_trail (he : IsTrail e) (hne : x ≠ []) (hx : KeepsReturn x e) (h : step x = none) :
    step (x ++ e) = none := by
  unfold step at h
  rcases hdoc : docComment x with _ | found
  · simp only [hdoc] at h
    by_cases hm : missingMark.isPrefixOf x = true
    · rw [if_pos hm] at h
      cases h
    · rw [if_neg hm] at h
      have hbracket := bracket_append hne e
      rcases hbr : bracket x with _ | found
      · simp only [hbr, Option.map_eq_none_iff] at h
        rw [hbr] at hbracket
        simp only [step, docComment_trail he hx hdoc, if_neg (missingMark_trail he hm),
          hbracket, leaf_trail he hne hx h]
        rfl
      · simp only [hbr] at h
        cases h
  · simp only [hdoc] at h
    cases h

/-! ## Texts -/

/-- A comment between marks does not end where no slash follows. -/
theorem gapFrom_block_of_not_mem {depth : ℕ} (h : '/' ∉ x) : gapFrom (.block depth) x = none := by
  induction x with
  | nil => rfl
  | cons c x ih =>
    rw [List.mem_cons, not_or] at h
    have hopen : isMark '/' '*' c x = false := by simp [isMark, Ne.symm h.1]
    have hclose : isMark '*' '/' c x = false := by
      rw [isMark, Bool.and_eq_false_iff]
      exact .inr (beq_eq_false_iff_ne.2 fun hx => h.2 (List.mem_of_head? hx))
    simp only [gapFrom, gapStep, hopen, hclose, Bool.false_eq_true, if_false]
    exact ih h.2

theorem gapFrom_trail (he : IsTrail e) (hs : s.Meets x) (h : gapFrom s x = none) :
    gapFrom s (x ++ e) = none := by
  induction x generalizing s with
  | nil =>
    cases s with
    | blank => cases h
    | line => cases h
    | block depth => exact gapFrom_block_of_not_mem (he.not_mem rfl)
    | second next =>
      obtain ⟨⟨d, -, hd⟩, -⟩ := hs
      cases hd
  | cons c x ih =>
    simp only [List.cons_append, gapFrom, gapStep_append he.border] at h ⊢
    split at h
    · rename_i s' hs'
      exact ih (meets_of_gapStep hs hs') h
    · cases h

/-- **Blanks, semicolons and a closing brace add no lexemes to a text without any.** -/
theorem lexemes_trail (he : IsTrail e) (hx : KeepsReturn x e) (h : lexemes x = none) :
    lexemes (x ++ e) = none := by
  induction hn : x.length using Nat.strongRecOn generalizing x with
  | _ n ih =>
    subst hn
    rcases hgap : gap x with _ | _ | ⟨c, y⟩
    · exact lexemes_of_gap_none (gapFrom_trail he trivial hgap)
    · rw [lexemes_of_gap_nil hgap] at h
      cases h
    · have hgap' := gapFrom_append he.border hgap (List.cons_ne_nil c y)
      have hsuffix : c :: y <:+ x := suffix_gapFrom hgap
      rcases hstep : step (c :: y) with _ | ⟨found, rest⟩
      · have hnone := step_trail he (List.cons_ne_nil c y) (hx.suffix hsuffix) hstep
        exact lexemes_of_step_none hgap' hnone
      · rw [lexemes_of_step hgap hstep] at h
        have hrest := Option.map_eq_none_iff.1 h
        have hne : rest ≠ [] := by rintro rfl; cases hrest
        have hstep' := step_append he.border hstep (fun _ _ _ _ => hne)
          (fun hm => Decidable.not_not.1 fun hm' => missingMark_trail he hm' hm)
        have hlt : rest.length < x.length :=
          Nat.lt_of_lt_of_le (step_length_lt hstep) hsuffix.length_le
        have hkeeps : KeepsReturn rest e := hx.suffix ((step_suffix hstep).trans hsuffix)
        rw [lexemes_of_step hgap' hstep', ih rest.length hlt hkeeps hrest rfl]
        rfl

end Scan

end Grammar

end ProcessCompiler
