import ProcessCompiler.Proofs.Scan.Closing
import ProcessCompiler.Proofs.Scan.Spelling
/-!
# Texts before a semicolon

A semicolon among the lexemes of a text is a character of the text, and what
stands before it is scanned alone as it is scanned there. The scanners of
literals and comments look ahead without a bound, so this is said of each of
them: where it leaves the semicolon and all that follows it, it does the same
with the text that ends before the semicolon. Main statements: `exists_cut` and
`Closes.of_semi`.
-/

namespace ProcessCompiler

namespace Grammar

namespace Scan

open Text

variable {b x y z rest : List Char} {c : Char} {f : Flavour} {L : List Lexeme}

theorem border_semi (z : List Char) : Border (';' :: z) := ⟨rfl, rfl, rfl⟩

/-- A word that begins a text begins what stands before a semicolon of the text,
if it has none in it. -/
theorem exists_append_of_append (k : List Char) (hk : ';' ∉ k) (h : x ++ ';' :: z = k ++ y) :
    ∃ r, x = k ++ r ∧ r ++ ';' :: z = y := by
  induction k generalizing x with
  | nil => exact ⟨x, rfl, h⟩
  | cons c k ih =>
    rw [List.mem_cons, not_or] at hk
    cases x with
    | nil => exact absurd (List.cons.inj h).1 hk.1
    | cons d x =>
      obtain ⟨rfl, htail⟩ := List.cons.inj h
      obtain ⟨r, rfl, hr⟩ := ih hk.2 htail
      exact ⟨r, rfl, hr⟩

/-- A text is not left over behind one of its characters. -/
theorem not_takes_append : ¬Takes b (y ++ b) := by
  intro h
  have hlt := h.length_lt
  rw [List.length_append] at hlt
  omega

/-! ## Literals -/

theorem stringFrom_of_append {s : StringState} (h : stringFrom f s (x ++ b) = some (y ++ b)) :
    stringFrom f s x = some y := by
  induction x generalizing s with
  | nil => exact absurd (takes_stringFrom h) not_takes_append
  | cons c x ih =>
    simp only [List.cons_append, stringFrom] at h ⊢
    split at h
    · rw [List.append_cancel_right (Option.some.inj h)]
    · exact ih h
    · cases h

theorem rawFrom_of_append {n : ℕ} (h : rawFrom f n (x ++ ';' :: z) = some (y ++ ';' :: z)) :
    rawFrom f n x = some y := by
  fun_induction rawFrom f n x with
  | case1 => exact absurd (takes_rawFrom h) not_takes_append
  | case2 r hn =>
    have hle : n ≤ r.length := by
      simp only [Bool.and_eq_true, beq_iff_eq, List.length_take] at hn
      omega
    simp only [List.cons_append, rawFrom, List.take_append_of_le_length hle, hn, if_true,
      List.drop_append_of_le_length hle] at h
    rw [List.append_cancel_right (Option.some.inj h)]
  | case3 r hn ih =>
    rw [List.cons_append, rawFrom] at h
    split_ifs at h with hlong
    · -- The hash signs that close the string stand before the semicolon.
      have hle : n ≤ r.length := by
        have hlen := congrArg List.length (Option.some.inj h)
        simp only [Bool.and_eq_true, beq_iff_eq, List.length_take] at hlong
        simp only [List.length_drop, List.length_append, List.length_cons] at hlen hlong
        omega
      rw [List.take_append_of_le_length hle] at hlong
      exact absurd hlong hn
    · exact ih h
  | case4 r ih => exact ih h
  | case5 r hr =>
    rw [List.cons_append, rawFrom] at h
    · cases h
    · exact append_ne_cons hr fun _ r => by simp
  | case6 c r hq hr hr' hc ih =>
    rw [List.cons_append, rawFrom, if_pos hc] at h
    · exact ih h
    all_goals simp_all
  | case7 c r hq hr hr' hc =>
    rw [List.cons_append, rawFrom, if_neg hc] at h
    · cases h
    all_goals simp_all

theorem rawString_of_append (h : rawString f (x ++ ';' :: z) = some (y ++ ';' :: z)) :
    rawString f x = some y := by
  have hhash : startsWith (· == '#') (';' :: z) = false := rfl
  simp only [rawString, takeWhile_append hhash, dropWhile_append hhash] at h ⊢
  generalize x.dropWhile (· == '#') = behindHashes at h ⊢
  rcases behindHashes with _ | ⟨c, r⟩
  · cases h
  · by_cases hc : c = '"'
    · subst hc
      simp only [List.cons_append] at h ⊢
      split_ifs at h ⊢
      exact rawFrom_of_append h
    · simp [hc] at h

theorem unicodeFrom_of_append {v n : ℕ} (h : unicodeFrom v n (x ++ ';' :: z) = some (y ++ ';' :: z)) :
    unicodeFrom v n x = some y := by
  induction x generalizing v n with
  | nil => cases h
  | cons c x ih =>
    simp only [List.cons_append, unicodeFrom] at h ⊢
    split at h
    · exact ih h
    · rw [List.append_cancel_right (Option.some.inj h)]
    · cases h

theorem oneChar_of_append (h : oneChar (x ++ ';' :: z) = some (y ++ ';' :: z)) :
    oneChar x = some y := by
  rcases x with _ | ⟨c, x⟩
  · have hlen := congrArg List.length (Option.some.inj (show some z = some (y ++ ';' :: z) from h))
    simp at hlen
    omega
  · by_cases hc : c = '\\'
    · subst hc
      rcases x with _ | ⟨d, x⟩
      · cases h
      · by_cases hd : d = 'x'
        · subst hd
          rcases x with _ | ⟨a, _ | ⟨b, x⟩⟩
          · cases z <;> cases h
          · have hhex : isHexDigit ';' = false := rfl
            simp [oneChar, hhex] at h
          · simp only [oneChar, List.cons_append] at h ⊢
            split_ifs at h ⊢
            rw [List.append_cancel_right (Option.some.inj h)]
        · by_cases hu : ∃ r, d = 'u' ∧ x = '\x7b' :: r
          · obtain ⟨r, rfl, rfl⟩ := hu
            exact unicodeFrom_of_append h
          · have hx : ∀ r, d = 'u' → x ≠ '\x7b' :: r := fun r hd hx => hu ⟨r, hd, hx⟩
            rw [List.cons_append, List.cons_append, oneChar_escape hd fun r hd =>
              append_ne_cons (fun r => hx r hd) (fun _ r h => by cases h) r] at h
            rw [oneChar_escape hd hx]
            split_ifs at h ⊢
            rw [List.append_cancel_right (Option.some.inj h)]
    · have hone : ∀ r, oneChar (c :: r) = some r := fun r => by simp [oneChar, hc]
      rw [List.cons_append, hone] at h
      rw [hone, List.append_cancel_right (Option.some.inj h)]

theorem oneByte_of_append (h : oneByte (x ++ ';' :: z) = some (y ++ ';' :: z)) :
    oneByte x = some y := by
  rcases x with _ | ⟨c, x⟩
  · have hlen := congrArg List.length (Option.some.inj (show some z = some (y ++ ';' :: z) from h))
    simp at hlen
    omega
  · by_cases hc : c = '\\'
    · subst hc
      rcases x with _ | ⟨d, x⟩
      · cases h
      · by_cases hd : d = 'x'
        · subst hd
          have hhex : isHexDigit ';' = false := rfl
          rcases x with _ | ⟨a, _ | ⟨b, x⟩⟩
          · cases z with
            | nil => cases h
            | cons e z => simp [oneByte, hhex] at h
          · simp [oneByte, hhex] at h
          · simp only [oneByte, List.cons_append] at h ⊢
            split_ifs at h ⊢
            rw [List.append_cancel_right (Option.some.inj h)]
        · rw [List.cons_append, List.cons_append, oneByte_escape hd] at h
          rw [oneByte_escape hd]
          split_ifs at h ⊢
          rw [List.append_cancel_right (Option.some.inj h)]
    · have hone : ∀ r, oneByte (c :: r) = if Flavour.bytes.admits c then some r else none :=
        fun r => by simp [oneByte, hc]
      rw [List.cons_append, hone] at h
      rw [hone]
      split_ifs at h ⊢
      rw [List.append_cancel_right (Option.some.inj h)]

theorem closed_of_append {one : List Char → Option (List Char)}
    (hone : ∀ y, one (x ++ ';' :: z) = some (y ++ ';' :: z) → one x = some y)
    (h : (one (x ++ ';' :: z)).bind closeQuote = some (y ++ ';' :: z)) :
    (one x).bind closeQuote = some y := by
  obtain ⟨r, hr, hclose⟩ := Option.bind_eq_some_iff.1 h
  unfold closeQuote at hclose
  split at hclose
  · obtain rfl := Option.some.inj hclose
    rw [hone ('\'' :: y) hr]
    rfl
  · cases hclose

theorem quotedOf_of_append {kind : LiteralKind} {l : Literal} {found found' : Option (List Char)}
    (hfound : ∀ r, found' = some (r ++ ';' :: z) → found = some r)
    (h : quotedOf kind (x ++ ';' :: z) found' = some (l, rest ++ ';' :: z)) :
    quotedOf kind x found = some (l, rest) := by
  obtain ⟨r, hr, heq⟩ := Option.map_eq_some_iff.1 h
  obtain ⟨hl, hrest⟩ := Prod.mk.inj heq
  obtain ⟨k, hk⟩ := suffix_dropWord r
  rw [hrest, ← List.append_assoc] at hk
  subst hk
  rw [dropWord_append (border_semi z)] at hrest hl
  have hdrop := List.append_cancel_right hrest
  rw [literalOf_append] at hl
  simp only [quotedOf, hfound _ hr, Option.map_some, hdrop, ← hl]

theorem quoted_of_append {l : Literal} (h : quoted (x ++ ';' :: z) = some (l, rest ++ ';' :: z)) :
    quoted x = some (l, rest) := by
  generalize ht : x ++ ';' :: z = t at h
  unfold quoted at h
  split at h
  · obtain ⟨x, rfl, rfl⟩ := exists_append_of_append ['"'] (by decide) ht
    exact quotedOf_of_append (fun r => stringFrom_of_append) h
  · obtain ⟨x, rfl, rfl⟩ := exists_append_of_append ['b', '"'] (by decide) ht
    exact quotedOf_of_append (x := 'b' :: '"' :: x) (fun r => stringFrom_of_append) h
  · obtain ⟨x, rfl, rfl⟩ := exists_append_of_append ['b', 'r'] (by decide) ht
    exact quotedOf_of_append (x := 'b' :: 'r' :: x) (fun r => rawString_of_append) h
  · obtain ⟨x, rfl, rfl⟩ := exists_append_of_append ['c', '"'] (by decide) ht
    exact quotedOf_of_append (x := 'c' :: '"' :: x) (fun r => stringFrom_of_append) h
  · obtain ⟨x, rfl, rfl⟩ := exists_append_of_append ['c', 'r'] (by decide) ht
    exact quotedOf_of_append (x := 'c' :: 'r' :: x) (fun r => rawString_of_append) h
  · obtain ⟨x, rfl, rfl⟩ := exists_append_of_append ['b', '\''] (by decide) ht
    exact quotedOf_of_append (x := 'b' :: '\'' :: x)
      (fun r => closed_of_append fun y => oneByte_of_append) h
  · obtain ⟨x, rfl, rfl⟩ := exists_append_of_append ['\''] (by decide) ht
    exact quotedOf_of_append (x := '\'' :: x) (fun r => closed_of_append fun y => oneChar_of_append) h
  · obtain ⟨x, rfl, rfl⟩ := exists_append_of_append ['r'] (by decide) ht
    exact quotedOf_of_append (x := 'r' :: x) (fun r => rawString_of_append) h
  · cases h

theorem literal_of_append {l : Literal} (h : literal (x ++ ';' :: z) = some (l, rest ++ ';' :: z)) :
    literal x = some (l, rest) := by
  have hb := border_semi z
  by_cases hx : startsWith isDigit x = true
  · rw [literal_of_digit (by rw [startsWith_append hb.digit, hx]), decimal_append hb,
      integer_append hb] at h
    rw [literal_of_digit hx]
    obtain ⟨r, hr, heq⟩ := Option.map_eq_some_iff.1 h
    obtain ⟨rfl, rfl⟩ := Prod.mk.inj heq
    have hnumber : (decimal x <|> integer x) = some rest := by
      cases hd : decimal x <;> simp_all
    rw [hnumber, Option.map_some, literalOf_append]
  · rw [Bool.not_eq_true] at hx
    rw [literal_of_not_digit (by rw [startsWith_append hb.digit, hx])] at h
    rw [literal_of_not_digit hx]
    exact quoted_of_append h

/-! ## Steps -/

/-- What a scanner leaves that is not affected by the text behind a border. -/
theorem of_map_behind {α : Type} {found : Option (α × List Char)} {a : α}
    (h : found.map (behind b) = some (a, rest ++ b)) : found = some (a, rest) := by
  obtain ⟨⟨a', r⟩, hfound, heq⟩ := Option.map_eq_some_iff.1 h
  obtain ⟨rfl, hr⟩ := Prod.mk.inj heq
  rw [hfound, List.append_cancel_right hr]

theorem lifetime_of_append {l : Leaf} (h : lifetime (x ++ ';' :: z) = some (l, rest ++ ';' :: z))
    (hopen : rest = x → startsWith isWordStart x = true → literal x = none →
      literal (x ++ ';' :: z) = none) :
    lifetime x = some (l, rest) := by
  have hb := border_semi z
  have hquote : startsWith (· == '\'') (';' :: z) = false := rfl
  have hhash : startsWith (· == '#') (';' :: z) = false := rfl
  unfold lifetime at h ⊢
  rw [name_append hb] at h
  rcases hname : name x with _ | ⟨n, after⟩
  · rw [hname] at h
    cases h
  · rw [hname] at h
    simp only [Option.map_some, behind, startsWith_append hquote, startsWith_append hhash,
      take_two_append hb] at h ⊢
    split_ifs at h with hstop hlit hquoted
    · obtain ⟨rfl, hrest⟩ := Prod.mk.inj (Option.some.inj h)
      obtain rfl := List.append_cancel_right hrest
      have hx : (literal x).isSome = true := by
        rcases hx : literal x with _ | found
        · rw [hopen rfl (startsWith_of_name hname) hx] at hlit
          cases hlit
        · rfl
      rw [if_neg hstop, if_pos hx]
    · obtain ⟨rfl, hrest⟩ := Prod.mk.inj (Option.some.inj h)
      obtain rfl := List.append_cancel_right hrest
      have hx : ¬(literal x).isSome = true := by
        intro hx
        obtain ⟨⟨l, r⟩, hfound⟩ := Option.isSome_iff_exists.1 hx
        rw [literal_append hb hfound] at hlit
        exact hlit rfl
      rw [looksQuoted_append hb] at hquoted
      rw [if_neg hstop, if_neg hx, if_neg hquoted]

theorem punctLeaf_of_append (hx : x ≠ []) {l : Leaf}
    (h : punctLeaf (x ++ ';' :: z) = some (l, rest ++ ';' :: z))
    (hopen : ∀ u, x = '\'' :: u → rest = u → startsWith isWordStart u = true → literal u = none →
      literal (u ++ ';' :: z) = none) :
    punctLeaf x = some (l, rest) := by
  have hb := border_semi z
  have hpb := punct_append hb hx
  rcases hp : punct x with _ | ⟨c, r⟩
  · rw [hp] at hpb
    rw [punctLeaf, hpb] at h
    cases h
  · rw [hp] at hpb
    by_cases hc : c = '\''
    · subst hc
      obtain ⟨rfl, -⟩ := exists_cons_of_punct hp
      rw [punctLeaf, hpb] at h
      rw [punctLeaf, hp]
      exact lifetime_of_append h (hopen r rfl)
    · rw [punctLeaf_of_punct hpb hc, joins_append hb] at h
      rw [punctLeaf_of_punct hp hc]
      obtain ⟨rfl, hrest⟩ := Prod.mk.inj (Option.some.inj h)
      rw [List.append_cancel_right hrest]

theorem leaf_of_append (hx : x ≠ []) {l : Leaf}
    (h : leaf (x ++ ';' :: z) = some (l, rest ++ ';' :: z))
    (hopen : ∀ u, x = '\'' :: u → rest = u → startsWith isWordStart u = true → literal u = none →
      literal (u ++ ';' :: z) = none) :
    leaf x = some (l, rest) := by
  have hb := border_semi z
  unfold leaf at h
  rcases hl : literal (x ++ ';' :: z) with _ | ⟨lit, r⟩
  · have hl' : literal x = none := by
      rcases hl' : literal x with _ | ⟨lit, r⟩
      · rfl
      · rw [literal_append hb hl'] at hl
        cases hl
    rw [hl] at h
    rcases hp : punctLeaf (x ++ ';' :: z) with _ | found
    · simp only [hp] at h
      split_ifs at h with hq
      rw [name_append hb] at h
      rw [looksQuoted_append hb] at hq
      have hname := of_map_behind h
      simp only [leaf, hl', punctLeaf_of_word (startsWith_of_name hname), if_neg hq, hname]
    · simp only [hp] at h
      obtain rfl := Option.some.inj h
      simp only [leaf, hl', punctLeaf_of_append hx hp hopen]
  · rw [hl] at h
    obtain ⟨rfl, rfl⟩ := Prod.mk.inj (Option.some.inj h)
    rw [leaf, literal_of_append hl]

theorem blockText_of_append {depth : ℕ}
    (h : blockText depth (x ++ ';' :: z) = some (y, rest ++ ';' :: z)) :
    blockText depth x = some (y, rest) := by
  fun_induction blockText depth x generalizing y with
  | case1 depth x ih =>
    simp only [List.cons_append, blockText] at h
    obtain ⟨⟨s, r⟩, hs, heq⟩ := Option.map_eq_some_iff.1 h
    obtain ⟨rfl, rfl⟩ := Prod.mk.inj heq
    rw [ih hs]
    rfl
  | case2 x =>
    obtain ⟨rfl, hrest⟩ := Prod.mk.inj (Option.some.inj h)
    rw [List.append_cancel_right hrest]
  | case3 x depth ih =>
    simp only [List.cons_append, blockText] at h
    obtain ⟨⟨s, r⟩, hs, heq⟩ := Option.map_eq_some_iff.1 h
    obtain ⟨rfl, rfl⟩ := Prod.mk.inj heq
    rw [ih hs]
    rfl
  | case4 depth c x h₁ h₂ ih =>
    rw [List.cons_append, blockText] at h
    · obtain ⟨⟨s, r⟩, hs, heq⟩ := Option.map_eq_some_iff.1 h
      obtain ⟨rfl, rfl⟩ := Prod.mk.inj heq
      rw [ih hs]
      rfl
    · exact fun r hc => append_ne_cons (fun r => h₁ r hc) (fun _ r h => by cases h) r
    · exact fun r hc => append_ne_cons (fun r => h₂ r hc) (fun _ r h => by cases h) r
  | case5 => exact absurd (takes_blockText h) not_takes_append

/-- The text of a line that ends before the semicolon. -/
theorem lineText_of_append (h : lineText (x ++ ';' :: z) = (y, rest ++ ';' :: z)) :
    lineText x = (y, rest) ∧ rest ≠ [] := by
  fun_induction lineText x generalizing y with
  | case1 x =>
    obtain ⟨rfl, hrest⟩ := Prod.mk.inj h
    obtain rfl : '\n' :: x = rest :=
      List.append_cancel_right (show '\n' :: x ++ ';' :: z = rest ++ ';' :: z from hrest)
    exact ⟨rfl, List.cons_ne_nil _ _⟩
  | case2 x =>
    obtain ⟨rfl, hrest⟩ := Prod.mk.inj h
    obtain rfl : '\n' :: x = rest :=
      List.append_cancel_right (show '\n' :: x ++ ';' :: z = rest ++ ';' :: z from hrest)
    exact ⟨rfl, List.cons_ne_nil _ _⟩
  | case3 c x h₁ h₂ s r hs ih =>
    rw [List.cons_append, lineText] at h
    · obtain ⟨rfl, hrest⟩ := Prod.mk.inj h
      obtain ⟨heq, hne⟩ := ih (Prod.ext rfl hrest)
      rw [hs] at heq
      obtain ⟨rfl, rfl⟩ := Prod.mk.inj heq
      exact ⟨rfl, hne⟩
    · exact fun r hc => append_ne_cons (fun r => h₁ r hc) (fun _ r h => by cases h) r
    · exact h₂
  | case4 =>
    have hsuffix := suffix_lineText z
    have hrest : (lineText z).2 = rest ++ ';' :: z := (Prod.mk.inj h).2
    have hle := (hrest ▸ hsuffix).length_le
    simp at hle
    omega

theorem checked_lineText_of_append {inner i : Bool}
    (h : docComment.checked i (lineText (x ++ ';' :: z)) = some (inner, y, rest ++ ';' :: z)) :
    docComment.checked i (lineText x) = some (inner, y, rest) ∧ rest ≠ [] := by
  obtain ⟨rfl, htext, hy⟩ := docComment_checked.1 h
  obtain ⟨htext, hne⟩ := lineText_of_append htext
  exact ⟨docComment_checked.2 ⟨rfl, htext, hy⟩, hne⟩

theorem checked_blockText_of_append {inner i : Bool}
    (h : (blockText 0 (x ++ ';' :: z)).bind (docComment.checked i) =
      some (inner, y, rest ++ ';' :: z)) :
    (blockText 0 x).bind (docComment.checked i) = some (inner, y, rest) := by
  obtain ⟨found, hfound, h⟩ := Option.bind_eq_some_iff.1 h
  obtain ⟨rfl, rfl, hy⟩ := docComment_checked.1 h
  exact Option.bind_eq_some_iff.2
    ⟨_, blockText_of_append hfound, docComment_checked.2 ⟨rfl, rfl, hy⟩⟩

theorem docComment_of_append {inner : Bool}
    (h : docComment (x ++ ';' :: z) = some (inner, y, rest ++ ';' :: z)) :
    docComment x = some (inner, y, rest) ∧ (startsLine x = true → rest ≠ []) := by
  generalize ht : x ++ ';' :: z = t at h
  unfold docComment at h
  split at h
  · obtain ⟨x, rfl, rfl⟩ := exists_append_of_append ['/', '/', '!'] (by decide) ht
    exact (checked_lineText_of_append h).imp_right fun hne _ => hne
  · obtain ⟨x, rfl, rfl⟩ := exists_append_of_append ['/', '*', '!'] (by decide) ht
    exact ⟨checked_blockText_of_append h, by simp [startsLine]⟩
  · cases h
  · -- A fourth slash would make the comment one that means nothing.
    rename_i r hr
    obtain ⟨x, rfl, rfl⟩ := exists_append_of_append ['/', '/', '/'] (by decide) ht
    simp only [List.cons_append, List.nil_append]
    rw [docComment]
    · exact (checked_lineText_of_append h).imp_right fun hne _ => hne
    · rintro r rfl
      exact hr _ rfl
  · cases h
  · rename_i r hr
    obtain ⟨x, rfl, rfl⟩ := exists_append_of_append ['/', '*', '*'] (by decide) ht
    simp only [List.cons_append, List.nil_append]
    rw [docComment]
    · exact ⟨checked_blockText_of_append h, by simp [startsLine]⟩
    · rintro r rfl
      exact hr _ rfl
  · cases h

/-- The mark of a missing expression has no semicolon. -/
theorem missingMark_of_append (h : missingMark.isPrefixOf (x ++ ';' :: z) = true) :
    missingMark.isPrefixOf x = true := by
  obtain ⟨t, ht⟩ := List.isPrefixOf_iff_prefix.1 h
  rcases List.append_eq_append_iff.1 ht with ⟨u, rfl, -⟩ | ⟨u, hu, hz⟩
  · exact List.isPrefixOf_iff_prefix.2 ⟨u, rfl⟩
  · rcases u with _ | ⟨c, u⟩
    · exact List.isPrefixOf_iff_prefix.2 ⟨[], by rw [hu, List.append_nil, List.append_nil]⟩
    · obtain ⟨rfl, -⟩ := List.cons.inj hz
      have hmem : ';' ∈ missingMark := hu ▸ List.mem_append_right _ List.mem_cons_self
      exact absurd hmem (by decide)

/-- A step that leaves the semicolon is taken without it. -/
theorem step_of_append (hx : x ≠ []) {found : List Lexeme}
    (h : step (x ++ ';' :: z) = some (found, rest ++ ';' :: z))
    (hopen : ∀ u, x = '\'' :: u → rest = u → startsWith isWordStart u = true → literal u = none →
      literal (u ++ ';' :: z) = none) :
    step x = some (found, rest) ∧
      ∀ inner y, docComment x = some (inner, y, rest) → startsLine x = true → rest ≠ [] := by
  have hb := border_semi z
  -- Where no comment begins, only the step is left to show.
  have hplain : docComment x = none → step x = some (found, rest) →
      step x = some (found, rest) ∧
        ∀ inner y, docComment x = some (inner, y, rest) → startsLine x = true → rest ≠ [] := by
    intro hnone hstep
    refine ⟨hstep, fun inner y hdoc => ?_⟩
    rw [hnone] at hdoc
    cases hdoc
  unfold step at h
  rcases hdoc : docComment (x ++ ';' :: z) with _ | ⟨inner, y, r⟩
  · rw [hdoc] at h
    by_cases hm : missingMark.isPrefixOf x = true
    · obtain ⟨x, rfl⟩ := List.isPrefixOf_iff_prefix.1 hm
      obtain ⟨rfl, hrest⟩ := Prod.mk.inj (Option.some.inj h)
      obtain rfl : x = rest :=
        List.append_cancel_right (show x ++ ';' :: z = rest ++ ';' :: z from hrest)
      have hnone := docComment_eq_none (x := missingMark ++ x) fun d r h => by cases h
      exact hplain hnone (by simp only [step, hnone]; rfl)
    · simp only [if_neg fun h => hm (missingMark_of_append h)] at h
      have hbracket := bracket_append hx (';' :: z)
      rcases hbr : bracket x with _ | ⟨br, r⟩
      · rw [hbr] at hbracket
        simp only [hbracket, Option.map_none] at h
        obtain ⟨⟨l, r⟩, hleaf, heq⟩ := Option.map_eq_some_iff.1 h
        obtain ⟨rfl, rfl⟩ := Prod.mk.inj heq
        have hleaf' := leaf_of_append hx hleaf hopen
        have hnone := docComment_eq_none fun d r => not_comment_of_leaf hleaf'
        refine hplain hnone ?_
        simp only [step, hnone, if_neg hm, hbr, hleaf']
        rfl
      · rw [hbr] at hbracket
        simp only [hbracket, Option.map_some, behind] at h
        obtain ⟨rfl, hrest⟩ := Prod.mk.inj (Option.some.inj h)
        have hnone := docComment_eq_none (x := x) fun d r h => by subst h; cases hbr
        refine hplain hnone ?_
        simp only [step, hnone, if_neg hm, hbr, List.append_cancel_right hrest]
  · rw [hdoc] at h
    obtain ⟨rfl, rfl⟩ := Prod.mk.inj (Option.some.inj h)
    obtain ⟨hdoc', hne⟩ := docComment_of_append hdoc
    exact ⟨by rw [step, hdoc'], fun _ _ _ => hne⟩

/-! ## Texts -/

/-- A gap that ends before the semicolon, or right at it. -/
theorem gapFrom_of_append {s : GapState} (h : gapFrom s (x ++ ';' :: z) = some (y ++ ';' :: z)) :
    gapFrom s x = some y := by
  induction x generalizing s with
  | nil =>
    rw [List.nil_append, gapFrom] at h
    split at h
    · have hle := (suffix_gapFrom h).length_le
      simp at hle
      omega
    · rename_i hs
      obtain rfl : [] = y := List.append_cancel_right (Option.some.inj h)
      have hblank : s = .blank := by
        cases s with
        | blank => rfl
        | line => cases hs
        | block depth => simp [gapStep, isMark] at hs
        | second next => cases hs
      rw [hblank]
      rfl
  | cons c x ih =>
    simp only [List.cons_append, gapFrom, gapStep_append (border_semi z)] at h ⊢
    split at h
    · exact ih h
    · have heq : c :: x ++ ';' :: z = y ++ ';' :: z := Option.some.inj h
      rw [← List.append_cancel_right heq]

/-- A text that is scanned alone before every border ends outside comments. -/
theorem closes_of_append (h : ∀ b, Border b → Unmarked L b → lexemes (x ++ b) = (lexemes b).map (L ++ ·)) :
    Closes x L := by
  have hnil : lexemes x = some L := by
    have hnil := h [] ⟨rfl, rfl, rfl⟩ fun _ => nofun
    rw [List.append_nil, show lexemes [] = some [] from rfl] at hnil
    simpa using hnil
  refine closes_of_lexemes hnil (bne_eq_false_iff_eq.2 ?_)
  rw [h ['('] (border_paren []) (fun _ => nofun), h ['\n', '('] (border_line ['(']) fun _ => nofun]
  rfl

theorem lifetime_ne_semi {joint : Bool} : lifetime x ≠ some (.punct ';' joint, rest) := by
  unfold lifetime
  split
  · split_ifs <;> simp
  · simp

theorem name_ne_semi {joint : Bool} : name x ≠ some (.punct ';' joint, rest) := by
  unfold name
  split
  · split
    · split_ifs <;> simp
    · simp
  · split
    · split <;> simp
    · simp

/-- The leaf of a semicolon is the character. -/
theorem leaf_eq_semi {joint : Bool} (h : leaf x = some (.punct ';' joint, rest)) :
    x = ';' :: rest := by
  unfold leaf at h
  split at h
  · cases h
  · split at h
    · rename_i found hp
      obtain rfl := Option.some.inj h
      rcases hpunct : punct x with _ | ⟨c, r⟩
      · rw [punctLeaf, hpunct] at hp
        cases hp
      · obtain ⟨rfl, -⟩ := exists_cons_of_punct hpunct
        by_cases hc : c = '\''
        · subst hc
          rw [punctLeaf, hpunct] at hp
          exact absurd hp lifetime_ne_semi
        · rw [punctLeaf_of_punct hpunct hc] at hp
          cases hp
          rfl
    · split_ifs at h
      exact absurd h name_ne_semi

/-- It is a step of its own. -/
theorem step_eq_semi {joint : Bool} {found : List Lexeme} (h : step x = some (found, rest))
    (hmem : .leaf (.punct ';' joint) ∈ found) :
    x = ';' :: rest ∧ found = [.leaf (.punct ';' joint)] := by
  unfold step at h
  rcases hdoc : docComment x with _ | ⟨inner, y, r⟩
  · simp only [hdoc] at h
    split_ifs at h with hm
    · obtain ⟨rfl, -⟩ := Prod.mk.inj (Option.some.inj h)
      simp at hmem
    · split at h
      · rename_i br r hbr
        obtain ⟨rfl, rfl⟩ := Prod.mk.inj (Option.some.inj h)
        obtain rfl := List.mem_singleton.1 hmem
        unfold bracket at hbr
        split at hbr <;> cases hbr
      · obtain ⟨⟨l, r⟩, hleaf, heq⟩ := Option.map_eq_some_iff.1 h
        obtain ⟨rfl, rfl⟩ := Prod.mk.inj heq
        obtain rfl := Lexeme.leaf.inj (List.mem_singleton.1 hmem)
        exact ⟨leaf_eq_semi hleaf, rfl⟩
  · simp only [hdoc] at h
    obtain ⟨rfl, -⟩ := Prod.mk.inj (Option.some.inj h)
    cases inner <;> simp [docLexemes] at hmem

/-- A name that looks quoted and begins no literal is no step. -/
theorem lexemes_of_looksQuoted (hx : looksQuoted x = true) (hl : literal x = none)
    (hname : startsWith isWordStart x = true) : lexemes x = none := by
  obtain ⟨c, y, rfl, hc⟩ : ∃ c y, x = c :: y ∧ isPlainWord c = true := by
    unfold looksQuoted at hx
    split at hx <;> first | exact ⟨_, _, rfl, rfl⟩ | cases hx
  refine lexemes_of_step_none (gap_of_isWordRest (isWordRest_of_isPlainWord hc) y) ?_
  rw [step_of_isWordRest (isWordRest_of_isPlainWord hc), leaf, hl, punctLeaf_of_word hname]
  simp [hx]

/-- A literal behind an apostrophe does not run over the semicolon, if the text
before it has lexemes. -/
theorem literal_semi_of_lexemes (hname : startsWith isWordStart x = true) (h : lexemes x = some L)
    (hl : literal x = none) : literal (x ++ ';' :: z) = none := by
  have hb := border_semi z
  have hx : looksQuoted x = false := by
    refine Bool.eq_false_iff.2 fun hx => ?_
    rw [lexemes_of_looksQuoted hx hl hname] at h
    cases h
  exact literal_of_word (by rw [startsWith_append hb.start, hname]) (by rw [looksQuoted_append hb, hx])

/-- A step before such a text. -/
theorem closes_of_step {t : List Char} {found L' : List Lexeme} (hgap : gap t = some (c :: y))
    (hstep : step (c :: y) = some (found, rest)) (hcloses : Closes rest L')
    (hline : ∀ inner z, docComment (c :: y) = some (inner, z, rest) → startsLine (c :: y) = true →
      rest ≠ []) : Closes t (found ++ L') := by
  refine closes_of_append fun b hb hmark => ?_
  rw [lexemes_append_of_step hb hgap hstep hcloses.lexemes hmark hline,
    hcloses.append b hb hmark.right, Option.map_map]
  simp [Function.comp_def]

/-- A gap that ends at the semicolon ends outside comments. -/
theorem closes_of_gap (h : gap (x ++ ';' :: z) = some (';' :: z)) : Closes x [] := by
  have hnil : gapFrom .blank x = some [] := gapFrom_of_append h
  refine closes_of_append fun b hb _ => ?_
  rcases gapFrom_append_nil hnil with hgap | hgap
  · rw [lexemes_congr (show gap (x ++ b) = gap b from hgap b hb)]
    simp
  · have hline : gapFrom .line z = some (';' :: z) := (hgap _ (border_semi z)).symm.trans h
    have hle := (suffix_gapFrom hline).length_le
    simp at hle

/-! ## Semicolons -/

/-- A semicolon outside comments is a lexeme. -/
theorem scans_semi (z : List Char) : Scans (';' :: z) [.leaf (.punct ';' (joins z))] z := by
  have hleaf : leaf (';' :: z) = some (.punct ';' (joins z), z) := by
    have hliteral : literal (';' :: z) = none := rfl
    rw [leaf, hliteral, punctLeaf_of_punct (punct_cons ..) (by decide)]
  have hstep : step (';' :: z) = some ([.leaf (.punct ';' (joins z))], z) := by
    have hdoc : docComment (';' :: z) = none := rfl
    have hbracket : bracket (';' :: z) = none := rfl
    simp only [step, hdoc, hbracket, hleaf]
    rfl
  exact .step rfl hstep .done

theorem isTrail_semi : IsTrail [';'] := ⟨';', [], rfl, nofun, rfl⟩

/-- What comes before a semicolon at the end of a text has lexemes, if the text
has. -/
theorem exists_lexemes_of_semi (h : lexemes (x ++ [';']) = some L) : ∃ L', lexemes x = some L' := by
  refine Option.ne_none_iff_exists'.1 fun hnone => ?_
  rw [lexemes_trail isTrail_semi (fun _ => by simp) hnone] at h
  cases h

/-- A text that ends outside comments does so with a semicolon behind it. -/
theorem Closes.semicolon (h : Closes x L) : Closes (x ++ [';']) (L ++ [.leaf (.punct ';' false)]) := by
  refine closes_of_append fun b hb _ => ?_
  have hjoins : joins b = false := joins_append hb []
  rw [List.append_assoc, List.singleton_append, h.append _ (border_semi b) fun _ => by simp,
    show _ = _ from scans_semi b, hjoins, Option.map_map]
  simp [Function.comp_def]

/-- **A semicolon at the end of a text** that ends outside comments stands
outside comments. -/
theorem Closes.of_semi (h : Closes (x ++ [';']) L) :
    ∃ L', Closes x L' ∧ L = L' ++ [.leaf (.punct ';' false)] := by
  obtain ⟨L', hL'⟩ := exists_lexemes_of_semi h.lexemes
  rcases closes_or_runsOn hL' with hcloses | hruns
  · exact ⟨L', hcloses, Option.some.inj (h.lexemes.symm.trans hcloses.semicolon.lexemes)⟩
  · -- In a comment, a bracket behind the semicolon would be lost.
    have happend := h.append ['('] (border_paren []) fun _ => nofun
    obtain ⟨L₁, hL₁, heq₁⟩ := hruns.append [';'] (border_semi []) (fun _ => nofun) (by decide)
    obtain ⟨L₂, hL₂, heq₂⟩ := hruns.append [';', '('] (border_semi ['(']) (fun _ => nofun) (by decide)
    have h₁ : Scan.lexemes (x ++ [';']) = some (L₁ ++ []) := heq₁
    have h₂ : Scan.lexemes (x ++ [';', '(']) = some (L₂ ++ []) := heq₂
    rw [h.lexemes, List.append_nil] at h₁
    rw [List.append_assoc, List.singleton_append, h₂, List.append_nil] at happend
    have hlist : L₂ = L ++ [.opening .paren] := Option.some.inj happend
    have hbrackets := congrArg brackets hlist
    rw [brackets_append, hL₂, ← hL₁, Option.some.inj h₁] at hbrackets
    exact absurd (List.self_eq_append_right.1 hbrackets) nofun

/-- What stands behind a comment to the end of the line, if it has lexemes: the
text keeps its brackets, and the lexemes of the next line follow. -/
theorem exists_of_endsInLine {M : List Lexeme} (h : lexemes x = some L) (hend : endsInLine x = true)
    (hb : Border b) (hmark : Unmarked L b) (hM : lexemes (x ++ b) = some M) :
    ∃ K N, lexemes (afterLine b) = some N ∧ M = K ++ N ∧ brackets K = brackets L := by
  rcases closes_or_trails_or_documents h with hcloses | htrails | hdocuments
  · rw [hcloses.endsInLine] at hend
    cases hend
  · rw [htrails.append b hb hmark] at hM
    obtain ⟨N, hN, rfl⟩ := Option.map_eq_some_iff.1 hM
    exact ⟨L, N, hN, rfl, rfl⟩
  · obtain ⟨K, N, hN, rfl, hbrackets⟩ := hdocuments.exists_closing hb hmark hM
    exact ⟨K ++ [.closing .bracket], N, hN, by rw [List.append_assoc]; rfl, hbrackets⟩

/-- **A semicolon among the lexemes of a text cuts it in two**, and both parts
are scanned on their own. -/
theorem exists_cut {t : List Char} {L₁ L₂ : List Lexeme} {joint : Bool}
    (h : lexemes t = some (L₁ ++ .leaf (.punct ';' joint) :: L₂)) :
    ∃ x z, t = x ++ ';' :: z ∧ Closes x L₁ ∧ lexemes z = some L₂ := by
  induction hn : t.length using Nat.strongRecOn generalizing t L₁ with
  | _ n ih =>
    subst hn
    rcases lexemes_cases h with ⟨-, hnil⟩ | ⟨c, y, found, rest, L', hgap, hstep, hrest, hL⟩
    · simp at hnil
    obtain ⟨lead, rfl⟩ := suffix_gapFrom hgap
    -- The semicolon is a lexeme of a later step.
    have hlater : ∀ L₃, L₁ = found ++ L₃ → L' = L₃ ++ .leaf (.punct ';' joint) :: L₂ →
        ∃ x z, lead ++ c :: y = x ++ ';' :: z ∧ Closes x L₁ ∧ lexemes z = some L₂ := by
      rintro L₃ rfl rfl
      have hlt : rest.length < (lead ++ c :: y).length :=
        Nat.lt_of_lt_of_le (step_length_lt hstep) (suffix_gapFrom hgap).length_le
      obtain ⟨x, z, rfl, hcloses, hz⟩ := ih _ hlt hrest rfl
      obtain ⟨q, hq⟩ := step_suffix hstep
      obtain ⟨q, rfl, rfl⟩ : ∃ r, q = c :: r ∧ r ++ (x ++ ';' :: z) = y := by
        cases q with
        | nil =>
          have hlength := step_length_lt hstep
          rw [← hq] at hlength
          simp at hlength
        | cons d q =>
          obtain ⟨rfl, rfl⟩ := List.cons.inj hq
          exact ⟨q, rfl, rfl⟩
      have hassoc : c :: (q ++ (x ++ ';' :: z)) = (c :: (q ++ x)) ++ ';' :: z := by simp
      rw [hassoc] at hstep hgap ⊢
      refine ⟨lead ++ c :: (q ++ x), z, by simp, ?_, hz⟩
      rw [← List.append_assoc] at hgap
      obtain ⟨hstep, hline⟩ := step_of_append (List.cons_ne_nil _ _) hstep
        fun u hu hx hname => literal_semi_of_lexemes hname (hx ▸ hcloses.lexemes)
      exact closes_of_step (gapFrom_of_append hgap) hstep hcloses hline
    rcases List.append_eq_append_iff.1 hL with ⟨L₃, hfound, hL'⟩ | ⟨L₃, rfl, hL'⟩
    · rcases L₃ with _ | ⟨l, L₃⟩
      · exact hlater [] (by simpa using hfound.symm) (by simpa using hL'.symm)
      · -- It is the lexeme of this one.
        obtain ⟨rfl, hbehind⟩ := List.cons.inj hL'
        have hmem : .leaf (.punct ';' joint) ∈ found := by simp [hfound]
        obtain ⟨hc, hsingle⟩ := step_eq_semi hstep hmem
        obtain ⟨rfl, rfl⟩ := List.cons.inj hc
        obtain ⟨rfl, rfl⟩ : L₁ = [] ∧ L₃ = [] := by
          rw [hsingle] at hfound
          have hlength := congrArg List.length hfound
          simp only [List.length_append, List.length_cons, List.length_nil] at hlength
          exact ⟨List.length_eq_zero_iff.1 (by omega), List.length_eq_zero_iff.1 (by omega)⟩
        exact ⟨lead, y, rfl, closes_of_gap hgap, hbehind ▸ hrest⟩
    · exact hlater L₃ rfl hL'

end Scan

end Grammar

end ProcessCompiler
