import Mathlib.Data.List.TakeWhile
import Mathlib.Data.Nat.Digits.Defs
import ProcessCompiler.Proofs.Scan.Compose
import ProcessCompiler.Proofs.Scan.Nesting
import ProcessCompiler.Program.Names
import ProcessCompiler.Text.Quoted
/-!
# Texts with known lexemes

`Scans x L rest` says that the scanner takes the lexemes `L` from the text `x`
and goes on with `rest`. Known code scans step by step, by evaluation. Three
texts are not known but scan to what they stand for: a quoted text is one
string, a name of the target language is one name, and a text in parentheses
is its own lexemes between two brackets.
-/

namespace ProcessCompiler

namespace Grammar

namespace Scan

open Text Lexeme

variable {b t x y rest : List Char} {c : Char} {L M : List Lexeme} {ts : List Token}

/-- The scanner takes the lexemes from a text and goes on with the rest. -/
def Scans (x : List Char) (L : List Lexeme) (rest : List Char) : Prop :=
  lexemes x = (lexemes rest).map (L ++ ·)

namespace Scans

theorem done : Scans x [] x := by simp [Scans]

theorem trans (h : Scans x L y) (h' : Scans y M rest) : Scans x (L ++ M) rest := by
  unfold Scans at h h' ⊢
  rw [h, h', Option.map_map]
  simp [Function.comp_def]

theorem step {l : Lexeme} {r : List Char} (hgap : gap x = some (c :: y))
    (hstep : step (c :: y) = some ([l], r)) (h : Scans r L rest) : Scans x (l :: L) rest :=
  trans (lexemes_of_step hgap hstep) h

/-- A blank before a text does not matter. -/
theorem blank (hc : isGap c = true) (h : Scans x L rest) : Scans (c :: x) L rest := by
  have hslash : c ≠ '/' := by rintro rfl; cases hc
  have hgap : gap (c :: x) = gap x := by
    simp [gap, gapFrom, gapStep, isMark, hslash, hc]
  exact (lexemes_congr hgap).trans h

theorem blanks {s : List Char} (hs : ∀ c ∈ s, isGap c = true) (h : Scans x L rest) :
    Scans (s ++ x) L rest := by
  induction s with
  | nil => exact h
  | cons c s ih => exact .blank (hs c List.mem_cons_self) (ih fun d hd => hs d (List.mem_cons_of_mem _ hd))

theorem lexemes (h : Scans x L []) : Scan.lexemes x = some L := by
  rw [h, show Scan.lexemes [] = some [] from rfl]
  simp

end Scans

/-- A text with known tokens, whatever stands behind it. -/
def Spells (t : List Char) (ts : List Token) : Prop :=
  ∃ L, Nests L ts ∧ ∀ rest, Scans (t ++ rest) L rest

theorem Spells.append {u : List Char} {us : List Token} (h : Spells t ts) (h' : Spells u us) :
    Spells (t ++ u) (ts ++ us) := by
  obtain ⟨L, hL, hscans⟩ := h
  obtain ⟨M, hM, hscans'⟩ := h'
  refine ⟨L ++ M, hL.append hM, fun rest => ?_⟩
  rw [List.append_assoc]
  exact (hscans _).trans (hscans' rest)

/-- Blanks have no tokens. -/
theorem spells_blanks {s : List Char} (hs : s.all isGap = true) : Spells s [] :=
  ⟨[], .nil, fun _ => .blanks (List.all_eq_true.1 hs) .done⟩

/-- A text in braces. -/
theorem Spells.braces (h : Spells t ts) : Spells ('\x7b' :: (t ++ ['\x7d'])) [.group .brace ts] := by
  obtain ⟨L, hL, hscans⟩ := h
  refine ⟨.opening .brace :: (L ++ [.closing .brace]), .group hL .nil, fun rest => ?_⟩
  have hclose : Scans ('\x7d' :: rest) [.closing .brace] rest := .step rfl rfl .done
  rw [List.cons_append, List.append_assoc]
  exact .step rfl rfl ((hscans _).trans hclose)

/-! ## Quoted texts -/

theorem hexValue?_digitChar : ∀ d < 16, hexValue? (Nat.digitChar d) = some d := by decide

/-- **The digits of a number are read to its value**, by any reader that takes a
digit at a time and six at most. -/
theorem read_hexadecimal {α : Type} {read : StringState → List Char → α}
    (hread : ∀ value count d rest, d < 16 → count ≠ 6 →
      read (.digits value count) (Nat.digitChar d :: rest) =
        read (.digits (value * 16 + d) (count + 1)) rest)
    (n : ℕ) (hn : n < 16 ^ 6) (rest : List Char) :
    read (.digits 0 0) (hexadecimal n ++ rest) =
      read (.digits n (hexadecimal n).length) rest := by
  unfold hexadecimal
  -- The last digit goes off, so the induction is on the number and not on its digits.
  induction n using Nat.strongRecOn generalizing rest with
  | _ n ih =>
    by_cases hlt : n < 16
    · rw [Nat.toDigits_of_lt_base hlt, List.singleton_append, hread 0 0 n rest hlt (by decide)]
      simp
    · have hlen : (Nat.toDigits 16 n).length ≤ 6 :=
        (Nat.length_toDigits_le_iff (by decide) (by decide)).2 hn
      rw [Nat.toDigits_of_base_le (by decide) (Nat.le_of_not_lt hlt)] at hlen ⊢
      have hcount : (Nat.toDigits 16 (n / 16)).length ≠ 6 := by
        simp only [List.length_append, List.length_singleton] at hlen
        omega
      rw [List.append_assoc, ih (n / 16) (by omega) (by omega), List.singleton_append,
        hread _ _ _ _ (Nat.mod_lt n (by decide)) hcount, Nat.div_add_mod', List.length_append,
        List.length_singleton]

theorem stringFrom_digit (value count d : ℕ) (rest : List Char) (hd : d < 16)
    (hcount : count ≠ 6) :
    stringFrom .text (.digits value count) (Nat.digitChar d :: rest) =
      stringFrom .text (.digits (value * 16 + d) (count + 1)) rest := by
  simp [stringFrom, stringStep, digitStep, hexValue?_digitChar d hd, hcount]

theorem isScalar_toNat (c : Char) : isScalar c.toNat = true := by
  have hvalid : c.toNat < 0xD800 ∨ 0xDFFF < c.toNat ∧ c.toNat < 0x110000 := c.valid
  simp only [isScalar, Bool.or_eq_true, Bool.and_eq_true, decide_eq_true_eq]
  omega

/-- Six digits are enough for the number of a character. -/
theorem toNat_lt_hexadecimal (c : Char) : c.toNat < 16 ^ 6 := by
  have hscalar := isScalar_toNat c
  simp only [isScalar, Bool.or_eq_true, Bool.and_eq_true, decide_eq_true_eq] at hscalar
  omega

/-- A character that is spelled by its number is read as one. -/
theorem stringFrom_hidden (c : Char) (rest : List Char) :
    stringFrom .text .plain (['\\', 'u', '\x7b'] ++ hexadecimal c.toNat ++ ['\x7d'] ++ rest) =
      stringFrom .text .plain rest := by
  have hscalar := isScalar_toNat c
  have hlength : (hexadecimal c.toNat).length ≠ 0 := Nat.ne_of_gt Nat.length_toDigits_pos
  calc stringFrom .text .plain (['\\', 'u', '\x7b'] ++ hexadecimal c.toNat ++ ['\x7d'] ++ rest)
      = stringFrom .text (.digits 0 0) (hexadecimal c.toNat ++ '\x7d' :: rest) := by
        rw [List.append_assoc, List.append_assoc]
        rfl
    _ = stringFrom .text (.digits c.toNat (hexadecimal c.toNat).length) ('\x7d' :: rest) :=
        read_hexadecimal stringFrom_digit _ (toNat_lt_hexadecimal c) _
    _ = stringFrom .text .plain rest := by
        have hdigit : hexValue? '\x7d' = none := rfl
        simp [stringFrom, stringStep, digitStep, hdigit, hscalar, hlength, Flavour.admitsValue]

/-- A character inside quotes is read as one. -/
theorem stringFrom_escaped (c : Char) (rest : List Char) :
    stringFrom .text .plain (escaped c ++ rest) = stringFrom .text .plain rest := by
  unfold escaped
  split_ifs with hzero htab hreturn hline hquote hslash hhidden
  · rfl
  · rfl
  · rfl
  · rfl
  · rfl
  · rfl
  · exact stringFrom_hidden c rest
  · simp [stringFrom, stringStep, plainStep, hreturn, hquote, hslash, Flavour.admits]

theorem stringFrom_flatMap_escaped (s rest : List Char) :
    stringFrom .text .plain (s.flatMap escaped ++ '"' :: rest) = some rest := by
  induction s with
  | nil => rfl
  | cons c s ih => rw [List.flatMap_cons, List.append_assoc, stringFrom_escaped, ih]

/-- A literal is the text before what is left behind it. -/
theorem literalOf_self (kind : LiteralKind) (x rest : List Char) :
    literalOf kind (x ++ rest) rest = ⟨kind, x⟩ := by
  simp [literalOf]

/-- **A quoted text is one string.** -/
theorem scans_quoted (s : String) (hrest : startsWith isWordStart rest = false) :
    Scans ((Text.quoted s).toList ++ rest)
      [.leaf (.literal ⟨.string, (Text.quoted s).toList⟩)] rest := by
  have htext : (Text.quoted s).toList = '"' :: (s.toList.flatMap escaped ++ ['"']) := by
    simp [Text.quoted]
  have hend : stringFrom .text .plain (s.toList.flatMap escaped ++ ['"'] ++ rest) = some rest := by
    rw [List.append_assoc]
    exact stringFrom_flatMap_escaped s.toList rest
  have hword : dropWord rest = rest := by simp [dropWord, hrest]
  have hliteral : literal ((Text.quoted s).toList ++ rest) =
      some (⟨.string, (Text.quoted s).toList⟩, rest) := by
    rw [htext, List.cons_append, literal_of_not_digit rfl]
    simp only [quoted, quotedOf, hend, Option.map_some, hword]
    rw [← List.cons_append, literalOf_self]
  have hstep : step ((Text.quoted s).toList ++ rest) =
      some ([.leaf (.literal ⟨.string, (Text.quoted s).toList⟩)], rest) := by
    have hleaf : step ((Text.quoted s).toList ++ rest) =
        (leaf ((Text.quoted s).toList ++ rest)).map fun r => ([.leaf r.1], r.2) := by
      rw [htext]
      rfl
    rw [hleaf, leaf, hliteral]
    rfl
  rw [htext] at hstep ⊢
  exact .step rfl hstep .done

/-! ## Names -/

/-- The characters that may stand in a name. -/
theorem isPlainWord_iff : isPlainWord c = true ↔
    (97 ≤ c.toNat ∧ c.toNat ≤ 122) ∨ (65 ≤ c.toNat ∧ c.toNat ≤ 90) ∨
      (48 ≤ c.toNat ∧ c.toNat ≤ 57) ∨ c.toNat = 95 := by
  have hunderscore : c = '_' ↔ c.toNat = 95 := Char.toNat_inj.symm
  simp only [isPlainWord, isLetter, isDigit, Bool.or_eq_true, Bool.and_eq_true, decide_eq_true_eq,
    beq_iff_eq, hunderscore, Char.le_def, UInt32.le_iff_toNat_le]
  show ((97 ≤ c.toNat ∧ c.toNat ≤ 122 ∨ 65 ≤ c.toNat ∧ c.toNat ≤ 90) ∨
    48 ≤ c.toNat ∧ c.toNat ≤ 57) ∨ c.toNat = 95 ↔ _
  omega

theorem ne_of_isPlainWord (hc : isPlainWord c = true) {d : Char} (hd : isPlainWord d = false) :
    c ≠ d := by
  rintro rfl
  rw [hc] at hd
  cases hd

theorem isWordRest_of_isPlainWord (hc : isPlainWord c = true) : isWordRest c = true := by
  simp only [isPlainWord, Bool.or_eq_true] at hc
  rcases hc with (hc | hc) | hc
  · simp [isWordRest, isWordStart, hc]
  · simp [isWordRest, hc]
  · simp [isWordRest, isWordStart, hc]

theorem ne_of_isWordRest (hc : isWordRest c = true) {d : Char} (hd : isWordRest d = false) :
    c ≠ d := by
  rintro rfl
  rw [hc] at hd
  cases hd

theorem isGap_of_isWordRest (hc : isWordRest c = true) : isGap c = false := by
  have hmarks : isWordRest (Char.ofNat 0x200E) = false ∧ isWordRest (Char.ofNat 0x200F) = false := by
    decide +kernel
  refine Bool.eq_false_iff.2 fun hgap => ?_
  simp only [isGap, Bool.or_eq_true, beq_iff_eq] at hgap
  rcases hgap with (hblank | hmark) | hmark
  · exact Bool.eq_false_iff.1 (border_of_isBlank hblank []).word hc
  · exact ne_of_isWordRest hc hmarks.1 (by rw [← hmark, Char.ofNat_toNat])
  · exact ne_of_isWordRest hc hmarks.2 (by rw [← hmark, Char.ofNat_toNat])

theorem step_of_isWordRest (hc : isWordRest c = true) (x : List Char) :
    step (c :: x) = (leaf (c :: x)).map fun r => ([.leaf r.1], r.2) := by
  have hdoc : docComment (c :: x) = none :=
    docComment_eq_none fun d r h => absurd (List.cons.inj h).1 (ne_of_isWordRest hc rfl)
  have hmark : missingMark.isPrefixOf (c :: x) = false := by
    simp [missingMark, List.isPrefixOf, (ne_of_isWordRest hc (d := '(') rfl).symm]
  have hbracket : bracket (c :: x) = none := by
    unfold bracket
    split <;> first | rfl | exact absurd (List.cons.inj ‹_›).1 (ne_of_isWordRest hc rfl)
  simp [step, hdoc, hmark, hbracket]

theorem gap_of_isWordRest (hc : isWordRest c = true) (x : List Char) :
    gap (c :: x) = some (c :: x) := by
  have hslash : c ≠ '/' := ne_of_isWordRest hc rfl
  simp [gap, gapFrom, gapStep, isMark, hslash, isGap_of_isWordRest hc]

theorem mem_of_looksQuoted (h : looksQuoted x = true) : '"' ∈ x ∨ '#' ∈ x ∨ '\'' ∈ x := by
  unfold looksQuoted at h
  split at h <;> simp_all

/-- A word that does not look quoted is the leaf that its name is. -/
theorem scans_word {w : List Char} {l : Leaf} (hstart : startsWith isWordStart w = true)
    (hquoted : looksQuoted w = false) (hname : name w = some (l, [])) (hb : Border rest) :
    Scans (w ++ rest) [.leaf l] rest := by
  cases w with
  | nil => cases hstart
  | cons c w =>
    have hstart' : startsWith isWordStart (c :: w ++ rest) = true := hstart
    have hquoted' : looksQuoted (c :: w ++ rest) = false := by rw [looksQuoted_append hb, hquoted]
    have hc : isWordRest c = true := by
      simp [isWordRest, show isWordStart c = true from hstart]
    have hleaf : leaf (c :: w ++ rest) = some (l, rest) := by
      rw [leaf, literal_of_word hstart' hquoted', punctLeaf_of_word hstart', hquoted',
        name_append hb, hname]
      rfl
    have hstep : step (c :: (w ++ rest)) = some ([.leaf l], rest) := by
      rw [step_of_isWordRest hc, ← List.cons_append, hleaf]
      rfl
    exact .step (gap_of_isWordRest hc _) hstep .done

/-- **A name of the target language is one name**, where no word goes on. -/
theorem scans_name {cs : List Char} (hcs : Names.isIdentifier cs = true) (hb : Border rest) :
    Scans (cs ++ rest) [.leaf (.ident (String.ofList cs))] rest := by
  cases cs with
  | nil => cases hcs
  | cons c w =>
    simp only [Names.isIdentifier, Bool.and_eq_true, Bool.not_eq_true', Option.isNone_iff_eq_none]
      at hcs
    obtain ⟨⟨hdigit, hplain⟩, hkeyword⟩ := hcs
    have hall : ∀ d ∈ c :: w, isPlainWord d = true := List.all_eq_true.1 hplain
    have hc : isPlainWord c = true := hall c List.mem_cons_self
    have hstart : startsWith isWordStart (c :: w) = true := by
      simp only [isPlainWord, hdigit, Bool.or_false, Bool.or_eq_true] at hc
      simpa [startsWith, isWordStart] using Or.inl hc
    have hword : ∀ d ∈ c :: w, isWordRest d = true := fun d hd =>
      isWordRest_of_isPlainWord (hall d hd)
    -- No character that quotes or marks a raw name stands in a name.
    have hquoted : looksQuoted (c :: w) = false := by
      refine Bool.eq_false_iff.2 fun h => ?_
      rcases mem_of_looksQuoted h with h | h | h <;> exact Bool.noConfusion (hall _ h)
    have hraw : ∀ r, c :: w ≠ 'r' :: '#' :: r := fun r h =>
      Bool.noConfusion (hall '#' (by simp [h]))
    have hname : name (c :: w) = some (.ident (String.ofList (c :: w)), []) := by
      rw [name_of_not_raw hraw, word, if_pos hstart, List.takeWhile_eq_self_iff.2 hword,
        List.dropWhile_eq_nil_iff.2 hword]
      simp [hkeyword]
    exact scans_word hstart hquoted hname hb

/-! ## Parentheses -/

theorem Closes.lexemes (h : Closes t L) : Scan.lexemes t = some L := by
  have heq := h.append [] ⟨rfl, rfl, rfl⟩ fun _ => nofun
  rw [List.append_nil, show Scan.lexemes [] = some [] from rfl] at heq
  simpa using heq

/-- A text that makes tokens does not make the mark of a missing expression
with a parenthesis before it. -/
theorem not_missingMark (h : lexemes t = some L) (hL : Nests L ts) (hts : ts ≠ []) (hb : Border b) :
    missingMark.isPrefixOf ('(' :: (t ++ b)) = false := by
  refine Bool.eq_false_iff.2 fun hmark => ?_
  rcases missingMark_append (x := '(' :: t) hb hmark with hmark | hnil | hlast
  · -- The text would begin with the mark's second parenthesis.
    obtain ⟨r, hr⟩ := List.isPrefixOf_iff_prefix.1 hmark
    obtain ⟨-, rfl⟩ := List.cons.inj hr
    have hclosing : Scans ("/*ERROR*/)".toList ++ r) [.closing .paren] r := .step rfl rfl .done
    obtain ⟨M, -, rfl⟩ := Option.map_eq_some_iff.1 (Eq.trans (Eq.symm hclosing) h)
    exact hL.head?_ne .paren rfl
  · cases hnil
  · obtain ⟨-, rfl⟩ := List.cons.inj hlast
    obtain rfl : [] = L := Option.some.inj h
    cases hL
    exact hts rfl

/-- The parenthesis before a text that makes tokens is a bracket of its own. -/
theorem scans_open (h : lexemes t = some L) (hL : Nests L ts) (hts : ts ≠ []) (hb : Border b) :
    Scans ('(' :: (t ++ b)) [.opening .paren] (t ++ b) := by
  have hdoc : docComment ('(' :: (t ++ b)) = none := rfl
  have hbracket : bracket ('(' :: (t ++ b)) = some (.opening .paren, t ++ b) := rfl
  have hstep : step ('(' :: (t ++ b)) = some ([.opening .paren], t ++ b) := by
    simp [step, hdoc, not_missingMark h hL hts hb, hbracket]
  exact .step rfl hstep .done

/-- **A text in parentheses is its own lexemes between two brackets**, if it
ends outside comments. -/
theorem scans_paren (h : Closes t L) (hL : Nests L ts) (hts : ts ≠ []) (b : List Char) :
    Scans ('(' :: (t ++ ')' :: b)) (.opening .paren :: (L ++ [.closing .paren])) b := by
  have hb : Border (')' :: b) := ⟨rfl, rfl, rfl⟩
  have hopen := scans_open h.lexemes hL hts hb
  have htext : Scans (t ++ ')' :: b) L (')' :: b) :=
    h.append _ hb fun hlast => absurd hlast (hL.getLast?_ne .paren)
  have hclose : Scans (')' :: b) [.closing .paren] b := .step rfl rfl .done
  exact hopen.trans (htext.trans hclose)

/-- A text that ends inside a comment takes the parenthesis behind it, and the
rest of the line. -/
theorem scans_paren_of_runsOn (h : lexemes t = some L) (hline : RunsOn t L) (hL : Nests L ts)
    (hts : ts ≠ []) (hb : '\r' ∉ b.takeWhile (· != '\n')) :
    ∃ M, brackets M = brackets L ∧
      Scans ('(' :: (t ++ ')' :: b)) (.opening .paren :: M) (afterLine b) := by
  have hborder : Border (')' :: b) := ⟨rfl, rfl, rfl⟩
  have hopen := scans_open h hL hts hborder
  obtain ⟨M, hM, htext⟩ := hline.append (')' :: b) hborder
    (fun hlast => absurd hlast (hL.getLast?_ne .paren)) (by simpa using hb)
  exact ⟨M, hM, hopen.trans htext⟩

/-! ## The mark of the byte order -/

/-- The mark of the byte order is dropped at the start of a text only: nothing
is scanned from it elsewhere. -/
theorem lexemes_orderMark (x : List Char) : lexemes ('\uFEFF' :: x) = none := by
  have hstart : isWordStart '\uFEFF' = false := by decide +kernel
  have hname : name ('\uFEFF' :: x) = none := by
    rw [name_of_not_raw fun r h => absurd (List.cons.inj h).1 (by decide)]
    simp [word, startsWith, hstart]
  have hleaf : leaf ('\uFEFF' :: x) = none := by
    have hliteral : literal ('\uFEFF' :: x) = none := literal_of_not_digit rfl
    have hpunct : punctLeaf ('\uFEFF' :: x) = none := rfl
    simp [leaf, hliteral, hpunct, looksQuoted, hname]
  have hstep : step ('\uFEFF' :: x) = none := by
    have hdoc : docComment ('\uFEFF' :: x) = none := rfl
    have hbracket : bracket ('\uFEFF' :: x) = none := rfl
    simp [step, hdoc, missingMark, List.isPrefixOf, hbracket, hleaf]
  exact lexemes_of_step_none rfl hstep

/-- Only the mark of the byte order is dropped. -/
theorem exists_orderMark_of_ne (h : dropOrderMark t ≠ t) : ∃ x, t = '\uFEFF' :: x := by
  cases t with
  | nil => exact absurd rfl h
  | cons c t =>
    by_cases hc : (c.toNat == 0xFEFF) = true
    · obtain rfl : c = '\uFEFF' := Char.toNat_inj.1 (beq_iff_eq.1 hc)
      exact ⟨t, rfl⟩
    · exact absurd (if_neg hc) h

theorem dropOrderMark_of_lexemes (h : lexemes t = some L) : dropOrderMark t = t := by
  by_contra hne
  obtain ⟨x, rfl⟩ := exists_orderMark_of_ne hne
  rw [lexemes_orderMark] at h
  cases h

end Scan

open Scan Lexeme

variable {t : List Char} {L : List Lexeme} {ts : List Token}

theorem tokenize_of_lexemes (h : lexemes t = some L) (hL : Nests L ts) : tokenize t = some ts := by
  rw [tokenize, dropOrderMark_of_lexemes h, h]
  exact nest_eq_some_iff.2 hL

/-- What makes tokens makes them behind other text as well, or begins with the
mark of the byte order. -/
theorem lexemes_of_tokenize (h : tokenize t = some ts) :
    (∃ x, t = '\uFEFF' :: x) ∨ ∃ L, lexemes t = some L ∧ Nests L ts := by
  obtain ⟨L, hlex, hnest⟩ := Option.bind_eq_some_iff.1 h
  by_cases hmark : dropOrderMark t = t
  · rw [hmark] at hlex
    exact .inr ⟨L, hlex, nest_eq_some_iff.1 hnest⟩
  · exact .inl (exists_orderMark_of_ne hmark)

end Grammar

end ProcessCompiler
