import ProcessCompiler.Grammar.Scan
import Mathlib.Data.List.Basic
/-!
# Borders between texts

What the scanners do where one text ends and another begins. A text that
begins at a border, with neither a character of a word nor punctuation other
than a semicolon nor a quote, cannot go on with what stands before it: each
scanner stops where it stopped without it, and leaves it behind the rest it
left before.
-/

namespace ProcessCompiler

/-- Nothing but blanks. -/
def Text.Blank (s : List Char) : Prop := ∀ c ∈ s, isBlank c = true

namespace Grammar

namespace Scan

open Text

/-- The punctuation that goes on with punctuation before it. -/
def isJoining (c : Char) : Bool := isPunct c && c != ';'

/-- The text cannot go on with a word, a number, punctuation or a literal
before it. -/
structure Border (b : List Char) : Prop where
  word : startsWith isWordRest b = false
  punct : startsWith isJoining b = false
  quote : startsWith (· == '"') b = false

/-- What is left of a text, with more text behind it. -/
def behind {α : Type} (b : List Char) : α × List Char → α × List Char
  | (a, rest) => (a, rest ++ b)

variable {b x rest : List Char} {p : Char → Bool} {c : Char}

theorem startsWith_append (h : startsWith p b = false) (x : List Char) :
    startsWith p (x ++ b) = startsWith p x := by
  cases x with
  | nil => exact h
  | cons c x => rfl

theorem dropWhile_append (h : startsWith p b = false) (x : List Char) :
    (x ++ b).dropWhile p = x.dropWhile p ++ b := by
  induction x with
  | nil =>
    cases b with
    | nil => rfl
    | cons c b => exact List.dropWhile_cons_of_neg (by simpa [startsWith] using h)
  | cons c x ih =>
    by_cases hc : p c = true
    · simp only [List.cons_append, List.dropWhile_cons_of_pos hc, ih]
    · simp only [List.cons_append, List.dropWhile_cons_of_neg hc]

theorem takeWhile_append (h : startsWith p b = false) (x : List Char) :
    (x ++ b).takeWhile p = x.takeWhile p := by
  induction x with
  | nil =>
    cases b with
    | nil => rfl
    | cons c b => exact List.takeWhile_cons_of_neg (by simpa [startsWith] using h)
  | cons c x ih =>
    by_cases hc : p c = true
    · simp only [List.cons_append, List.takeWhile_cons_of_pos hc, ih]
    · simp only [List.cons_append, List.takeWhile_cons_of_neg hc]

namespace Border

/-- No character of a smaller class than words begins it. -/
theorem not_word (hb : Border b) (h : ∀ c, p c = true → isWordRest c = true) :
    startsWith p b = false := by
  have hword := hb.word
  cases b with
  | nil => rfl
  | cons c b => exact Bool.eq_false_iff.2 fun hc => Bool.eq_false_iff.1 hword (h c hc)

/-- No character of a smaller class than such punctuation begins it. -/
theorem not_punct (hb : Border b) (h : ∀ c, p c = true → isJoining c = true) :
    startsWith p b = false := by
  have hpunct := hb.punct
  cases b with
  | nil => rfl
  | cons c b => exact Bool.eq_false_iff.2 fun hc => Bool.eq_false_iff.1 hpunct (h c hc)

theorem start (hb : Border b) : startsWith isWordStart b = false :=
  hb.not_word fun c h => by simp [isWordRest, h]

theorem digit (hb : Border b) : startsWith isDigit b = false :=
  hb.not_word fun c h => by simp [isWordRest, h]

theorem digitOrGap (hb : Border b) : startsWith isDigitOrGap b = false :=
  hb.not_word fun c h => by
    rcases Bool.or_eq_true_iff.1 h with h | h
    · simp [isWordRest, h]
    · simp [isWordRest, isWordStart, h]

/-- A character that goes on with a word does not begin it. -/
theorem ne_word (hb : Border (c :: b)) {d : Char} (hd : isWordRest d = true) : c ≠ d := by
  rintro rfl
  exact Bool.eq_false_iff.1 hb.word hd

/-- Nor does punctuation that goes on. -/
theorem ne_punct (hb : Border (c :: b)) {d : Char} (hd : isJoining d = true) : c ≠ d := by
  rintro rfl
  exact Bool.eq_false_iff.1 hb.punct hd

theorem ne_quote (hb : Border (c :: b)) : c ≠ '"' := by
  rintro rfl
  exact Bool.eq_false_iff.1 hb.quote rfl

end Border

/-- The code points of blanks. -/
def blankCodes : List ℕ :=
  [9, 10, 11, 12, 13, 0x20, 0x85, 0xA0, 0x1680, 0x2000, 0x2001, 0x2002, 0x2003, 0x2004, 0x2005,
   0x2006, 0x2007, 0x2008, 0x2009, 0x200A, 0x2028, 0x2029, 0x202F, 0x205F, 0x3000]

theorem mem_blankCodes (h : isBlank c = true) : c.toNat ∈ blankCodes := by
  simp only [isBlank, Bool.or_eq_true, Bool.and_eq_true, decide_eq_true_eq, beq_iff_eq] at h
  simp only [blankCodes, List.mem_cons, List.not_mem_nil, or_false]
  omega

/-- No blank goes on with a word, punctuation or a literal. -/
theorem border_of_isBlank (h : isBlank c = true) (x : List Char) : Border (c :: x) := by
  have hall : ∀ n ∈ blankCodes, isWordRest (Char.ofNat n) = false ∧
      isJoining (Char.ofNat n) = false ∧ (Char.ofNat n == '"') = false := by decide +kernel
  obtain ⟨hword, hpunct, hquote⟩ := hall _ (mem_blankCodes h)
  rw [Char.ofNat_toNat] at hword hpunct hquote
  exact ⟨hword, hpunct, hquote⟩

/-! ## Words and numbers -/

theorem dropWord_append (hb : Border b) (x : List Char) :
    dropWord (x ++ b) = dropWord x ++ b := by
  unfold dropWord
  rw [startsWith_append hb.start, dropWhile_append hb.word]
  split <;> rfl

theorem dropSuffix_append (hb : Border b) (x : List Char) :
    dropSuffix (x ++ b) = (dropSuffix x).map (· ++ b) := by
  simp only [dropSuffix, dropWord_append hb, startsWith_append hb.word]
  split <;> rfl

theorem exponent_append (hb : Border b) (plain : Option (List Char)) (x : List Char) :
    exponent (plain.map (· ++ b)) (x ++ b) = (exponent plain x).map (· ++ b) := by
  have hgap : startsWith (· == '_') b = false :=
    hb.not_word fun c h => by simp [isWordRest, isWordStart, h]
  have hsign : startsWith (fun c => c == '+' || c == '-') b = false :=
    hb.not_punct fun c h => by
      rcases Bool.or_eq_true_iff.1 h with h | h <;> simp_all [isJoining, isPunct]
  simp only [exponent, dropWhile_append hgap, startsWith_append hsign]
  generalize x.dropWhile (· == '_') = a
  have htail : startsWith (fun c => c == '+' || c == '-') a = true → (a ++ b).tail = a.tail ++ b := by
    intro h
    cases a with
    | nil => cases h
    | cons c a => rfl
  by_cases h : startsWith (fun c => c == '+' || c == '-') a = true
  · simp only [if_pos h, htail h, dropWhile_append hgap, startsWith_append hb.digit,
      dropWhile_append hb.digitOrGap]
    split <;> rfl
  · simp only [if_neg h, startsWith_append hb.digit, dropWhile_append hb.digitOrGap]
    split <;> rfl

theorem decimalDigits_append (hb : Border b) (x : List Char) :
    decimalDigits (x ++ b) = (decimalDigits x).map (· ++ b) := by
  have hpoint : startsWith (fun c => c == '.' || isWordStart c) b = false := by
    cases b with
    | nil => rfl
    | cons c b => simpa [startsWith, hb.ne_punct (show isJoining '.' = true from rfl)] using hb.start
  have hexp : startsWith isExponent b = false :=
    hb.not_word fun c h => by rcases Bool.or_eq_true_iff.1 h with h | h <;> simp_all <;> rfl
  simp only [decimalDigits, startsWith_append hb.digit, dropWhile_append hb.digitOrGap]
  by_cases hx : startsWith isDigit x = true
  · rw [if_pos hx, if_pos hx]
    generalize x.dropWhile isDigitOrGap = r
    rcases r with _ | ⟨c, r⟩
    · cases b with
      | nil => rfl
      | cons c b =>
        have hc : c ≠ '.' := hb.ne_punct rfl
        have he : isExponent c = false := hexp
        simp only [List.nil_append]
        split <;> simp_all
    · by_cases hc : c = '.'
      · subst hc
        simp only [List.cons_append, startsWith_append hpoint, dropWhile_append hb.digitOrGap,
          startsWith_append hexp]
        by_cases hr : startsWith (fun c => c == '.' || isWordStart c) r = true
        · simp only [if_pos hr, Option.map_none]
        · simp only [if_neg hr]
          generalize r.dropWhile isDigitOrGap = f
          by_cases hf : startsWith isExponent f = true
          · obtain ⟨e, f, rfl⟩ : ∃ e g, f = e :: g :=
              List.exists_cons_of_ne_nil (by rintro rfl; cases hf)
            simp only [if_pos hf, List.cons_append, List.tail_cons]
            exact exponent_append hb (some (e :: f)) f
          · simp only [if_neg hf, Option.map_some]
      · simp only [List.cons_append]
        split
        · exact exponent_append hb none r
        · rfl
  · rw [if_neg hx, if_neg hx]
    rfl

theorem decimal_append (hb : Border b) (x : List Char) :
    decimal (x ++ b) = (decimal x).map (· ++ b) := by
  unfold decimal
  rw [decimalDigits_append hb]
  cases decimalDigits x with
  | none => rfl
  | some r => exact dropSuffix_append hb r

theorem isWordRest_of_hexValue {d : ℕ} (h : hexValue? c = some d) : isWordRest c = true := by
  have hc : isDigit c = true ∨ isLetter c = true := by
    unfold hexValue? at h
    split_ifs at h with h₁ h₂ h₃
    · exact .inl h₁
    · simp only [Bool.and_eq_true, decide_eq_true_eq] at h₂
      exact .inr (by simp [isLetter, h₂.1, Char.le_trans h₂.2 (show 'f' ≤ 'z' by decide)])
    · simp only [Bool.and_eq_true, decide_eq_true_eq] at h₃
      exact .inr (by simp [isLetter, h₃.1, Char.le_trans h₃.2 (show 'F' ≤ 'Z' by decide)])
  rcases hc with hc | hc <;> simp [isWordRest, isWordStart, hc]

theorem integerDigits_append (hb : Border b) (base : ℕ) (empty : Bool) (x : List Char) :
    integerDigits base empty (x ++ b) = (integerDigits base empty x).map (· ++ b) := by
  induction x generalizing empty with
  | nil =>
    cases b with
    | nil => simp [integerDigits]
    | cons c b =>
      have hhex : hexValue? c = none := by
        cases hc : hexValue? c with
        | none => rfl
        | some d => exact absurd rfl (hb.ne_word (isWordRest_of_hexValue hc))
      have hgap : c ≠ '_' := hb.ne_word rfl
      cases empty <;> simp [integerDigits, hhex, hgap]
  | cons c x ih =>
    simp only [List.cons_append, integerDigits]
    cases hexValue? c <;> dsimp only <;> split_ifs <;> simp [ih]

theorem integerBase_append (hb : Border b) (x : List Char) :
    integerBase (x ++ b) = behind b (integerBase x) := by
  have hnil : integerBase b = (10, b) := by
    cases b with
    | nil => rfl
    | cons c b =>
      have hc : c ≠ '0' := hb.ne_word rfl
      unfold integerBase
      split <;> simp_all
  rcases x with _ | ⟨c, _ | ⟨d, x⟩⟩
  · simpa [behind, integerBase] using hnil
  · cases b with
    | nil => simp [behind]
    | cons e b =>
      have hx : e ≠ 'x' := hb.ne_word rfl
      have ho : e ≠ 'o' := hb.ne_word rfl
      have hb' : e ≠ 'b' := hb.ne_word rfl
      simp [integerBase, behind, hx, ho, hb']
  · simp only [List.cons_append]
    unfold integerBase
    split <;> simp_all [behind]

theorem integer_append (hb : Border b) (x : List Char) :
    integer (x ++ b) = (integer x).map (· ++ b) := by
  simp only [integer, integerBase_append hb, behind, integerDigits_append hb]
  cases integerDigits (integerBase x).1 true (integerBase x).2 with
  | none => rfl
  | some r => exact dropSuffix_append hb r

/-! ## Names and punctuation -/

theorem word_append (hb : Border b) (x : List Char) :
    word (x ++ b) = (word x).map (behind b) := by
  simp only [word, startsWith_append hb.start, takeWhile_append hb.word, dropWhile_append hb.word]
  split <;> rfl

/-- Punctuation is one character, unless it begins a comment. -/
theorem punct_cons (c : Char) (x : List Char) :
    punct (c :: x) = if c = '/' ∧ startsWith (fun d => d == '/' || d == '*') x = true then none
      else if isPunct c then some (c, x) else none := by
  unfold punct startsWith
  grind -ring -linarith

theorem punct_append (hb : Border b) (hx : x ≠ []) :
    punct (x ++ b) = (punct x).map (behind b) := by
  have hslash : startsWith (fun d => d == '/' || d == '*') b = false :=
    hb.not_punct fun c h => by
      rcases Bool.or_eq_true_iff.1 h with h | h <;> simp_all [isJoining, isPunct]
  obtain ⟨c, x, rfl⟩ := List.exists_cons_of_ne_nil hx
  simp only [List.cons_append, punct_cons, startsWith_append hslash]
  split_ifs <;> rfl

/-- Punctuation goes on with nothing behind a border. -/
theorem joins_append (hb : Border b) (x : List Char) : joins (x ++ b) = joins x := by
  rcases x with _ | ⟨c, x⟩
  · rcases b with _ | ⟨c, b⟩
    · rfl
    · have hpunct : isJoining c = false := hb.punct
      simp only [List.nil_append, joins, punct_cons]
      split_ifs with h₁ h₂
      · rfl
      · have hc : (c != ';') = false := by simpa [isJoining, h₂] using hpunct
        exact hc
      · rfl
  · rw [joins, punct_append hb (List.cons_ne_nil c x), joins]
    cases punct (c :: x) <;> rfl

/-- A name that is not raw is a word. -/
theorem name_of_not_raw (h : ∀ r, x ≠ 'r' :: '#' :: r) :
    name x = (word x).map fun (w, after) =>
      (match Keyword.ofChars? w with
        | some k => .keyword k
        | none => .ident (String.ofList w), after) := by
  unfold name
  split
  · exact absurd rfl (h _)
  · cases word x <;> rfl

theorem name_append (hb : Border b) (x : List Char) :
    name (x ++ b) = (name x).map (behind b) := by
  by_cases hraw : ∃ r, x = 'r' :: '#' :: r
  · obtain ⟨x, rfl⟩ := hraw
    simp only [List.cons_append, name, word_append hb]
    rcases word x with _ | ⟨w, after⟩
    · rfl
    · simp only [Option.map_some, behind]
      split <;> rfl
  · have hx : ∀ r, x ≠ 'r' :: '#' :: r := fun r h => hraw ⟨r, h⟩
    have hxb : ∀ r, x ++ b ≠ 'r' :: '#' :: r := by
      intro r h
      rcases x with _ | ⟨c, _ | ⟨d, x⟩⟩
      · subst h
        exact hb.ne_word rfl rfl
      · obtain ⟨-, rfl⟩ := List.cons.inj h
        exact hb.ne_punct rfl rfl
      · simp only [List.cons_append, List.cons.injEq] at h
        obtain ⟨rfl, rfl, -⟩ := h
        exact hx x rfl
    rw [name_of_not_raw hx, name_of_not_raw hxb, word_append hb]
    cases word x <;> rfl

theorem looksQuoted_append (hb : Border b) (x : List Char) :
    looksQuoted (x ++ b) = looksQuoted x := by
  have hc : ∀ c b', b = c :: b' → isWordRest c = false ∧ isJoining c = false ∧ c ≠ '"' := by
    rintro c b' rfl
    exact ⟨hb.word, hb.punct, hb.ne_quote⟩
  have h1 : isJoining '#' = true := rfl
  have h2 : isJoining '\'' = true := rfl
  have h3 : isWordRest 'r' = true := rfl
  have h4 : isWordRest 'b' = true := rfl
  have h5 : isWordRest 'c' = true := rfl
  rcases x with _ | ⟨c, _ | ⟨d, _ | ⟨e, x⟩⟩⟩ <;>
    rcases b with _ | ⟨b, _ | ⟨b', _ | ⟨b'', bs⟩⟩⟩ <;> unfold looksQuoted <;>
      grind -ring -linarith

end Scan

end Grammar

end ProcessCompiler
