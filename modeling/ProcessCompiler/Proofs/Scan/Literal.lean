import ProcessCompiler.Proofs.Scan.Border
/-!
# Literals before a border

A literal that ends before a border stays the one it is. The converse holds
of a name with a quote behind it, which may look like the start of a literal:
where it is none, a later quote does not make one of it.
-/

namespace ProcessCompiler

namespace Grammar

namespace Scan

open Text

variable {b x y rest : List Char} {c : Char}

/-! ## Strings and characters -/

theorem stringFrom_append {f : Flavour} {s : StringState} (h : stringFrom f s x = some y)
    (b : List Char) : stringFrom f s (x ++ b) = some (y ++ b) := by
  induction x generalizing s with
  | nil => cases h
  | cons c x ih =>
    simp only [List.cons_append, stringFrom] at h ⊢
    split at h
    · rw [Option.some.inj h]
    · exact ih h
    · cases h

theorem le_length_of_rawFrom {f : Flavour} {n : ℕ} (h : rawFrom f n x = some y) :
    n ≤ x.length := by
  fun_induction rawFrom f n x with
  | case2 rest hn =>
    simp only [Bool.and_eq_true, beq_iff_eq, List.length_take] at hn
    simp only [List.length_cons]
    omega
  | case3 rest hn ih => exact Nat.le_succ_of_le (ih h)
  | case4 rest ih => exact Nat.le_succ_of_le (Nat.le_succ_of_le (ih h))
  | case6 c rest hq hr hr' hc ih => exact Nat.le_succ_of_le (ih h)
  | _ => cases h

theorem rawFrom_append {f : Flavour} {n : ℕ} (h : rawFrom f n x = some y) (b : List Char) :
    rawFrom f n (x ++ b) = some (y ++ b) := by
  fun_induction rawFrom f n x with
  | case2 rest hn =>
    have hle : n ≤ rest.length := by
      simp only [Bool.and_eq_true, beq_iff_eq, List.length_take] at hn
      omega
    rw [← Option.some.inj h]
    simp only [List.cons_append, rawFrom, List.take_append_of_le_length hle, hn, if_true,
      List.drop_append_of_le_length hle]
  | case3 rest hn ih =>
    have hle := le_length_of_rawFrom h
    simp only [List.cons_append, rawFrom, List.take_append_of_le_length hle, hn]
    exact ih h
  | case4 rest ih =>
    simp only [List.cons_append, rawFrom]
    exact ih h
  | case6 c rest hq hr hr' hc ih =>
    rw [List.cons_append, rawFrom, if_pos hc]
    · exact ih h
    all_goals grind -ring -linarith
  | _ => cases h

/-- A raw string has as many hash signs before it as behind it. -/
theorem rawString_append (hb : Border b) {f : Flavour} (h : rawString f x = some y) :
    rawString f (x ++ b) = some (y ++ b) := by
  have hhash : startsWith (· == '#') b = false :=
    hb.not_punct fun c h => by simp_all [isJoining, isPunct]
  simp only [rawString, takeWhile_append hhash, dropWhile_append hhash] at h ⊢
  split at h
  · rename_i rest heq
    rw [heq]
    simp only [List.cons_append]
    split_ifs at h ⊢ with hn
    exact rawFrom_append h b
  · cases h

theorem unicodeFrom_append {v n : ℕ} (h : unicodeFrom v n x = some y) (b : List Char) :
    unicodeFrom v n (x ++ b) = some (y ++ b) := by
  induction x generalizing v n with
  | nil => cases h
  | cons c x ih =>
    simp only [List.cons_append, unicodeFrom] at h ⊢
    split at h
    · exact ih h
    · rw [Option.some.inj h]
    · cases h

theorem oneChar_append (h : oneChar x = some y) (b : List Char) :
    oneChar (x ++ b) = some (y ++ b) := by
  unfold oneChar at h
  split at h
  · simp_all [oneChar]
  · exact unicodeFrom_append h b
  · rename_i c rest hx hu
    split_ifs at h with hc
    rw [← Option.some.inj h]
    have h₁ : c ≠ 'x' := by rintro rfl; cases hc
    have h₂ : c ≠ 'u' := by rintro rfl; cases hc
    simp [oneChar, h₁, h₂, hc]
  · cases h
  · rename_i c rest _ _ hesc hend
    have hc : c ≠ '\\' := by
      rintro rfl
      cases rest with
      | nil => exact hend rfl rfl
      | cons d rest => exact hesc d rest rfl rfl
    rw [← Option.some.inj h]
    simp [oneChar, hc]
  · cases h

theorem oneByte_append (h : oneByte x = some y) (b : List Char) :
    oneByte (x ++ b) = some (y ++ b) := by
  unfold oneByte at h
  split at h
  · simp_all [oneByte]
  · rename_i c rest hx
    split_ifs at h with hc
    rw [← Option.some.inj h]
    have h₁ : c ≠ 'x' := by rintro rfl; cases hc
    simp [oneByte, h₁, hc]
  · cases h
  · rename_i c rest _ hesc hend
    have hc : c ≠ '\\' := by
      rintro rfl
      cases rest with
      | nil => exact hend rfl rfl
      | cons d rest => exact hesc d rest rfl rfl
    split_ifs at h with hadmits
    rw [← Option.some.inj h]
    simp [oneByte, hc, hadmits]
  · cases h

theorem closeQuote_append (h : closeQuote x = some y) (b : List Char) :
    closeQuote (x ++ b) = some (y ++ b) := by
  unfold closeQuote at h
  split at h
  · rw [← Option.some.inj h]
    rfl
  · cases h

theorem literalOf_append (kind : LiteralKind) (x rest b : List Char) :
    literalOf kind (x ++ b) (rest ++ b) = literalOf kind x rest := by
  simp only [literalOf, List.length_append, Nat.add_sub_add_right,
    List.take_append_of_le_length (Nat.sub_le x.length rest.length)]

theorem quotedOf_append (hb : Border b) {kind : LiteralKind} {l : Literal}
    {found found' : Option (List Char)} (hfound : ∀ r, found = some r → found' = some (r ++ b))
    (h : quotedOf kind x found = some (l, rest)) :
    quotedOf kind (x ++ b) found' = some (l, rest ++ b) := by
  obtain ⟨r, hr, heq⟩ := Option.map_eq_some_iff.1 h
  obtain ⟨rfl, rfl⟩ := Prod.mk.inj heq
  simp only [quotedOf, hfound r hr, Option.map_some, dropWord_append hb, literalOf_append]

theorem closed_append (one : List Char → Option (List Char))
    (hone : ∀ x y, one x = some y → one (x ++ b) = some (y ++ b))
    (h : (one x).bind closeQuote = some rest) :
    (one (x ++ b)).bind closeQuote = some (rest ++ b) := by
  obtain ⟨y, hy, hrest⟩ := Option.bind_eq_some_iff.1 h
  rw [hone x y hy]
  exact closeQuote_append hrest b

theorem quoted_append (hb : Border b) {l : Literal} (h : quoted x = some (l, rest)) :
    quoted (x ++ b) = some (l, rest ++ b) := by
  unfold quoted at h
  split at h
  · exact quotedOf_append hb (fun r hr => stringFrom_append hr b) h
  · exact quotedOf_append hb (fun r hr => stringFrom_append hr b) h
  · exact quotedOf_append hb (fun r hr => rawString_append hb hr) h
  · exact quotedOf_append hb (fun r hr => stringFrom_append hr b) h
  · exact quotedOf_append hb (fun r hr => rawString_append hb hr) h
  · exact quotedOf_append hb (fun r hr => closed_append oneByte (fun x y h => oneByte_append h b) hr) h
  · exact quotedOf_append hb (fun r hr => closed_append oneChar (fun x y h => oneChar_append h b) hr) h
  · exact quotedOf_append hb (fun r hr => rawString_append hb hr) h
  · cases h

/-- A quoted literal does not begin with a digit. -/
theorem quoted_of_digit (h : startsWith isDigit x = true) : quoted x = none := by
  cases x with
  | nil => rfl
  | cons c x =>
    have h₁ : c ≠ '"' := by rintro rfl; cases h
    have h₂ : c ≠ 'b' := by rintro rfl; cases h
    have h₃ : c ≠ 'c' := by rintro rfl; cases h
    have h₄ : c ≠ '\'' := by rintro rfl; cases h
    have h₅ : c ≠ 'r' := by rintro rfl; cases h
    unfold quoted
    split <;> simp_all

/-- What begins with a digit is a literal only as a number. -/
theorem literal_of_digit (h : startsWith isDigit x = true) :
    literal x = (decimal x <|> integer x).map fun rest => (literalOf .number x rest, rest) := by
  unfold literal
  rw [quoted_of_digit h]
  cases decimal x <;> rfl

theorem integer_of_not_digit (h : startsWith isDigit x = false) : integer x = none := by
  have hbase : integerBase x = (10, x) := by
    unfold integerBase
    split <;> first | rfl | cases h
  have hdigits : integerDigits 10 true x = none := by
    cases x with
    | nil => rfl
    | cons c x =>
      have hc : isDigit c = false := h
      unfold integerDigits hexValue?
      simp only [hc]
      grind -ring -linarith
  simp only [integer, hbase, hdigits]
  rfl

/-- What does not is one only as a quoted text. -/
theorem literal_of_not_digit (h : startsWith isDigit x = false) : literal x = quoted x := by
  have hdecimal : decimal x = none := by
    rw [decimal, decimalDigits, if_neg (by simp [h])]
    rfl
  unfold literal
  rw [hdecimal, integer_of_not_digit h]
  cases quoted x <;> rfl

/-- A literal stays the one it is. -/
theorem literal_append (hb : Border b) {l : Literal} (h : literal x = some (l, rest)) :
    literal (x ++ b) = some (l, rest ++ b) := by
  by_cases hx : startsWith isDigit x = true
  · rw [literal_of_digit hx] at h
    rw [literal_of_digit (by rw [startsWith_append hb.digit, hx]), decimal_append hb,
      integer_append hb]
    obtain ⟨r, hr, heq⟩ := Option.map_eq_some_iff.1 h
    obtain ⟨rfl, rfl⟩ := Prod.mk.inj heq
    have hnumber : ((decimal x).map (· ++ b) <|> (integer x).map (· ++ b)) = some (r ++ b) := by
      cases hd : decimal x <;> simp_all
    rw [hnumber, Option.map_some, literalOf_append]
  · rw [Bool.not_eq_true] at hx
    rw [literal_of_not_digit hx] at h
    rw [literal_of_not_digit (by rw [startsWith_append hb.digit, hx])]
    exact quoted_append hb h

/-! ## Texts that are no literal -/

/-- No digit begins a word. -/
theorem isDigit_of_isWordStart (h : isWordStart c = true) : isDigit c = false := by
  by_contra hc
  simp only [isDigit, Bool.not_eq_false, Bool.and_eq_true, decide_eq_true_eq, Char.le_def,
    UInt32.le_iff_toNat_le] at hc
  have h₁ : '0'.val.toNat = 48 := rfl
  have h₂ : '9'.val.toNat = 57 := rfl
  have h₃ : 'a'.val.toNat = 97 := rfl
  have h₄ : 'A'.val.toNat = 65 := rfl
  simp only [isWordStart, isLetter, Bool.or_eq_true, Bool.and_eq_true, decide_eq_true_eq,
    Char.le_def, UInt32.le_iff_toNat_le, beq_iff_eq] at h
  have h₅ : c.toNat = c.val.toNat := rfl
  rcases h with ((h | h) | rfl) | h
  · omega
  · omega
  · revert hc; decide
  · omega

/-- A raw string needs a quote behind its hash signs. -/
theorem rawString_eq_none {f : Flavour} (h : ∀ r, x.dropWhile (· == '#') ≠ '"' :: r) :
    rawString f x = none := by
  unfold rawString
  split
  · rename_i heq
    exact absurd heq (h _)
  · rfl

/-- A word that does not look quoted begins no literal. -/
theorem literal_of_word (h : startsWith isWordStart x = true) (hx : looksQuoted x = false) :
    literal x = none := by
  have hdigit : startsWith isDigit x = false := by
    cases x with
    | nil => rfl
    | cons c x => exact isDigit_of_isWordStart h
  rw [literal_of_not_digit hdigit]
  have hraw : ∀ f r, x = 'r' :: r ∨ x = 'b' :: 'r' :: r ∨ x = 'c' :: 'r' :: r → rawString f r = none := by
    intro f r hr
    refine rawString_eq_none fun u hu => ?_
    rcases r with _ | ⟨d, r⟩
    · cases hu
    · have hd : d ≠ '"' := by rintro rfl; rcases hr with rfl | rfl | rfl <;> cases hx
      by_cases hd' : d = '#'
      · subst hd'
        rcases hr with rfl | rfl | rfl
        · rcases r with _ | ⟨e, r⟩
          · cases hu
          · have he : e ≠ '"' := by rintro rfl; cases hx
            have he' : e ≠ '#' := by rintro rfl; cases hx
            simp [he, he'] at hu
        · cases hx
        · cases hx
      · simp [hd, hd'] at hu
  unfold quoted
  split
  · cases h
  · cases hx
  · rw [hraw _ _ (.inr (.inl rfl))]; rfl
  · cases hx
  · rw [hraw _ _ (.inr (.inr rfl))]; rfl
  · cases hx
  · cases h
  · rw [hraw _ _ (.inl rfl)]; rfl
  · rfl

theorem eq_of_stringStep_close {f : Flavour} {s : StringState} (h : stringStep f s c = .close) :
    c = '"' := by
  cases s <;> simp only [stringStep, plainStep, escapeStep, digitStep] at h <;> grind -ring -linarith

theorem mem_of_stringFrom {f : Flavour} {s : StringState} (h : stringFrom f s x = some y) :
    '"' ∈ x := by
  induction x generalizing s with
  | nil => cases h
  | cons c x ih =>
    simp only [stringFrom] at h
    split at h
    · rename_i hclose
      rw [eq_of_stringStep_close hclose]
      exact List.mem_cons_self
    · exact List.mem_cons_of_mem _ (ih h)
    · cases h

theorem quotedOf_eq_none {kind : LiteralKind} {found : Option (List Char)} :
    quotedOf kind x found = none ↔ found = none := Option.map_eq_none_iff

theorem startsWith_of_name {n : Leaf} (h : name x = some (n, rest)) :
    startsWith isWordStart x = true := by
  by_cases hraw : ∃ r, x = 'r' :: '#' :: r
  · obtain ⟨r, rfl⟩ := hraw
    rfl
  · rw [name_of_not_raw fun r h => hraw ⟨r, h⟩] at h
    obtain ⟨w, hw, -⟩ := Option.map_eq_some_iff.1 h
    by_contra hx
    rw [word, if_neg hx] at hw
    cases hw

end Scan

end Grammar

end ProcessCompiler
