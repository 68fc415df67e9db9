import ProcessCompiler.Proofs.Scan.Spelling
/-!
# What a text means

Two texts mean the same if they have the same lexemes, up to the spelling of
their strings: of a string only its kind, its value and its suffix count
(`senses`). The value is a row of bytes, in which the escapes of the string are
undone and a line end is a line feed. Every step of the scanner takes a piece of
the text (`pieces`), and a piece is broken (`isBroken`) if a line ends in it and
that matters to what the piece means.
-/

namespace ProcessCompiler

namespace Grammar

namespace Scan

open Text

variable {t x y rest : List Char} {c : Char} {f : Flavour} {s : StringState}
variable {v : List UInt8}

/-! ## Values -/

/-- The bytes of a character. -/
def bytes (c : Char) : List UInt8 := String.utf8EncodeChar c

/-- The value of an escape of one letter. -/
def escapeValue : Char → List UInt8
  | 'n' => [10]
  | 'r' => [13]
  | 't' => [9]
  | '0' => [0]
  | '\\' => [92]
  | '\'' => [39]
  | '"' => [34]
  | _ => []

/-- The value of a character that may begin an escape or a line end. -/
def plainValue (c : Char) : List UInt8 := if c == '\r' || c == '\\' then [] else bytes c

/-- What a character adds to the value of a string. -/
def StringState.value : StringState → Char → List UInt8
  | .plain, c => plainValue c
  | .carriage, _ => [10]
  | .escape, c => escapeValue c
  | .low first, c => [UInt8.ofNat (first * 16 + (hexValue? c).getD 0)]
  | .digits value _, c => if c == '\x7d' then bytes (Char.ofNat value) else []
  | .skip, c => if c == ' ' || c == '\t' || c == '\n' then [] else plainValue c
  | .high, _ | .brace, _ | .skipCarriage, _ => []

/-- The value of a string, and what follows its closing quote. -/
def stringValue (f : Flavour) : StringState → List Char → Option (List UInt8 × List Char)
  | _, [] => none
  | s, c :: rest =>
    match stringStep f s c with
    | .close => some ([], rest)
    | .go s' => (stringValue f s' rest).map fun (v, r) => (s.value c ++ v, r)
    | .refuse => none

/-- The value of a raw string with the given number of hash signs, and what
follows it. -/
def rawValue (f : Flavour) (hashes : ℕ) : List Char → Option (List UInt8 × List Char)
  | [] => none
  | '"' :: rest =>
    if (rest.take hashes).length == hashes && (rest.take hashes).all (· == '#')
    then some ([], rest.drop hashes) else (rawValue f hashes rest).map fun (v, r) => (34 :: v, r)
  | '\r' :: '\n' :: rest => (rawValue f hashes rest).map fun (v, r) => (10 :: v, r)
  | '\r' :: _ => none
  | c :: rest =>
    if f.admits c then (rawValue f hashes rest).map fun (v, r) => (bytes c ++ v, r) else none

/-- The value of a raw string, from its hash signs on, and what follows it. -/
def rawStringValue (f : Flavour) (cs : List Char) : Option (List UInt8 × List Char) :=
  let hashes := (cs.takeWhile (· == '#')).length
  match cs.dropWhile (· == '#') with
  | '"' :: rest => if hashes ≤ 255 then rawValue f hashes rest else none
  | _ => none

/-- The value of a literal that is a string, and its suffix. -/
def stringOf (l : Literal) : Option (List UInt8 × List Char) :=
  match l.kind, l.text with
  | .string, '"' :: cs => stringValue .text .plain cs
  | .string, 'r' :: cs => rawStringValue .text cs
  | .byteString, 'b' :: '"' :: cs => stringValue .bytes .plain cs
  | .byteString, 'b' :: 'r' :: cs => rawStringValue .bytes cs
  | .cString, 'c' :: '"' :: cs => stringValue .zeroFree .plain cs
  | .cString, 'c' :: 'r' :: cs => rawStringValue .zeroFree cs
  | _, _ => none

/-- What a lexeme means. -/
inductive Sense where
  /-- A string: its kind, its value and its suffix. -/
  | string (kind : LiteralKind) (value : List UInt8) (suffix : List Char)
  /-- A lexeme that means what is written. -/
  | written (l : Lexeme)
deriving DecidableEq, Repr

/-- The sense of a lexeme. -/
def senseOf : Lexeme → Sense
  | .leaf (.literal l) =>
    match stringOf l with
    | some (value, suffix) => .string l.kind value suffix
    | none => .written (.leaf (.literal l))
  | l => .written l

/-- **What a text means**: the senses of its lexemes. -/
def senses (cs : List Char) : Option (List Sense) := (lexemes cs).map (·.map senseOf)

/-! ## Pieces -/

/-- What stands before the rest of a text. -/
def taken (cs rest : List Char) : List Char := cs.take (cs.length - rest.length)

/-- The pieces that the scanner takes, in at most the given number of steps. -/
def piecesIn : ℕ → List Char → List (List Char)
  | 0, _ => []
  | n + 1, cs =>
    match gap cs with
    | none => []
    | some rest =>
      match step rest with
      | none => []
      | some (_, after) => taken rest after :: piecesIn n after

/-- The pieces that the scanner takes from a text. -/
def pieces (cs : List Char) : List (List Char) := piecesIn (cs.length + 1) cs

/-- A line ends in a string where that is part of its value. -/
def breaksIn (f : Flavour) : StringState → List Char → Bool
  | _, [] => false
  | s, c :: rest =>
    match stringStep f s c with
    | .go s' => (c == '\n' && (s = .plain || s = .carriage)) || breaksIn f s' rest
    | _ => false

/-- A line ends in a piece, and it matters: anywhere but behind a backslash in a
string. -/
def isBroken : List Char → Bool
  | '"' :: rest => breaksIn .text .plain rest
  | 'b' :: '"' :: rest => breaksIn .bytes .plain rest
  | 'c' :: '"' :: rest => breaksIn .zeroFree .plain rest
  | piece => piece.contains '\n'

/-! ## Values and ends -/

/-- A string has a value where it has an end. -/
theorem stringFrom_eq (f : Flavour) (s : StringState) (x : List Char) :
    stringFrom f s x = (stringValue f s x).map (·.2) := by
  induction x generalizing s with
  | nil => rfl
  | cons c x ih =>
    simp only [stringFrom, stringValue]
    cases stringStep f s c with
    | close => rfl
    | refuse => rfl
    | go s' =>
      simp only [ih, Option.map_map]
      rfl

theorem rawFrom_eq (f : Flavour) (n : ℕ) (x : List Char) :
    rawFrom f n x = (rawValue f n x).map (·.2) := by
  fun_induction rawFrom f n x with
  | case1 => rfl
  | case2 rest hn => simp only [rawValue, hn, if_true, Option.map_some]
  | case3 rest hn ih =>
    rw [rawValue, if_neg hn, ih, Option.map_map]
    rfl
  | case4 rest ih =>
    rw [rawValue, ih, Option.map_map]
    rfl
  | case5 rest hr =>
    rw [rawValue]
    · rfl
    · exact hr
  | case6 c rest hq hr hr' hc ih =>
    rw [rawValue, if_pos hc, ih, Option.map_map]
    · rfl
    all_goals assumption
  | case7 c rest hq hr hr' hc =>
    rw [rawValue, if_neg hc]
    · rfl
    all_goals assumption

theorem rawString_eq (f : Flavour) (x : List Char) :
    rawString f x = (rawStringValue f x).map (·.2) := by
  unfold rawString rawStringValue
  cases x.dropWhile (· == '#') with
  | nil => rfl
  | cons c rest =>
    by_cases hc : c = '"'
    · subst hc
      dsimp only
      split_ifs
      · exact rawFrom_eq f _ rest
      · rfl
    · simp [hc]

/-- **What a string takes is all that it depends on.** -/
theorem exists_taken_of_stringValue (h : stringValue f s x = some (v, rest)) :
    ∃ u, x = u ++ rest ∧ ∀ t, stringValue f s (u ++ t) = some (v, t) ∧
      breaksIn f s (u ++ t) = breaksIn f s x := by
  induction x generalizing s v with
  | nil => cases h
  | cons c x ih =>
    simp only [stringValue] at h
    cases hstep : stringStep f s c with
    | refuse => simp only [hstep] at h; cases h
    | close =>
      simp only [hstep] at h
      obtain ⟨rfl, rfl⟩ := Prod.mk.inj (Option.some.inj h)
      refine ⟨[c], rfl, fun t => ?_⟩
      simp only [List.singleton_append, stringValue, breaksIn, hstep, and_self]
    | go s' =>
      simp only [hstep] at h
      obtain ⟨⟨v', r⟩, hv, heq⟩ := Option.map_eq_some_iff.1 h
      obtain ⟨rfl, rfl⟩ := Prod.mk.inj heq
      obtain ⟨u, rfl, hu⟩ := ih hv
      refine ⟨c :: u, rfl, fun t => ?_⟩
      simp only [List.cons_append, stringValue, breaksIn, hstep, (hu t).1, (hu t).2,
        Option.map_some, and_self]

/-- A raw string takes its hash signs with it. -/
theorem exists_taken_of_rawValue {n : ℕ} (h : rawValue f n x = some (v, rest)) :
    ∃ u, x = u ++ rest ∧ ∀ t, rawValue f n (u ++ t) = some (v, t) := by
  fun_induction rawValue f n x generalizing v with
  | case1 => cases h
  | case2 r hn =>
    obtain ⟨rfl, rfl⟩ := Prod.mk.inj (Option.some.inj h)
    refine ⟨'"' :: r.take n, by simp, fun t => ?_⟩
    have hlen : (r.take n).length = n := by
      simp only [Bool.and_eq_true, beq_iff_eq] at hn
      exact hn.1
    have htake : (r.take n ++ t).take n = r.take n := by
      rw [List.take_append_of_le_length hlen.ge, List.take_take, min_self]
    have hdrop : (r.take n ++ t).drop n = t := by
      rw [List.drop_append_of_le_length hlen.ge, List.drop_take, Nat.sub_self, List.take_zero,
        List.nil_append]
    simp only [List.cons_append, rawValue, htake, hn, if_true, hdrop]
  | case3 r hn ih =>
    obtain ⟨⟨v', r'⟩, hv, heq⟩ := Option.map_eq_some_iff.1 h
    obtain ⟨rfl, rfl⟩ := Prod.mk.inj heq
    obtain ⟨u, rfl, hu⟩ := ih hv
    have hle : n ≤ u.length := by
      have hfrom := rawFrom_eq f n (u ++ [])
      rw [hu, List.append_nil, Option.map_some] at hfrom
      exact le_length_of_rawFrom hfrom
    refine ⟨'"' :: u, rfl, fun t => ?_⟩
    rw [List.take_append_of_le_length hle] at hn
    rw [List.cons_append, rawValue, List.take_append_of_le_length hle, if_neg hn, hu t,
      Option.map_some]
  | case4 r ih =>
    obtain ⟨⟨v', r'⟩, hv, heq⟩ := Option.map_eq_some_iff.1 h
    obtain ⟨rfl, rfl⟩ := Prod.mk.inj heq
    obtain ⟨u, rfl, hu⟩ := ih hv
    refine ⟨'\r' :: '\n' :: u, rfl, fun t => ?_⟩
    simp only [List.cons_append, rawValue, hu t, Option.map_some]
  | case5 r hr => cases h
  | case6 c r hq hr hr' hc ih =>
    obtain ⟨⟨v', r'⟩, hv, heq⟩ := Option.map_eq_some_iff.1 h
    obtain ⟨rfl, rfl⟩ := Prod.mk.inj heq
    obtain ⟨u, rfl, hu⟩ := ih hv
    refine ⟨c :: u, rfl, fun t => ?_⟩
    rw [List.cons_append, rawValue, if_pos hc, hu t]
    · rfl
    all_goals grind -ring -linarith
  | case7 c r hq hr hr' hc => cases h

/-- A raw string is a number of hash signs, a quote, and what stands up to the
same number of them. -/
theorem rawStringValue_eq_some_iff : rawStringValue f x = some (v, rest) ↔
    ∃ n r, n ≤ 255 ∧ x = List.replicate n '#' ++ '"' :: r ∧ rawValue f n r = some (v, rest) := by
  constructor
  · intro h
    simp only [rawStringValue] at h
    split at h
    · rename_i r heq
      split_ifs at h with hn
      refine ⟨_, r, hn, ?_, h⟩
      have hall : ∀ c ∈ x.takeWhile (· == '#'), c = '#' := fun c hc => by
        simpa using List.mem_takeWhile_imp hc
      rw [← List.eq_replicate_of_mem hall, ← heq, List.takeWhile_append_dropWhile]
    · cases h
  · rintro ⟨n, r, hn, rfl, h⟩
    have htake : (List.replicate n '#' ++ '"' :: r).takeWhile (· == '#') = List.replicate n '#' := by
      rw [List.takeWhile_append_of_pos fun c hc => by simp [List.eq_of_mem_replicate hc]]
      simp
    have hdrop : (List.replicate n '#' ++ '"' :: r).dropWhile (· == '#') = '"' :: r := by
      rw [List.dropWhile_append_of_pos fun c hc => by simp [List.eq_of_mem_replicate hc]]
      simp
    simp only [rawStringValue, htake, hdrop, List.length_replicate, if_pos hn, h]

theorem exists_taken_of_rawStringValue (h : rawStringValue f x = some (v, rest)) :
    ∃ u, x = u ++ rest ∧ ∀ t, rawStringValue f (u ++ t) = some (v, t) := by
  obtain ⟨n, r, hn, rfl, hr⟩ := rawStringValue_eq_some_iff.1 h
  obtain ⟨u, rfl, hu⟩ := exists_taken_of_rawValue hr
  refine ⟨List.replicate n '#' ++ '"' :: u, by simp, fun t => ?_⟩
  exact rawStringValue_eq_some_iff.2 ⟨n, u ++ t, hn, by simp, hu t⟩

/-! ## The value of a quoted text -/

/-- A digit of a character escape adds nothing to the value of a string. -/
theorem stringValue_digit (value count d : ℕ) (rest : List Char) (hd : d < 16)
    (hcount : count ≠ 6) :
    stringValue .text (.digits value count) (Nat.digitChar d :: rest) =
      stringValue .text (.digits (value * 16 + d) (count + 1)) rest := by
  have hbrace : ∀ d < 16, Nat.digitChar d ≠ '\x7d' := by decide
  simp [stringValue, stringStep, digitStep, hexValue?_digitChar d hd, hcount, StringState.value,
    hbrace d hd]

/-- A character that is escaped by a letter. -/
theorem stringValue_letter {d : Char} (hstep : escapeStep .text d = .go .plain)
    (hvalue : escapeValue d = bytes c) (rest : List Char) :
    stringValue .text .plain ('\\' :: d :: rest) =
      (stringValue .text .plain rest).map fun (v, r) => (bytes c ++ v, r) := by
  have hbackslash : stringStep .text .plain '\\' = .go .escape := rfl
  have hletter : stringStep .text .escape d = .go .plain := hstep
  have hnothing : plainValue '\\' = [] := rfl
  simp only [stringValue, hbackslash, hletter, hnothing, StringState.value, hvalue, Option.map_map,
    Function.comp_def, List.nil_append]

/-- A character that is spelled by its number. -/
theorem stringValue_hidden (c : Char) (rest : List Char) :
    stringValue .text .plain (['\\', 'u', '\x7b'] ++ hexadecimal c.toNat ++ ['\x7d'] ++ rest) =
      (stringValue .text .plain rest).map fun (v, r) => (bytes c ++ v, r) := by
  have hscalar := isScalar_toNat c
  have hlength : (hexadecimal c.toNat).length ≠ 0 := Nat.ne_of_gt Nat.length_toDigits_pos
  have hsame : ∀ z : Option (List UInt8 × List Char), z.map (fun (v, r) => ([] ++ v, r)) = z := by
    intro z
    cases z <;> rfl
  calc stringValue .text .plain (['\\', 'u', '\x7b'] ++ hexadecimal c.toNat ++ ['\x7d'] ++ rest)
      = (((stringValue .text (.digits 0 0) (hexadecimal c.toNat ++ '\x7d' :: rest)).map
          fun (v, r) => ([] ++ v, r)).map fun (v, r) => ([] ++ v, r)).map
            fun (v, r) => ([] ++ v, r) := by
        rw [List.append_assoc, List.append_assoc]
        rfl
    _ = stringValue .text (.digits c.toNat (hexadecimal c.toNat).length) ('\x7d' :: rest) := by
        rw [hsame, hsame, hsame]
        exact read_hexadecimal stringValue_digit _ (toNat_lt_hexadecimal c) _
    _ = (stringValue .text .plain rest).map fun (v, r) => (bytes c ++ v, r) := by
        have hdigit : hexValue? '\x7d' = none := rfl
        simp [stringValue, stringStep, digitStep, hdigit, hscalar, hlength, Flavour.admitsValue,
          StringState.value, Char.ofNat_toNat]

/-- A character inside quotes adds its bytes to the value. -/
theorem stringValue_escaped (c : Char) (rest : List Char) :
    stringValue .text .plain (escaped c ++ rest) =
      (stringValue .text .plain rest).map fun (v, r) => (bytes c ++ v, r) := by
  unfold escaped
  split_ifs with hzero htab hreturn hline hquote hslash hhidden
  · exact stringValue_letter rfl (by rw [eq_of_beq hzero]; rfl) rest
  · exact stringValue_letter rfl (by rw [eq_of_beq htab]; rfl) rest
  · exact stringValue_letter rfl (by rw [eq_of_beq hreturn]; rfl) rest
  · exact stringValue_letter rfl (by rw [eq_of_beq hline]; rfl) rest
  · exact stringValue_letter rfl (by rw [eq_of_beq hquote]; rfl) rest
  · exact stringValue_letter rfl (by rw [eq_of_beq hslash]; rfl) rest
  · exact stringValue_hidden c rest
  · simp [stringValue, stringStep, plainStep, hreturn, hquote, hslash, Flavour.admits,
      StringState.value, plainValue]

/-- **The value of a quoted text** is the text, as bytes. -/
theorem stringValue_flatMap_escaped (s rest : List Char) :
    stringValue .text .plain (s.flatMap escaped ++ '"' :: rest) = some (s.flatMap bytes, rest) := by
  induction s with
  | nil => rfl
  | cons c s ih =>
    rw [List.flatMap_cons, List.append_assoc, stringValue_escaped, ih, Option.map_some,
      List.flatMap_cons]

/-! ## Senses and pieces, step by step -/

theorem taken_append (u rest : List Char) : taken (u ++ rest) rest = u := by
  simp [taken]

theorem senses_of_gap_nil (h : gap x = some []) : senses x = some [] := by
  rw [senses, lexemes_of_gap_nil h, Option.map_some, List.map_nil]

theorem senses_of_step_none (hgap : gap x = some (c :: y)) (hstep : step (c :: y) = none) :
    senses x = none := by
  rw [senses, lexemes_of_step_none hgap hstep, Option.map_none]

theorem senses_of_step {found : List Lexeme} (hgap : gap x = some (c :: y))
    (hstep : step (c :: y) = some (found, rest)) :
    senses x = (senses rest).map (found.map senseOf ++ ·) := by
  rw [senses, lexemes_of_step hgap hstep, senses, Option.map_map, Option.map_map]
  refine Option.map_congr fun L _ => ?_
  exact List.map_append

theorem senses_congr (h : gap x = gap y) : senses x = senses y := by
  rw [senses, lexemes_congr h, senses]

/-- As many steps as a text has characters are enough for its pieces. -/
theorem piecesIn_eq {m n : ℕ} (hm : x.length < m) (hn : x.length < n) :
    piecesIn m x = piecesIn n x := by
  induction m generalizing n x with
  | zero => cases hm
  | succ m ih =>
    obtain ⟨n, rfl⟩ := Nat.exists_eq_add_one_of_ne_zero (Nat.ne_of_gt (Nat.zero_lt_of_lt hn))
    rcases hgap : gap x with _ | y
    · simp only [piecesIn, hgap]
    · rcases hstep : step y with _ | ⟨found, rest⟩
      · simp only [piecesIn, hgap, hstep]
      · have hle := (suffix_gapFrom hgap).length_le
        have hlt := step_length_lt hstep
        simp only [piecesIn, hgap, hstep]
        rw [ih (n := n) (by omega) (by omega)]

theorem pieces_of_gap_nil (h : gap x = some []) : pieces x = [] := by
  have hstep : step [] = none := rfl
  simp only [pieces, piecesIn, h, hstep]

/-- The pieces of a text are that of a step, and those of what follows. -/
theorem pieces_of_step {found : List Lexeme} (hgap : gap x = some y)
    (hstep : step y = some (found, rest)) : pieces x = taken y rest :: pieces rest := by
  have hle := (suffix_gapFrom hgap).length_le
  have hlt := step_length_lt hstep
  have hrest : piecesIn x.length rest = pieces rest := piecesIn_eq (by omega) (by omega)
  rw [pieces, piecesIn]
  simp only [hgap, hstep, hrest]

theorem pieces_congr (h : gap x = gap y) : pieces x = pieces y := by
  rcases hgap : gap x with _ | z
  · rw [pieces, piecesIn, pieces, piecesIn, ← h, hgap]
  · rcases hstep : step z with _ | ⟨found, rest⟩
    · simp only [pieces, piecesIn, ← h, hgap, hstep]
    · rw [pieces_of_step hgap hstep, pieces_of_step (x := y) (h ▸ hgap) hstep]

end Scan

end Grammar

end ProcessCompiler
