import ProcessCompiler.Proofs.Scan.ShiftedGaps
/-!
# Literals of a shifted text

Names, numbers and punctuation end with their line at the latest, so a shifted
text has the same ones (`InLine`). Strings come in six forms that only differ in
how they open and in how their value is read (`StringForm`). A string of the
text is a string of the shifted one, and has the same value exactly if it is not
broken. The other literals in quotes hold one character. If that is a line feed,
the shifted text has no literal there (`quoted_of_shifted`).
-/

namespace ProcessCompiler

namespace Grammar

namespace Scan

open Text Layout

variable {w : ℕ} {b t u x x' y r rest : List Char} {c : Char} {p : Char → Bool}

/-! ## Scans inside a line -/

theorem startsWith_of_shifted (h : Shifted w x x') (hreturn : p '\r' = false)
    (hfeed : p '\n' = false) : startsWith p x' = startsWith p x := by
  have hend : ∀ {b}, AtEnd b → startsWith p b = false := by
    intro b hb
    cases hb with
    | nil => rfl
    | feed => exact hfeed
    | carriage => exact hreturn
  obtain ⟨u, b, b', rfl, rfl, -, hb, hb', -⟩ := h.exists_line
  rw [startsWith_append (hend hb), startsWith_append (hend hb')]

/-- **A scan that does not look past the end of a line.** -/
structure InLine {α : Type} (scan : List Char → Option (α × List Char)) : Prop where
  append {b : List Char} (hb : AtEnd b) (x : List Char) : scan (x ++ b) = (scan x).map (behind b)
  suffix {x rest : List Char} {a : α} (h : scan x = some (a, rest)) : rest <:+ x

namespace InLine

variable {α : Type} {scan : List Char → Option (α × List Char)} {a : α}

/-- Such a scan finds the same in the shifted text. -/
theorem exists_of_shifted (hscan : InLine scan) (h : Shifted w x x') (hx : scan x = some (a, rest)) :
    ∃ u rest', x = u ++ rest ∧ x' = u ++ rest' ∧ '\n' ∉ u ∧ scan x' = some (a, rest') ∧
      Shifted w rest rest' := by
  obtain ⟨u, b, b', rfl, rfl, hu, hb, hb', hsuffix⟩ := h.exists_line
  rw [hscan.append hb] at hx
  obtain ⟨⟨a', r⟩, hr, heq⟩ := Option.map_eq_some_iff.1 hx
  obtain ⟨rfl, rfl⟩ := Prod.mk.inj heq
  obtain ⟨front, rfl⟩ := hscan.suffix hr
  refine ⟨front, r ++ b', by simp, by simp, ?_, ?_, hsuffix r (List.suffix_append _ _)⟩
  · exact fun hmem => hu (List.mem_append_left _ hmem)
  · rw [hscan.append hb', hr]
    rfl

theorem any_of_shifted (hscan : InLine scan) (h : Shifted w x x') (f : α → Bool) :
    ((scan x').any fun (a, _) => f a) = (scan x).any fun (a, _) => f a := by
  obtain ⟨u, b, b', rfl, rfl, -, hb, hb', -⟩ := h.exists_line
  rw [hscan.append hb, hscan.append hb']
  cases scan u <;> rfl

end InLine

theorem inLine_name : InLine name :=
  ⟨fun hb => name_append (border_of_atEnd hb), fun h => (takes_name h).suffix⟩

theorem inLine_punct : InLine punct where
  append {b} hb x := by
    rcases x with _ | ⟨c, x⟩
    · cases hb <;> rfl
    · exact punct_append (border_of_atEnd hb) (List.cons_ne_nil c x)
  suffix h := by
    rw [(exists_cons_of_punct h).1]
    exact List.suffix_cons _ _

theorem inLine_number :
    InLine fun x => (decimal x <|> integer x).map fun rest => (literalOf .number x rest, rest) where
  append hb x := by
    rw [decimal_append (border_of_atEnd hb), integer_append (border_of_atEnd hb)]
    cases decimal x with
    | some r => simp [literalOf_append, behind]
    | none =>
      cases integer x with
      | some r => simp [literalOf_append, behind]
      | none => rfl
  suffix h := by
    obtain ⟨r, hr, heq⟩ := Option.map_eq_some_iff.1 h
    obtain ⟨-, rfl⟩ := Prod.mk.inj heq
    exact (takes_number hr).suffix

/-- The suffix of a literal, and what follows it. -/
def suffixWord (x : List Char) : Option (List Char × List Char) :=
  some (taken x (dropWord x), dropWord x)

theorem taken_eq (h : x = u ++ rest) : taken x rest = u := by
  rw [h, taken_append]

theorem taken_append_append (x rest b : List Char) :
    taken (x ++ b) (rest ++ b) = taken x rest :=
  congrArg Literal.text (literalOf_append .number x rest b)

theorem inLine_suffixWord : InLine suffixWord where
  append hb x := by
    rw [suffixWord, dropWord_append (border_of_atEnd hb), taken_append_append, suffixWord, Option.map_some, behind]
  suffix h := by
    obtain ⟨-, rfl⟩ := Prod.mk.inj (Option.some.inj h)
    exact suffix_dropWord _

/-! ## Characters and bytes -/

theorem exists_taken_of_unicodeFrom {v n : ℕ} (h : unicodeFrom v n x = some y) :
    ∃ u, x = u ++ y ∧ unicodeFrom v n u = some [] ∧ '\n' ∉ u := by
  induction x generalizing v n with
  | nil => cases h
  | cons c x ih =>
    have hc : c ≠ '\n' := by
      have hhex : hexValue? '\n' = none := rfl
      rintro rfl
      simp [unicodeFrom, digitStep, hhex] at h
    simp only [unicodeFrom] at h
    split at h
    · rename_i v' n' hstep
      obtain ⟨u, rfl, htaken, hu⟩ := ih h
      refine ⟨c :: u, rfl, ?_, by simp [Ne.symm hc, hu]⟩
      simp only [unicodeFrom, hstep, htaken]
    · rename_i s hdigits hstep
      obtain rfl := Option.some.inj h
      refine ⟨[c], rfl, ?_, by simp [Ne.symm hc]⟩
      simp only [unicodeFrom, hstep]
    · cases h

/-- **What one character of a literal takes**: a line feed only if it stands for
itself. -/
theorem exists_taken_of_oneChar (h : oneChar x = some y) :
    ∃ u, x = u ++ y ∧ oneChar u = some [] ∧ ('\n' ∈ u → u = ['\n']) := by
  unfold oneChar at h
  split at h
  · rename_i a b r
    split_ifs at h with hdigits
    obtain rfl := Option.some.inj h
    have ha : '\n' ≠ a := by
      rintro rfl
      cases hdigits
    have hb : '\n' ≠ b := by
      rintro rfl
      simp [show isHexDigit '\n' = false from rfl] at hdigits
    exact ⟨['\\', 'x', a, b], rfl, if_pos hdigits, fun hmem => by simp [ha, hb] at hmem⟩
  · obtain ⟨u, rfl, htaken, hu⟩ := exists_taken_of_unicodeFrom h
    exact ⟨'\\' :: 'u' :: '\x7b' :: u, rfl, htaken, fun hmem => by simp [hu] at hmem⟩
  · rename_i c r hx hu
    split_ifs at h with hc
    obtain rfl := Option.some.inj h
    have hfeed : '\n' ≠ c := by
      rintro rfl
      cases hc
    refine ⟨['\\', c], rfl, ?_, fun hmem => by simp [hfeed] at hmem⟩
    rw [oneChar, if_pos hc]
    · simp
    · simp
  · cases h
  · rename_i c r hx hu hescape hend
    have hc : c ≠ '\\' := by
      rintro rfl
      cases r with
      | nil => exact hend rfl rfl
      | cons d r => exact hescape d r rfl rfl
    obtain rfl := Option.some.inj h
    exact ⟨[c], rfl, by simp [oneChar, hc], by simp [eq_comm]⟩
  · cases h

theorem exists_taken_of_oneByte (h : oneByte x = some y) :
    ∃ u, x = u ++ y ∧ oneByte u = some [] ∧ ('\n' ∈ u → u = ['\n']) := by
  unfold oneByte at h
  split at h
  · rename_i a b r
    split_ifs at h with hdigits
    obtain rfl := Option.some.inj h
    have ha : '\n' ≠ a := by
      rintro rfl
      cases hdigits
    have hb : '\n' ≠ b := by
      rintro rfl
      simp [show isHexDigit '\n' = false from rfl] at hdigits
    exact ⟨['\\', 'x', a, b], rfl, if_pos hdigits, fun hmem => by simp [ha, hb] at hmem⟩
  · rename_i c r hx
    split_ifs at h with hc
    obtain rfl := Option.some.inj h
    have hfeed : '\n' ≠ c := by
      rintro rfl
      cases hc
    refine ⟨['\\', c], rfl, ?_, fun hmem => by simp [hfeed] at hmem⟩
    rw [oneByte, if_pos hc]
    simp
  · cases h
  · rename_i c r hx hescape hend
    split_ifs at h with hadmits
    have hc : c ≠ '\\' := by
      rintro rfl
      cases r with
      | nil => exact hend rfl rfl
      | cons d r => exact hescape d r rfl rfl
    obtain rfl := Option.some.inj h
    exact ⟨[c], rfl, by simp [oneByte, hc, hadmits], by simp [eq_comm]⟩
  · cases h

theorem eq_of_closeQuote (h : closeQuote x = some rest) : x = '\'' :: rest := by
  unfold closeQuote at h
  split at h
  · rw [Option.some.inj h]
  · cases h

/-- **A literal of one character** is the same in the shifted text, unless that
character is a line feed: then a blank follows it. -/
theorem closed_of_shifted (hw : 0 < w) {one : List Char → Option (List Char)}
    (happend : ∀ {x y}, one x = some y → ∀ b, one (x ++ b) = some (y ++ b))
    (htaken : ∀ {x y}, one x = some y →
      ∃ u, x = u ++ y ∧ one u = some [] ∧ ('\n' ∈ u → u = ['\n']))
    (h : Shifted w x x') (hx : (one x).bind closeQuote = some rest) :
    (∃ u rest', x = u ++ rest ∧ x' = u ++ rest' ∧ '\n' ∉ u ∧
      (one x').bind closeQuote = some rest' ∧ Shifted w rest rest') ∨
    (∃ z, x' = '\n' :: ' ' :: z) ∧ x = '\n' :: '\'' :: rest := by
  obtain ⟨y, hy, hclose⟩ := Option.bind_eq_some_iff.1 hx
  obtain ⟨u, rfl, hone, hu⟩ := htaken hy
  obtain rfl := eq_of_closeQuote hclose
  by_cases hmem : '\n' ∈ u
  · obtain rfl := hu hmem
    exact .inr ⟨h.feed_cons hw rfl, rfl⟩
  · obtain ⟨rest', rfl, hrest⟩ := h.front hmem (by decide) (by decide)
    refine .inl ⟨u ++ ['\''], rest', by simp, by simp, by simpa using hmem, ?_, hrest⟩
    rw [happend hone]
    rfl

/-! ## Strings -/

/-- **A form of string**: its kind, what opens it, and how its value is read from
there on. In a shifted text the string goes on where it does in the text, and it
has another value exactly if it is broken. -/
structure StringForm (kind : LiteralKind) (opening : List Char)
    (value : List Char → Option (List UInt8 × List Char)) : Prop where
  opens : opening.all isInner = true
  quoted (t : List Char) :
    quoted (opening ++ t) = quotedOf kind (opening ++ t) ((value t).map (·.2))
  text (t : List Char) : stringOf ⟨kind, opening ++ t⟩ = value t
  taken {x rest : List Char} {v : List UInt8} (h : value x = some (v, rest)) :
    ∃ u, x = u ++ rest ∧ ∀ t, value (u ++ t) = some (v, t)
  shifted {w : ℕ} {x x' rest : List Char} {v : List UInt8} (hw : 0 < w) (h : Shifted w x x')
    (hx : value x = some (v, rest)) :
    ∃ u v' rest', x = u ++ rest ∧ value x' = some (v', rest') ∧ Shifted w rest rest' ∧
      ∀ t, '\n' ∉ t → (isBroken (opening ++ (u ++ t)) = true ↔ v' ≠ v)

section Strings

variable {kind : LiteralKind} {opening : List Char} {f : Flavour} {v : List UInt8} {l : Literal}
  {value : List Char → Option (List UInt8 × List Char)}

theorem stringForm_plain (hopens : opening.all isInner = true)
    (hquoted : ∀ t,
      quoted (opening ++ t) = quotedOf kind (opening ++ t) (stringFrom f .plain t))
    (htext : ∀ t, stringOf ⟨kind, opening ++ t⟩ = stringValue f .plain t)
    (hbroken : ∀ t, isBroken (opening ++ t) = breaksIn f .plain t) :
    StringForm kind opening (stringValue f .plain) where
  opens := hopens
  quoted t := by rw [hquoted, stringFrom_eq]
  text := htext
  taken h := by
    obtain ⟨u, hu, htaken⟩ := exists_taken_of_stringValue h
    exact ⟨u, hu, fun t => (htaken t).1⟩
  shifted hw h hx := by
    obtain ⟨v', rest', hcarries⟩ :=
      (carries_of_shifted hw h).1 .plain _ _ ⟨nofun, nofun⟩ hx
    obtain ⟨u, hu, htaken⟩ := exists_taken_of_stringValue hx
    refine ⟨u, v', rest', hu, hcarries.value, hcarries.shifted, fun t _ => ?_⟩
    rw [hbroken, (htaken t).2]
    constructor
    · intro hbreaks
      exact (hcarries.apart hbreaks).ne.symm
    · intro hne
      by_contra hwhole
      exact hne (hcarries.same (Bool.eq_false_iff.2 hwhole))

theorem stringForm_raw (hopens : opening.all isInner = true)
    (hquoted : ∀ t, quoted (opening ++ t) = quotedOf kind (opening ++ t) (rawString f t))
    (htext : ∀ t, stringOf ⟨kind, opening ++ t⟩ = rawStringValue f t)
    (hbroken : ∀ t, isBroken (opening ++ t) = (opening ++ t).contains '\n') :
    StringForm kind opening (rawStringValue f) where
  opens := hopens
  quoted t := by rw [hquoted, rawString_eq]
  text := htext
  taken := exists_taken_of_rawStringValue
  shifted hw h hx := by
    obtain ⟨u, v', rest', hu, hv', hrest, hvalue⟩ := rawStringValue_of_shifted hw h hx
    refine ⟨u, v', rest', hu, hv', hrest, fun t ht => ?_⟩
    have hopening := not_mem_of_all_isInner hopens
    rw [hbroken, List.contains_iff_mem, List.mem_append, or_iff_right hopening, List.mem_append,
      or_iff_left ht]
    constructor
    · intro hmem
      exact (hvalue.parted hmem).ne.symm
    · intro hne
      by_contra hmem
      exact hne (hvalue.same hmem)

/-- What becomes of a literal: it goes on where it does in the text, and means
something else exactly if it is broken. -/
structure Carried (w : ℕ) (x rest : List Char) (l : Literal) (rest' : List Char) (l' : Literal) :
    Prop where
  shifted : Shifted w rest rest'
  broken : isBroken (taken x rest) = true ↔
    senseOf (.leaf (.literal l')) ≠ senseOf (.leaf (.literal l))

namespace StringForm

/-- A string means its value and its suffix. -/
theorem senseOf_literalOf (hform : StringForm kind opening value) (hx : value x = some (v, r)) :
    senseOf (.leaf (.literal (literalOf kind (opening ++ x) (dropWord r)))) =
      .string kind v (Scan.taken r (dropWord r)) := by
  obtain ⟨u, rfl, htaken⟩ := hform.taken hx
  obtain ⟨word, hword⟩ := suffix_dropWord r
  have hpiece : literalOf kind (opening ++ (u ++ r)) (dropWord r) = ⟨kind, opening ++ (u ++ word)⟩ :=
    congrArg (Literal.mk kind) (taken_eq (by simp [hword]))
  rw [hpiece, taken_eq hword.symm, senseOf, hform.text, htaken]

/-- **A string of a text** is one of the shifted text. -/
theorem exists_carried (hform : StringForm kind opening value) (hw : 0 < w)
    (h : Shifted w (opening ++ x) x') (hl : Scan.quoted (opening ++ x) = some (l, rest)) :
    ∃ l' rest', Scan.quoted x' = some (l', rest') ∧
      Carried w (opening ++ x) rest l rest' l' := by
  obtain ⟨y', rfl, hy⟩ := h.past hform.opens
  rw [hform.quoted] at hl
  rcases hx : value x with _ | ⟨v, r⟩
  · rw [hx] at hl
    cases hl
  · rw [hx] at hl
    obtain ⟨rfl, rfl⟩ := Prod.mk.inj (Option.some.inj hl)
    obtain ⟨u, v', r', rfl, hy', hr, hbroken⟩ := hform.shifted hw hy hx
    -- The suffix is a word, so it is the same in both.
    obtain ⟨word, rest', hword, -, hline, hsuffix, hrest⟩ :=
      inLine_suffixWord.exists_of_shifted hr rfl
    obtain ⟨hsame, rfl⟩ := Prod.mk.inj (Option.some.inj hsuffix)
    have hpiece : Scan.taken (opening ++ (u ++ r)) (dropWord r) = opening ++ (u ++ word) :=
      taken_eq (by simp [← hword])
    refine ⟨literalOf kind (opening ++ y') (dropWord r'), dropWord r', ?_, hrest, ?_⟩
    · rw [hform.quoted, hy']
      rfl
    · rw [hpiece, hbroken word hline, hform.senseOf_literalOf hx, hform.senseOf_literalOf hy', hsame]
      simp

end StringForm

end Strings

theorem stringForm_text : StringForm .string ['"'] (stringValue .text .plain) :=
  stringForm_plain rfl (fun _ => rfl) (fun _ => rfl) fun _ => rfl

theorem stringForm_bytes : StringForm .byteString ['b', '"'] (stringValue .bytes .plain) :=
  stringForm_plain rfl (fun _ => rfl) (fun _ => rfl) fun _ => rfl

theorem stringForm_zeroFree : StringForm .cString ['c', '"'] (stringValue .zeroFree .plain) :=
  stringForm_plain rfl (fun _ => rfl) (fun _ => rfl) fun _ => rfl

theorem stringForm_rawText : StringForm .string ['r'] (rawStringValue .text) :=
  stringForm_raw rfl (fun _ => rfl) (fun _ => rfl) fun _ => rfl

theorem stringForm_rawBytes : StringForm .byteString ['b', 'r'] (rawStringValue .bytes) :=
  stringForm_raw rfl (fun _ => rfl) (fun _ => rfl) fun _ => rfl

theorem stringForm_rawZeroFree : StringForm .cString ['c', 'r'] (rawStringValue .zeroFree) :=
  stringForm_raw rfl (fun _ => rfl) (fun _ => rfl) fun _ => rfl

/-! ## Literals in quotes -/

/-- A literal of one character, with its suffix. -/
theorem closed_carried (hw : 0 < w) {kind : LiteralKind} (opening : List Char) {l : Literal}
    {one : List Char → Option (List Char)}
    (hopens : opening.all isInner = true)
    (hquoted : ∀ t, quoted (opening ++ t) = quotedOf kind (opening ++ t) ((one t).bind closeQuote))
    (hbroken : ∀ t, isBroken (opening ++ t) = (opening ++ t).contains '\n')
    (happend : ∀ {x y}, one x = some y → ∀ b, one (x ++ b) = some (y ++ b))
    (htaken : ∀ {x y}, one x = some y →
      ∃ u, x = u ++ y ∧ one u = some [] ∧ ('\n' ∈ u → u = ['\n']))
    (h : Shifted w (opening ++ x) x') (hl : quoted (opening ++ x) = some (l, rest)) :
    (∃ l' rest', quoted x' = some (l', rest') ∧ Carried w (opening ++ x) rest l rest' l') ∨
      isBroken (taken (opening ++ x) rest) = true ∧ ∃ z, x' = opening ++ '\n' :: ' ' :: z := by
  obtain ⟨y', rfl, hy⟩ := h.past hopens
  rw [hquoted] at hl
  obtain ⟨r, hr, heq⟩ := Option.map_eq_some_iff.1 hl
  obtain ⟨rfl, rfl⟩ := Prod.mk.inj heq
  rcases closed_of_shifted hw happend htaken hy hr with
    ⟨u, r', rfl, rfl, hu, hr', hshifted⟩ | ⟨⟨z, rfl⟩, rfl⟩
  · obtain ⟨word, rest', hword, hword', hline, hsuffix, hrest⟩ :=
      inLine_suffixWord.exists_of_shifted hshifted rfl
    obtain ⟨-, rfl⟩ := Prod.mk.inj (Option.some.inj hsuffix)
    have hpiece : taken (opening ++ (u ++ r)) (dropWord r) = opening ++ (u ++ word) :=
      taken_eq (by simp [← hword])
    have hpiece' : taken (opening ++ (u ++ r')) (dropWord r') = opening ++ (u ++ word) :=
      taken_eq (by simp [← hword'])
    have hwhole : isBroken (opening ++ (u ++ word)) = false := by
      have hopening := not_mem_of_all_isInner hopens
      rw [hbroken, Bool.eq_false_iff, Ne, List.contains_iff_mem]
      simp [hopening, hu, hline]
    have hsame : literalOf kind (opening ++ (u ++ r')) (dropWord r') =
        literalOf kind (opening ++ (u ++ r)) (dropWord r) :=
      congrArg (Literal.mk kind) (hpiece'.trans hpiece.symm)
    refine .inl ⟨literalOf kind (opening ++ (u ++ r')) (dropWord r'), dropWord r', ?_, hrest, ?_⟩
    · rw [hquoted, hr']
      rfl
    · rw [hpiece, hwhole, hsame]
      simp
  · obtain ⟨word, hword⟩ := suffix_dropWord r
    have hpiece : taken (opening ++ '\n' :: '\'' :: r) (dropWord r) =
        opening ++ '\n' :: '\'' :: word :=
      taken_eq (by simp [hword])
    refine .inr ⟨?_, z, rfl⟩
    rw [hpiece, hbroken]
    simp

/-- **Literals in quotes of a shifted text.** They are the same ones, but a
literal that holds a line feed between two apostrophes is none there. -/
theorem quoted_of_shifted (hw : 0 < w) {l : Literal} (h : Shifted w x x')
    (hl : quoted x = some (l, rest)) :
    (∃ l' rest', quoted x' = some (l', rest') ∧ Carried w x rest l rest' l') ∨
      isBroken (taken x rest) = true ∧
        ∃ z, x' = '\'' :: '\n' :: ' ' :: z ∨ x' = 'b' :: '\'' :: '\n' :: ' ' :: z := by
  have hquoted := hl
  unfold quoted at hl
  split at hl
  · exact .inl (stringForm_text.exists_carried hw h hquoted)
  · exact .inl (stringForm_bytes.exists_carried hw h hquoted)
  · exact .inl (stringForm_rawBytes.exists_carried hw h hquoted)
  · exact .inl (stringForm_zeroFree.exists_carried hw h hquoted)
  · exact .inl (stringForm_rawZeroFree.exists_carried hw h hquoted)
  · rcases closed_carried hw ['b', '\''] rfl (fun _ => rfl) (fun _ => rfl)
        oneByte_append exists_taken_of_oneByte h hquoted with hcarried | ⟨hbroken, z, hz⟩
    · exact .inl hcarried
    · exact .inr ⟨hbroken, z, .inr hz⟩
  · rcases closed_carried hw ['\''] rfl (fun _ => rfl) (fun _ => rfl)
        oneChar_append exists_taken_of_oneChar h hquoted with hcarried | ⟨hbroken, z, hz⟩
    · exact .inl hcarried
    · exact .inr ⟨hbroken, z, .inl hz⟩
  · exact .inl (stringForm_rawText.exists_carried hw h hquoted)
  · cases hl

end Scan

end Grammar

end ProcessCompiler
