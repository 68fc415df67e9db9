import ProcessCompiler.Markup.Namespace
import ProcessCompiler.Proofs.Markup.Encoding
/-!
# Tags

`tagText` writes a name and attributes as what stands between the brackets of
a tag. The name is read back up to the first blank (`takeWhile_tagText`), and
the attributes behind it as they were written (`PlainTag.ofTag_tagText`). So a
tag is free of faults and says nothing about its element's value unless one of
its keys does (`PlainTag.of_keys`, `PlainTag.marksVoid_tagText`).
-/

namespace ProcessCompiler

namespace Markup

/-- A character that a name may have. -/
def isNameChar (c : Char) : Bool :=
  isInert c && !isSpace c && c != '/' && c != '=' && c != '!' && c != '?'

/-- The text is a name of elements or attributes. -/
def isName (name : String) : Bool := name != "" && name.toList.all isNameChar

/-- An attribute behind a blank. -/
def attributeText (a : String × String) : List Char :=
  ' ' :: (a.1.toList ++ '=' :: '"' :: (encode a.2.toList ++ ['"']))

/-- What stands between the brackets of a tag. -/
def tagText (name : String) (attributes : List (String × String)) : List Char :=
  name.toList ++ attributes.flatMap attributeText

/-- **A plain tag**: its name and the keys of its attributes are names, no key
stands there twice, and no qualifier is bound to what it may not stand for. -/
structure PlainTag (name : String) (attributes : List (String × String)) : Prop where
  named : isName name = true
  keys : ∀ a ∈ attributes, isName a.1 = true
  nodup : (attributes.map (·.1)).Nodup
  binds : bindingFault? (tagText name attributes) = none

/-- A character of a name is no mark. -/
theorem ne_of_isNameChar {c : Char} (h : isNameChar c = true) : c ≠ '!' ∧ c ≠ '?' ∧ c ≠ '>' := by
  simp only [isNameChar, isInert, Bool.and_eq_true, bne_iff_ne, ne_eq] at h
  obtain ⟨⟨⟨⟨⟨⟨⟨⟨-, hgt⟩, -⟩, -⟩, -⟩, -⟩, -⟩, hbang⟩, hquery⟩ := h
  exact ⟨hbang, hquery, hgt⟩

theorem ne_slash_of_isNameChar {c : Char} (h : isNameChar c = true) : c ≠ '/' := by
  rintro rfl
  exact absurd h (by decide)

/-! ## Names and tags -/

section Tags

variable {name : String} (attributes : List (String × String))

theorem isNameChar_of_mem (h : isName name = true) {c : Char} (hc : c ∈ name.toList) :
    isNameChar c = true := by
  rw [isName, Bool.and_eq_true] at h
  exact List.all_eq_true.1 h.2 c hc

/-- A name is not empty. -/
theorem exists_cons_of_isName (h : isName name = true) : ∃ c cs, name.toList = c :: cs := by
  rw [isName, Bool.and_eq_true] at h
  exact List.exists_cons_of_ne_nil (by simpa using h.1)

/-- A name ends nothing that it stands in. -/
theorem isInert_of_mem_name (h : isName name = true) {c : Char} (hc : c ∈ name.toList) :
    isInert c = true := by
  have hchar := isNameChar_of_mem h hc
  simp only [isNameChar, Bool.and_eq_true] at hchar
  exact hchar.1.1.1.1.1

/-- A name has no blanks. -/
theorem not_isSpace_of_mem_name (h : isName name = true) {c : Char} (hc : c ∈ name.toList) :
    (!isSpace c) = true := by
  have hchar := isNameChar_of_mem h hc
  simp only [isNameChar, Bool.and_eq_true] at hchar
  exact hchar.1.1.1.1.2

/-- The attributes of a tag begin with a blank. -/
theorem flatMap_attributeText_cases :
    attributes.flatMap attributeText = [] ∨
      ∃ cs, attributes.flatMap attributeText = ' ' :: cs := by
  cases attributes with
  | nil => exact .inl rfl
  | cons a rest => exact .inr ⟨_, rfl⟩

/-- The name of a tag ends at its first blank. -/
theorem takeWhile_tagText (h : isName name = true) :
    (tagText name attributes).takeWhile (!isSpace ·) = name.toList := by
  rw [tagText, List.takeWhile_append_of_pos fun c => not_isSpace_of_mem_name h]
  rcases flatMap_attributeText_cases attributes with hnil | ⟨cs, hcons⟩
  · simp [hnil]
  · simp [hcons, isSpace]

/-- The attributes of a tag begin at its first blank. -/
theorem dropWhile_tagText (h : isName name = true) :
    (tagText name attributes).dropWhile (!isSpace ·) = attributes.flatMap attributeText := by
  rw [tagText, List.dropWhile_append_of_pos fun c => not_isSpace_of_mem_name h]
  rcases flatMap_attributeText_cases attributes with hnil | ⟨cs, hcons⟩
  · simp [hnil]
  · simp [hcons, isSpace]

/-- A tag begins with its name. -/
theorem exists_tagText_eq_cons (h : isName name = true) :
    ∃ c cs, tagText name attributes = c :: cs ∧ isNameChar c = true := by
  obtain ⟨c, cs, hcs⟩ := exists_cons_of_isName h
  exact ⟨c, cs ++ attributes.flatMap attributeText, by simp [tagText, hcs],
    isNameChar_of_mem h (by simp [hcs])⟩

/-- A tag does not end with a slash. -/
theorem getLast?_tagText_ne (h : isName name = true) :
    (tagText name attributes).getLast? ≠ some '/' := by
  rcases List.eq_nil_or_concat attributes with rfl | ⟨before, a, rfl⟩
  · intro hlast
    have hmem : '/' ∈ name.toList := List.mem_of_getLast? (by simpa [tagText] using hlast)
    exact ne_slash_of_isNameChar (isNameChar_of_mem h hmem) rfl
  · have hquote : (attributeText a).getLast? = some '"' := by
      simp [attributeText, List.getLast?_cons, List.getLast?_append]
    simp [tagText, List.getLast?_append, List.flatMap_append, hquote]

end Tags

/-! ## Attributes of a tag -/

namespace Attribute

variable (unique : Bool) (seen : List (List Char × Nat))

/-- A key is read up to `=`. -/
theorem scan_key {key : List Char}
    (h : ∀ c ∈ key, isSpace c = false ∧ c ≠ '=') (start pos : Nat) (read rest : List Char) :
    ∃ pos', scan unique seen pos (.key start read) (key ++ '=' :: rest) =
      scan unique seen pos' (.key start (key.reverse ++ read)) ('=' :: rest) := by
  induction key generalizing pos read with
  | nil => exact ⟨pos, rfl⟩
  | cons c key ih =>
    obtain ⟨⟨hspace, hne⟩, hkey⟩ := List.forall_mem_cons.1 h
    obtain ⟨pos', hpos⟩ := ih hkey (pos + c.utf8Size) (c :: read)
    refine ⟨pos', ?_⟩
    rw [List.cons_append, scan, if_neg (by simpa using hne), if_neg (by simp [hspace]), hpos,
      List.reverse_cons, List.append_assoc, List.singleton_append]

/-- A value is read up to its quote. -/
theorem scan_value {value : List Char} (h : ∀ c ∈ value, isInert c = true) (key : List Char)
    (pos : Nat) (read rest : List Char) :
    ∃ pos', scan unique seen pos (.value key '"' read) (value ++ '"' :: rest) =
      .ok ⟨key, read.reverse ++ value⟩ :: scan unique seen pos' .gap rest := by
  induction value generalizing pos read with
  | nil => exact ⟨_, by rw [List.nil_append, scan, if_pos (beq_self_eq_true _), List.append_nil]⟩
  | cons c value ih =>
    obtain ⟨hc, hvalue⟩ := List.forall_mem_cons.1 h
    have hne : c ≠ '"' := by
      rintro rfl
      exact absurd hc (by decide)
    obtain ⟨pos', hpos⟩ := ih hvalue (pos + c.utf8Size) (c :: read)
    refine ⟨pos', ?_⟩
    rw [List.cons_append, scan, if_neg (by simpa using hne), hpos, List.reverse_cons,
      List.append_assoc, List.singleton_append]

/-- An attribute is read as it was written, if its key is new. -/
theorem scan_attributeText {a : String × String} (h : isName a.1 = true)
    (hnew : a.1.toList ∉ seen.map (·.1)) (pos : Nat) (rest : List Char) :
    ∃ start pos', scan unique seen pos .gap (attributeText a ++ rest) =
      .ok ⟨a.1.toList, encode a.2.toList⟩ ::
        scan unique ((a.1.toList, start) :: seen) pos' .gap rest := by
  have hchar : ∀ c ∈ a.1.toList, isSpace c = false ∧ c ≠ '=' := by
    intro c hc
    refine ⟨by simpa using not_isSpace_of_mem_name h hc, ?_⟩
    rintro rfl
    exact absurd (isNameChar_of_mem h hc) (by decide)
  have hprevious : scan.previous? unique seen a.1.toList = none := by
    rw [scan.previous?]
    split
    · refine List.lookup_eq_none_iff.2 fun b hb => bne_iff_ne.2 ?_
      rintro heq
      exact hnew (heq ▸ List.mem_map_of_mem hb)
    · rfl
  -- The scan enters a key with its first character, so the key is taken apart.
  obtain ⟨c, cs, hcs⟩ := exists_cons_of_isName h
  rw [hcs] at hchar hprevious
  obtain ⟨hc, hrest⟩ := List.forall_mem_cons.1 hchar
  let start := pos + ' '.utf8Size
  have hinert : ∀ d ∈ encode a.2.toList, isInert d = true := fun d => isInert_of_mem_encode
  obtain ⟨p, hkey⟩ := scan_key unique seen hrest start (start + c.utf8Size) [c]
    ('"' :: (encode a.2.toList ++ '"' :: rest))
  obtain ⟨q, hvalue⟩ := scan_value unique ((c :: cs, start) :: seen) hinert (c :: cs)
    (p + '='.utf8Size + '"'.utf8Size) [] rest
  have hread : (cs.reverse ++ [c]).reverse = c :: cs := by simp
  refine ⟨start, q, ?_⟩
  rw [List.reverse_nil, List.nil_append] at hvalue
  rw [attributeText]
  simp only [List.cons_append, List.append_assoc, List.nil_append]
  rw [scan, if_pos (by decide), hcs, List.cons_append, scan, if_neg (by simp [hc.1]), hkey, scan,
    if_pos (beq_self_eq_true _), hread, hprevious]
  dsimp only
  rw [scan, if_pos (by decide), hvalue]

/-- Attributes are read as they were written, if their keys are new. -/
theorem scan_flatMap_attributeText {attributes : List (String × String)}
    (hkeys : ∀ a ∈ attributes, isName a.1 = true) (hnodup : (attributes.map (·.1)).Nodup)
    (hnew : ∀ a ∈ attributes, a.1.toList ∉ seen.map (·.1)) (pos : Nat) :
    scan unique seen pos .gap (attributes.flatMap attributeText) =
      attributes.map fun a => .ok ⟨a.1.toList, encode a.2.toList⟩ := by
  induction attributes generalizing seen pos with
  | nil => rfl
  | cons a rest ih =>
    obtain ⟨hkey, hkeys⟩ := List.forall_mem_cons.1 hkeys
    obtain ⟨hhead, hnew⟩ := List.forall_mem_cons.1 hnew
    rw [List.map_cons, List.nodup_cons] at hnodup
    obtain ⟨start, pos', hscan⟩ := scan_attributeText unique seen hkey hhead pos
      (rest.flatMap attributeText)
    rw [List.flatMap_cons, hscan, List.map_cons]
    refine congrArg _ (ih _ hkeys hnodup.2 (fun b hb => ?_) pos')
    rw [List.map_cons, List.mem_cons, not_or]
    refine ⟨fun heq => hnodup.1 ?_, hnew b hb⟩
    exact String.toList_inj.1 heq ▸ List.mem_map_of_mem hb

end Attribute

section Tags

variable {name : String} {attributes : List (String × String)}

/-- **The attributes of a tag** are read as they were written. -/
theorem PlainTag.ofTag_tagText (h : PlainTag name attributes) (unique : Bool) :
    Attribute.ofTag unique (tagText name attributes) =
      attributes.map fun a => .ok ⟨a.1.toList, encode a.2.toList⟩ := by
  rw [Attribute.ofTag, dropWhile_tagText attributes h.named]
  exact Attribute.scan_flatMap_attributeText unique [] h.keys h.nodup (fun _ _ => by simp) _

/-- A tag is plain if its keys bind nothing. -/
theorem PlainTag.of_keys (hname : isName name = true)
    (hkeys : ∀ a ∈ attributes, isName a.1 = true ∧ boundQualifier? a.1.toList = none)
    (hnodup : (attributes.map (·.1)).Nodup) : PlainTag name attributes where
  named := hname
  keys a ha := (hkeys a ha).1
  nodup := hnodup
  binds := by
    rw [bindingFault?, Attribute.ofTag, dropWhile_tagText attributes hname,
      Attribute.scan_flatMap_attributeText false [] (fun a ha => (hkeys a ha).1) hnodup
        (fun _ _ => by simp) _]
    have hbound : ∀ a ∈ attributes, boundQualifier? a.1.toList = none := fun a ha => (hkeys a ha).2
    clear hkeys hnodup
    induction attributes with
    | nil => rfl
    | cons a rest ih =>
      obtain ⟨ha, hrest⟩ := List.forall_mem_cons.1 hbound
      simp only [List.map_cons, bindingsOf, bindingOf, ha]
      exact ih hrest

/-- A tag without the attribute `nil` does not say that its element has no
value. -/
theorem PlainTag.marksVoid_tagText (h : PlainTag name attributes)
    (hnil : ∀ a ∈ attributes, localName a.1.toList ≠ ['n', 'i', 'l']) (s : Scope) :
    s.marksVoid (tagText name attributes) = false := by
  rw [Scope.marksVoid, h.ofTag_tagText, List.any_map, List.any_eq_false]
  intro a ha
  have hlocal := hnil a ha
  rw [localName] at hlocal
  simp only [Function.comp_apply, Scope.isVoidMark]
  split
  next qualifier hqualified => simp [hqualified] at hlocal
  next => simp

end Tags

end Markup

end ProcessCompiler
