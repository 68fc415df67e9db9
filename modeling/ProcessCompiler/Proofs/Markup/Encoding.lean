import Mathlib.Data.List.Basic
import ProcessCompiler.Markup.Run
/-!
# Characters written as references

`encode` writes five characters of a text by their names, and `decode` reads
the text back (`decode_encode`). An encoded text ends no tag, no value and no
text that it stands in (`isInert_of_mem_encode`), and its blanks are those of
the text, so trimming leaves it alone if it leaves the text alone
(`runText_encode`).
-/

namespace ProcessCompiler

namespace Markup

/-- A character as it is written in a text or in a value. -/
def encodeChar (c : Char) : List Char :=
  if c = '&' then ['&', 'a', 'm', 'p', ';']
  else if c = '<' then ['&', 'l', 't', ';']
  else if c = '>' then ['&', 'g', 't', ';']
  else if c = '"' then ['&', 'q', 'u', 'o', 't', ';']
  else if c = '\'' then ['&', 'a', 'p', 'o', 's', ';']
  else [c]

/-- A text with its special characters written by their names. -/
def encode (cs : List Char) : List Char := cs.flatMap encodeChar

/-- A character that ends neither a tag nor a text nor a quoted value. -/
def isInert (c : Char) : Bool := c != '<' && c != '>' && c != '"' && c != '\''

/-- The text has no blanks at its ends. -/
def Bounded (cs : List Char) : Prop :=
  (∀ c ∈ cs.head?, isSpace c = false) ∧ ∀ c ∈ cs.getLast?, isSpace c = false

/-! ## Decoding -/

/-- A character that is written by its name is the one that the name stands
for. -/
theorem exists_decodeFrom_encodeChar (size pos : Nat) (c : Char) (rest : List Char) :
    ∃ pos', decodeFrom size pos none (encodeChar c ++ rest) =
      (decodeFrom size pos' none rest).map (c :: ·) := by
  fun_cases encodeChar c with
  | case1 h =>
    subst h
    exact ⟨pos + 1 + 1 + 1 + 1 + 1, rfl⟩
  | case2 _ h =>
    subst h
    exact ⟨pos + 1 + 1 + 1 + 1, rfl⟩
  | case3 _ _ h =>
    subst h
    exact ⟨pos + 1 + 1 + 1 + 1, rfl⟩
  | case4 _ _ _ h =>
    subst h
    exact ⟨pos + 1 + 1 + 1 + 1 + 1 + 1, rfl⟩
  | case5 _ _ _ _ h =>
    subst h
    exact ⟨pos + 1 + 1 + 1 + 1 + 1 + 1, rfl⟩
  | case6 h =>
    have hne : (c == '&') = false := by simpa using h
    refine ⟨pos + c.utf8Size, ?_⟩
    rw [List.singleton_append, decodeFrom, hne]
    rfl

/-- **What is encoded is decoded.** -/
theorem decode_encode (cs : List Char) : decode (encode cs) = .ok cs := by
  have hfrom : ∀ size pos, decodeFrom size pos none (encode cs) = .ok cs := by
    induction cs with
    | nil => exact fun _ _ => rfl
    | cons c cs ih =>
      intro size pos
      obtain ⟨pos', hstep⟩ := exists_decodeFrom_encodeChar size pos c (encode cs)
      rw [encode, List.flatMap_cons, ← encode, hstep, ih]
      rfl
  exact hfrom _ 0

/-! ## Where encoded text may stand -/

/-- A character is written with inert characters only. -/
theorem all_isInert_encodeChar (c : Char) : (encodeChar c).all isInert = true := by
  fun_cases encodeChar c with
  | case1 | case2 | case3 | case4 | case5 => rfl
  | case6 _ hlt hgt hquote hapos => simp [isInert, hlt, hgt, hquote, hapos]

/-- **An encoded text is inert**: it ends nothing that it stands in. -/
theorem isInert_of_mem_encode {cs : List Char} {c : Char} (h : c ∈ encode cs) :
    isInert c = true := by
  obtain ⟨d, -, hd⟩ := List.mem_flatMap.1 h
  exact List.all_eq_true.1 (all_isInert_encodeChar d) c hd

/-- Nothing is written for the empty text only. -/
theorem encode_eq_nil_iff {cs : List Char} : encode cs = [] ↔ cs = [] := by
  cases cs with
  | nil => simp [encode]
  | cons c cs =>
    have hne : encodeChar c ≠ [] := by fun_cases encodeChar c <;> simp
    simp [encode, hne]

/-- What is written for a character begins and ends with a blank only if the
character is one. -/
theorem ends_encodeChar {c : Char} (h : isSpace c = false) :
    ∃ first last middle, encodeChar c = first :: middle ∧ (encodeChar c).getLast? = some last ∧
      isSpace first = false ∧ isSpace last = false := by
  fun_cases encodeChar c with
  | case1 | case2 | case3 | case4 | case5 => exact ⟨'&', ';', _, rfl, rfl, rfl, rfl⟩
  | case6 => exact ⟨c, c, [], rfl, rfl, h, h⟩

/-- A text without blanks at its ends has none when it is encoded. -/
theorem Bounded.encode {cs : List Char} (h : Bounded cs) : Bounded (encode cs) := by
  obtain ⟨hhead, hlast⟩ := h
  constructor
  · cases cs with
    | nil => simp [Markup.encode]
    | cons c cs =>
      obtain ⟨first, last, middle, hencode, -, hfirst, -⟩ := ends_encodeChar (hhead c rfl)
      simpa [Markup.encode, hencode] using hfirst
  · rcases List.eq_nil_or_concat cs with rfl | ⟨cs, c, rfl⟩
    · simp [Markup.encode]
    · obtain ⟨first, last, middle, -, hgetLast, -, hspace⟩ := ends_encodeChar (hlast c (by simp))
      simpa [Markup.encode, List.flatMap_append, List.getLast?_append, hgetLast] using hspace

/-! ## Encoded text as a run -/

/-- Blanks that a text does not begin with are not dropped. -/
theorem Bounded.dropSpace_eq {cs : List Char} (h : Bounded cs) : dropSpace cs = cs := by
  cases cs with
  | nil => rfl
  | cons c cs => rw [dropSpace, List.dropWhile_cons_of_neg (by simp [h.1 c rfl])]

/-- Blanks that a text does not end with are not dropped. -/
theorem Bounded.dropSpaceEnd_eq {cs : List Char} (h : Bounded cs) : dropSpaceEnd cs = cs := by
  rcases List.eq_nil_or_concat cs with rfl | ⟨cs, c, rfl⟩
  · rfl
  · have hc : isSpace c = false := h.2 c (by simp)
    simp [dropSpaceEnd, hc]

/-- **The run of an encoded text** stands for the text. -/
theorem runText_encode {cs : List Char} (h : Bounded cs) (hne : cs ≠ []) :
    runText true [.plain (encode cs)] = some (.ok (String.ofList cs)) := by
  have hbounded := h.encode
  have hencode : encode cs ≠ [] := mt encode_eq_nil_iff.1 hne
  have htrim : trimRunEnd (trimRunStart [.plain (encode cs)]) = [.plain (encode cs)] := by
    rw [trimRunStart, hbounded.dropSpace_eq, if_neg (by simpa using hencode), trimRunEnd,
      hbounded.dropSpaceEnd_eq]
  have hdecode : decodeRun [.plain (encode cs)] = .ok cs := by
    rw [decodeRun, TextPiece.decode, decode_encode]
    exact congrArg Except.ok (List.append_nil cs)
  rw [runText, if_pos rfl, htrim]
  split
  · contradiction
  · rename_i heq
    exact absurd (TextPiece.plain.inj (List.cons.inj heq).1) hencode
  · rw [hdecode]

/-- What an element holds that is given a text. -/
def textContent (s : String) : List Content :=
  if s.isEmpty then [] else [.text [.plain (encode s.toList)]]

/-- **The text of an element** is the one it was given. -/
theorem textOf_textContent (owner : List Char) {s : String} (h : Bounded s.toList) :
    textOf owner (textContent s) = .ok s := by
  by_cases hs : s = ""
  · subst hs
    rfl
  · have hne : s.toList ≠ [] := by simpa using hs
    rw [textContent, if_neg (by simpa using hs), textOf, runText_encode h hne]
    exact congrArg Except.ok (String.ofList_toList)

/-- A text that an element was given has no faults. -/
theorem surveyAll_textContent {s : String} (h : Bounded s.toList) :
    Content.surveyAll (textContent s) = .ok () := by
  by_cases hs : s = ""
  · subst hs
    rfl
  · have hne : s.toList ≠ [] := by simpa using hs
    rw [textContent, if_neg (by simpa using hs), Content.surveyAll, Content.survey,
      runText_encode h hne]
    rfl

end Markup

end ProcessCompiler
