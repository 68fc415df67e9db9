import Mathlib.Data.String.Basic
import ProcessCompiler.Proofs.Snippet.Splitting
/-!
# The boundary of an invocation

A task's text is cut behind one of its semicolons. Main statement: where the
text is no expression as a whole, it is cut behind the last semicolon that
leaves statements before it and one expression behind it, it is cut whenever
there is such a semicolon, and only blanks are lost between the two parts.

Semicolons are told apart by the byte that they stand at, since that is where
a text is sliced. No slice divides a character, whatever the text holds.
-/

namespace ProcessCompiler

open Grammar Text

namespace Text

variable {s : List Char}

/-- A text that neither begins nor ends with a blank. -/
theorem trim_eq_self (hhead : ∀ c ∈ s.head?, isBlank c = false)
    (hlast : ∀ c ∈ s.getLast?, isBlank c = false) : trim s = s := by
  have hstart : trimStart s = s := by
    cases s with
    | nil => rfl
    | cons c s => simp [trimStart, hhead c rfl]
  rw [trim, hstart]
  rcases hc : s.getLast? with _ | c
  · obtain rfl := List.getLast?_eq_none_iff.1 hc
    rfl
  · exact trimEnd_of_getLast? hc (hlast c hc)

/-- What is left of a text begins with no blank. -/
theorem head?_trim (s : List Char) : ∀ c ∈ (trim s).head?, isBlank c = false := by
  intro c hc
  obtain ⟨trail, -, htrail⟩ := exists_append_dropEndWhile isBlank (trimStart s)
  have hstart : (trimStart s).head? = some c := by
    rw [htrail]
    exact List.mem_head?_append_of_mem_head? hc
  have hnot := List.head?_dropWhile_not isBlank s
  rw [show (s.dropWhile isBlank).head? = some c from hstart] at hnot
  exact hnot

/-- A text without the characters of a class at its end does not end in one. -/
theorem getLast?_dropEndWhile (p : Char → Bool) (s : List Char) :
    ∀ c ∈ (dropEndWhile p s).getLast?, p c = false := by
  intro c hc
  have hnot := List.head?_dropWhile_not p s.reverse
  rw [show (s.reverse.dropWhile p).head? = some c by simpa [dropEndWhile] using hc] at hnot
  exact hnot

theorem getLast?_trim (s : List Char) : ∀ c ∈ (trim s).getLast?, isBlank c = false :=
  getLast?_dropEndWhile isBlank _

end Text

namespace Invocation

variable {b : List Char} {i : Invocation}

/-! ## Semicolons -/

/-- A semicolon of a text, with what stands before it and behind it. -/
structure Semicolon (b : List Char) where
  before : List Char
  after : List Char
  text_eq : b = before ++ ';' :: after

namespace Semicolon

/-- The byte that a semicolon stands at. -/
def byte (s : Semicolon b) : ℕ := (String.ofList s.before).utf8ByteSize

/-- The text up to the semicolon. -/
def front (s : Semicolon b) : List Char := s.before ++ [';']

/-- There are statements up to the semicolon, and one expression behind it. -/
def Works (s : Semicolon b) : Prop :=
  trim s.after ≠ [] ∧ isTail (trim s.after) = true ∧
    Harness.statements.accepts (String.ofList (trim s.front)) = true

/-- The two parts of a text that is cut behind the semicolon. -/
def invocation (s : Semicolon b) : Invocation :=
  ⟨some (String.ofList (trim s.front)), String.ofList (trim s.after)⟩

theorem text_eq_append (s : Semicolon b) : b = s.front ++ s.after := by
  rw [front, List.append_assoc]
  exact s.text_eq

theorem byte_eq (s : Semicolon b) : s.byte = String.utf8Len s.before :=
  String.utf8ByteSize_ofList _

theorem utf8Len_front (s : Semicolon b) : String.utf8Len s.front = s.byte + 1 := by
  rw [front, String.utf8Len_append, s.byte_eq]
  rfl

/-- Of two semicolons of a text, the one with more before it stands at a later
byte. -/
theorem byte_le_iff (s s' : Semicolon b) : s.byte ≤ s'.byte ↔ s.before.length ≤ s'.before.length := by
  -- One of the fronts begins the other, and a character more is a byte more at least.
  have hlt : ∀ t t' : Semicolon b, t.before.length < t'.before.length → t.byte < t'.byte := by
    intro t t' hlen
    have hfront : t.front <+: b := ⟨t.after, t.text_eq_append.symm⟩
    have hbefore : t'.before <+: b := ⟨';' :: t'.after, t'.text_eq.symm⟩
    have hle : t.front.length ≤ t'.before.length := by
      rw [front, List.length_append]
      exact hlen
    obtain ⟨more, hmore⟩ := List.prefix_of_prefix_length_le hfront hbefore hle
    have hsize : t'.byte = t.byte + 1 + String.utf8Len more := by
      rw [byte_eq, ← hmore, String.utf8Len_append, utf8Len_front]
    omega
  constructor
  · intro hbyte
    by_contra hlen
    have := hlt s' s (by omega)
    omega
  · intro hlen
    rcases Nat.lt_or_eq_of_le hlen with hlen | hlen
    · exact (hlt s s' hlen).le
    · have hbefore : s.before = s'.before :=
        (List.append_inj (s.text_eq.symm.trans s'.text_eq) hlen).1
      rw [byte, byte, hbefore]

/-- **A slice behind a semicolon divides no character**: both the byte of the
semicolon and the next one begin a character or end the text, and the slices
are the two parts. -/
theorem slices (s : Semicolon b) :
    String.Pos.Raw.IsValid (String.ofList b) ⟨s.byte⟩ ∧
    String.Pos.Raw.IsValid (String.ofList b) ⟨s.byte + 1⟩ ∧
    String.Pos.Raw.extract (String.ofList b) 0 ⟨s.byte + 1⟩ = String.ofList s.front ∧
    String.Pos.Raw.extract (String.ofList b) ⟨s.byte + 1⟩ (String.ofList b).rawEndPos =
      String.ofList s.after := by
  have hfront : (String.ofList s.front).utf8ByteSize = s.byte + 1 := by
    rw [String.utf8ByteSize_ofList, utf8Len_front]
  refine ⟨?_, ?_, ?_, ?_⟩
  · refine String.Pos.Raw.isValid_iff_exists_append.2
      ⟨String.ofList s.before, String.ofList (';' :: s.after), ?_, rfl⟩
    rw [← String.ofList_append, ← s.text_eq]
  · refine String.Pos.Raw.isValid_iff_exists_append.2
      ⟨String.ofList s.front, String.ofList s.after, ?_, ?_⟩
    · rw [← String.ofList_append, ← s.text_eq_append]
    · rw [String.rawEndPos, hfront]
  · have hextract := String.extract_of_valid [] s.front s.after
    rw [List.nil_append, ← s.text_eq_append, utf8Len_front] at hextract
    simpa using hextract
  · have hextract := String.extract_of_valid s.front s.after []
    rw [List.append_nil, ← s.text_eq_append, ← String.utf8Len_append, ← s.text_eq_append,
      utf8Len_front, ← String.utf8ByteSize_ofList] at hextract
    exact hextract

end Semicolon

/-! ## The search -/

/-- The cuts of a text are those behind its semicolons. -/
theorem mem_cuts_iff {cut : List Char × List Char} :
    cut ∈ cuts b ↔ ∃ s : Semicolon b, cut = (s.front, s.after) := by
  constructor
  · intro h
    obtain ⟨upTo, after⟩ := cut
    obtain ⟨htext, hlast⟩ := mem_cuts h
    obtain ⟨before, rfl⟩ := List.getLast?_eq_some_iff.1 hlast
    rw [List.append_assoc] at htext
    exact ⟨⟨before, after, htext⟩, rfl⟩
  · rintro ⟨⟨before, after, rfl⟩, rfl⟩
    induction before with
    | nil => exact List.mem_cons_self
    | cons c before ih =>
      have hlater : (c :: (before ++ [';']), after) ∈
          (cuts (before ++ ';' :: after)).map fun cut => (c :: cut.1, cut.2) :=
        List.mem_map.2 ⟨_, ih, rfl⟩
      simp only [Semicolon.front, List.cons_append, cuts]
      split_ifs
      · exact List.mem_cons_of_mem _ hlater
      · exact hlater

/-- They stand in the order of the text. -/
theorem cuts_pairwise (b : List Char) :
    (cuts b).Pairwise fun cut cut' => cut.1.length < cut'.1.length := by
  induction b with
  | nil => exact .nil
  | cons c b ih =>
    have hlater : ((cuts b).map fun cut => (c :: cut.1, cut.2)).Pairwise
        fun cut cut' => cut.1.length < cut'.1.length :=
      List.pairwise_map.2 (ih.imp fun h => Nat.succ_lt_succ h)
    simp only [cuts]
    split_ifs
    · refine List.pairwise_cons.2 ⟨?_, hlater⟩
      intro cut hcut
      obtain ⟨cut, hmem, rfl⟩ := List.mem_map.1 hcut
      have hne : cut.1 ≠ [] := by
        intro hnil
        have hlast := (mem_cuts hmem).2
        rw [hnil] at hlast
        cases hlast
      exact Nat.succ_lt_succ (List.length_pos_iff.2 hne)
    · exact hlater

theorem ofCut_eq_some_iff (s : Semicolon b) :
    ofCut (s.front, s.after) = some i ↔ s.Works ∧ i = s.invocation := by
  simp only [ofCut, Option.ite_none_right_eq_some, Bool.and_eq_true, Bool.not_eq_true',
    List.isEmpty_eq_false_iff, Option.some.injEq, Semicolon.Works, Semicolon.invocation, and_assoc]
  exact ⟨fun ⟨hne, htail, hfront, hi⟩ => ⟨hne, htail, hfront, hi.symm⟩,
    fun ⟨hne, htail, hfront, hi⟩ => ⟨hne, htail, hfront, hi.symm⟩⟩

theorem ofCut_eq_none_iff (s : Semicolon b) : ofCut (s.front, s.after) = none ↔ ¬s.Works := by
  rw [Option.eq_none_iff_forall_ne_some]
  constructor
  · exact fun h hworks => h _ ((ofCut_eq_some_iff s).2 ⟨hworks, rfl⟩)
  · exact fun h i hi => h ((ofCut_eq_some_iff s).1 hi).1

/-- **The search finds the last semicolon that works.** -/
theorem findSome?_cuts_iff : (cuts b).reverse.findSome? ofCut = some i ↔
    ∃ s : Semicolon b, s.Works ∧ (∀ s' : Semicolon b, s'.Works → s'.byte ≤ s.byte) ∧
      i = s.invocation := by
  have hsorted : (cuts b).reverse.Pairwise fun cut cut' => cut'.1.length < cut.1.length :=
    List.pairwise_reverse.2 (cuts_pairwise b)
  have hlength : ∀ s : Semicolon b, s.front.length = s.before.length + 1 := fun s => by
    rw [Semicolon.front, List.length_append]
    rfl
  constructor
  · intro h
    obtain ⟨later, cut, earlier, hcuts, hcut, hnone⟩ := List.findSome?_eq_some_iff.1 h
    have hmem : cut ∈ (cuts b).reverse := by simp [hcuts]
    obtain ⟨s, rfl⟩ := mem_cuts_iff.1 (List.mem_reverse.1 hmem)
    obtain ⟨hworks, hi⟩ := (ofCut_eq_some_iff s).1 hcut
    refine ⟨s, hworks, fun s' hs' => ?_, hi⟩
    -- Another one that works was not passed over, so it comes later in the search.
    have hmem' : (s'.front, s'.after) ∈ (cuts b).reverse :=
      List.mem_reverse.2 (mem_cuts_iff.2 ⟨s', rfl⟩)
    rw [hcuts] at hmem' hsorted
    obtain ⟨-, hearlier, -⟩ := List.pairwise_append.1 hsorted
    rw [s'.byte_le_iff s]
    rcases List.mem_append.1 hmem' with hlater | hmem'
    · exact absurd hs' ((ofCut_eq_none_iff s').1 (hnone _ hlater))
    · rcases List.mem_cons.1 hmem' with heq | hmem'
      · have hlen := congrArg (fun cut => cut.1.length) heq
        simp only [hlength] at hlen
        omega
      · have hlen := (List.pairwise_cons.1 hearlier).1 _ hmem'
        simp only [hlength] at hlen
        omega
  · rintro ⟨s, hworks, hlast, rfl⟩
    have hmem : (s.front, s.after) ∈ (cuts b).reverse :=
      List.mem_reverse.2 (mem_cuts_iff.2 ⟨s, rfl⟩)
    obtain ⟨later, earlier, hcuts⟩ := List.append_of_mem hmem
    refine List.findSome?_eq_some_iff.2
      ⟨later, _, earlier, hcuts, (ofCut_eq_some_iff s).2 ⟨hworks, rfl⟩, fun cut hcut => ?_⟩
    have hcut' : cut ∈ (cuts b).reverse := by
      rw [hcuts]
      exact List.mem_append_left _ hcut
    obtain ⟨s', rfl⟩ := mem_cuts_iff.1 (List.mem_reverse.1 hcut')
    refine (ofCut_eq_none_iff s').2 fun hs' => ?_
    have hle := (s'.byte_le_iff s).1 (hlast s' hs')
    rw [hcuts] at hsorted
    have hlen := (List.pairwise_append.1 hsorted).2.2 _ hcut _ List.mem_cons_self
    simp only [hlength] at hlen
    omega

theorem isSome_findSome?_cuts_iff :
    ((cuts b).reverse.findSome? ofCut).isSome = true ↔ ∃ s : Semicolon b, s.Works := by
  rw [List.findSome?_isSome_iff]
  constructor
  · rintro ⟨cut, hcut, hsome⟩
    obtain ⟨s, rfl⟩ := mem_cuts_iff.1 (List.mem_reverse.1 hcut)
    obtain ⟨i, hi⟩ := Option.isSome_iff_exists.1 hsome
    exact ⟨s, ((ofCut_eq_some_iff s).1 hi).1⟩
  · rintro ⟨s, hworks⟩
    refine ⟨_, List.mem_reverse.2 (mem_cuts_iff.2 ⟨s, rfl⟩), Option.isSome_iff_exists.2 ⟨s.invocation, ?_⟩⟩
    exact (ofCut_eq_some_iff s).2 ⟨hworks, rfl⟩

/-! ## What is cut -/

theorem head?_body (text : List Char) : ∀ c ∈ (body text).head?, isBlank c = false := by
  intro c hc
  refine head?_trim text c ?_
  obtain ⟨semis, -, hsemis⟩ := exists_append_dropEndWhile (· == ';') (trim text)
  obtain ⟨blanks, -, hblanks⟩ :=
    exists_append_dropEndWhile isBlank (dropEndWhile (· == ';') (trim text))
  rw [hsemis, hblanks]
  exact List.mem_head?_append_of_mem_head? (List.mem_head?_append_of_mem_head? hc)

theorem getLast?_body (text : List Char) : ∀ c ∈ (body text).getLast?, isBlank c = false :=
  getLast?_dropEndWhile isBlank _

namespace Semicolon

variable {s : List Char}

/-- Nothing is taken off the front. -/
theorem trim_front (k : Semicolon (body s)) : trim k.front = k.front := by
  refine trim_eq_self (fun c hc => head?_body s c ?_) fun c hc => ?_
  · rw [k.text_eq_append]
    exact List.mem_head?_append_of_mem_head? hc
  · obtain rfl : ';' = c := by simpa [front] using hc
    rfl

/-- Only the blanks before an expression are taken off. -/
theorem exists_blank (k : Semicolon (body s)) (h : trim k.after ≠ []) :
    ∃ w, Blank w ∧ k.after = w ++ trim k.after := by
  obtain ⟨w, hw, hafter⟩ := exists_append_trimStart k.after
  refine ⟨w, hw, ?_⟩
  have hne : trimStart k.after ≠ [] := fun hnil => h (by rw [trim, hnil]; rfl)
  -- What is left ends as the whole text does.
  obtain ⟨c, hc⟩ := Option.ne_none_iff_exists'.1 (mt List.getLast?_eq_none_iff.1 hne)
  have hlast : (body s).getLast? = some c := by
    rw [k.text_eq_append, hafter, ← List.append_assoc, List.getLast?_append_of_ne_nil _ hne, hc]
  rw [trim, trimEnd_of_getLast? hc (getLast?_body s c hlast)]
  exact hafter

end Semicolon

theorem isTail_nil : isTail [] = false := by decide +kernel

/-- **A text is cut behind the last semicolon that works.** A text of which
nothing is left but blanks and semicolons at its end is not cut, and one that is
an expression is not cut in two. Any other is cut exactly if some semicolon
works, and behind the last one that does. The two parts with the blanks between
them are the whole text, and no slice of it divides a character. -/
theorem split_last_semicolon (text : String) :
    (body text.toList = [] → split text = none) ∧
    (isTail (body text.toList) = true → split text = some ⟨none, String.ofList (body text.toList)⟩) ∧
    (isTail (body text.toList) = false →
      ((split text).isSome = true ↔ ∃ s : Semicolon (body text.toList), s.Works) ∧
      ∀ i, split text = some i ↔ ∃ s : Semicolon (body text.toList), s.Works ∧
        (∀ s' : Semicolon (body text.toList), s'.Works → s'.byte ≤ s.byte) ∧ i = s.invocation) ∧
    (∀ p t, split text = some ⟨some p, t⟩ →
      (∃ w, Blank w ∧ body text.toList = p.toList ++ w ++ t.toList) ∧
      p.toList.getLast? = some ';' ∧ trim p.toList = p.toList ∧ trim t.toList = t.toList ∧
      isTail t.toList = true ∧ Harness.statements.accepts p = true) ∧
    ∀ s : Semicolon (body text.toList),
      String.Pos.Raw.IsValid (String.ofList (body text.toList)) ⟨s.byte⟩ ∧
      String.Pos.Raw.IsValid (String.ofList (body text.toList)) ⟨s.byte + 1⟩ ∧
      String.Pos.Raw.extract (String.ofList (body text.toList)) 0 ⟨s.byte + 1⟩ =
        String.ofList s.front ∧
      String.Pos.Raw.extract (String.ofList (body text.toList)) ⟨s.byte + 1⟩
        (String.ofList (body text.toList)).rawEndPos = String.ofList s.after := by
  have hempty : body text.toList = [] → split text = none := fun h => by simp [split, h]
  have hwhole : isTail (body text.toList) = true →
      split text = some ⟨none, String.ofList (body text.toList)⟩ := by
    intro h
    have hne : body text.toList ≠ [] := fun hnil => by
      rw [hnil, isTail_nil] at h
      cases h
    simp [split, h, hne]
  have hcut : isTail (body text.toList) = false →
      split text = (cuts (body text.toList)).reverse.findSome? ofCut := by
    intro h
    by_cases hnil : body text.toList = []
    · rw [hempty hnil, hnil]
      rfl
    · simp [split, h, hnil]
  refine ⟨hempty, hwhole, fun h => ⟨?_, fun i => ?_⟩, fun p t h => ?_, fun s => s.slices⟩
  · rw [hcut h]
    exact isSome_findSome?_cuts_iff
  · rw [hcut h]
    exact findSome?_cuts_iff
  · cases htail : isTail (body text.toList) with
    | true =>
      rw [hwhole htail] at h
      cases h
    | false =>
      rw [hcut htail] at h
      obtain ⟨s, ⟨hne, hexpr, haccepts⟩, -, hparts⟩ := findSome?_cuts_iff.1 h
      obtain ⟨hp, rfl⟩ := Invocation.mk.inj hparts
      obtain rfl := Option.some.inj hp
      obtain ⟨w, hw, hafter⟩ := s.exists_blank hne
      have hlast : s.front.getLast? = some ';' := List.getLast?_concat
      rw [s.trim_front] at haccepts ⊢
      simp only [String.toList_ofList]
      refine ⟨⟨w, hw, ?_⟩, hlast, s.trim_front, ?_, hexpr, haccepts⟩
      · rw [List.append_assoc, ← hafter, ← s.text_eq_append]
      · exact trim_eq_self (head?_trim _) (getLast?_trim _)

/-- A text of many-byte characters, cut behind the last semicolon outside its
literals. -/
example : split "log(\"é;\"); call(ü.get(\"€;\"));;" =
    some ⟨some "log(\"é;\");", "call(ü.get(\"€;\"))"⟩ := by
  decide +kernel

end Invocation

end ProcessCompiler
