import ProcessCompiler.Proofs.Markup.Tag
/-!
# Trees of markup

Plain markup is a tree of elements, each with attributes and with either a text
or other elements inside. `Tree.write` writes a tree as a text, and the content
of this text is the tree again (`ofText_write`): scanning it gives its pieces
(`scanFrom_write`), and the pieces nest as the tree does (`nestFrom_pieces`).
-/

namespace ProcessCompiler

namespace Markup

/-! ## Writing trees -/

/-- An element around a body. With `short` one without a body is a single
tag. -/
def elementText (short : Bool) (name : String) (attributes : List (String × String))
    (body : List Char) : List Char :=
  if short && body.isEmpty then '<' :: (tagText name attributes ++ ['/', '>'])
  else '<' :: (tagText name attributes ++ '>' :: (body ++ '<' :: '/' :: (name.toList ++ ['>'])))

/-- **Plain markup**: an element with a text, or with other elements. -/
inductive Tree where
  | leaf (name : String) (attributes : List (String × String)) (text : String)
  | branch (name : String) (attributes : List (String × String)) (children : List Tree)

namespace Tree

mutual

/-- The text of a tree. -/
def write (short : Bool) : Tree → List Char
  | leaf name attributes text => elementText short name attributes (encode text.toList)
  | branch name attributes children =>
    elementText short name attributes (writeAll short children)

/-- The texts of trees in a row. -/
def writeAll (short : Bool) : List Tree → List Char
  | [] => []
  | t :: rest => t.write short ++ writeAll short rest

end

mutual

/-- The tree as content. -/
def content : Tree → Content
  | leaf name attributes text =>
    .element name.toList (tagText name attributes) (textContent text)
  | branch name attributes children =>
    .element name.toList (tagText name attributes) (contentAll children)

/-- Trees as content. -/
def contentAll : List Tree → List Content
  | [] => []
  | t :: rest => t.content :: contentAll rest

end

end Tree

namespace Tree

mutual

/-- **A plain tree**: all its tags are plain, and its texts have no blanks at
their ends. -/
def Plain : Tree → Prop
  | leaf name attributes text => PlainTag name attributes ∧ Bounded text.toList
  | branch name attributes children => PlainTag name attributes ∧ PlainAll children

/-- All trees are plain. -/
def PlainAll : List Tree → Prop
  | [] => True
  | t :: rest => t.Plain ∧ PlainAll rest

end

theorem contentAll_eq_map (ts : List Tree) : contentAll ts = ts.map content := by
  induction ts with
  | nil => rfl
  | cons t ts ih => rw [contentAll, ih, List.map_cons]

theorem plainAll_iff {ts : List Tree} : PlainAll ts ↔ ∀ t ∈ ts, t.Plain := by
  induction ts with
  | nil => simp [PlainAll]
  | cons t ts ih => rw [PlainAll, ih, List.forall_mem_cons]

end Tree

/-! ## Tags as pieces -/

section Tags

variable {name : String} (attributes : List (String × String))

theorem tagPiece_tagText (h : isName name = true) :
    tagPiece (tagText name attributes) = .opening (tagText name attributes) := by
  obtain ⟨c, cs, htag, hchar⟩ := exists_tagText_eq_cons attributes h
  have hne : c ≠ '/' := ne_slash_of_isNameChar hchar
  have hlast := getLast?_tagText_ne attributes h
  rw [htag] at hlast ⊢
  simp [tagPiece, hne, hlast]

theorem tagPiece_lone (h : isName name = true) :
    tagPiece (tagText name attributes ++ ['/']) = .lone (tagText name attributes) := by
  obtain ⟨c, cs, htag, hchar⟩ := exists_tagText_eq_cons attributes h
  have hne : c ≠ '/' := ne_slash_of_isNameChar hchar
  have hlast : (c :: cs ++ ['/']).getLast? = some '/' := List.getLast?_concat
  have hinit : (c :: cs ++ ['/']).dropLast = c :: cs := List.dropLast_concat
  rw [htag]
  rw [List.cons_append] at hlast hinit ⊢
  simp [tagPiece, hne, hlast, hinit]

theorem tagPiece_closing (h : isName name = true) :
    tagPiece ('/' :: name.toList) = .closing name.toList := by
  have hspace : ∀ c ∈ name.toList, isSpace c = false := fun c hc => by
    simpa using not_isSpace_of_mem_name h hc
  have hbounded : Bounded name.toList :=
    ⟨fun c hc => hspace c (List.mem_of_mem_head? hc),
      fun c hc => hspace c (List.mem_of_getLast? hc)⟩
  obtain ⟨c, cs, hcs⟩ := exists_cons_of_isName h
  have hall : ¬name.toList.all isSpace = true := by simp [hcs, hspace c (by simp [hcs])]
  have hend := hbounded.dropSpaceEnd_eq
  rw [dropSpaceEnd] at hend
  rw [tagPiece, closingName, if_neg hall, hend]

end Tags

/-! ## Scanning a tree -/

/-- A part of a tag that the scan passes, outside of quotes before it and
behind it. -/
def Closed (cs : List Char) : Prop :=
  ∀ read rest,
    scanFrom (.tag none read) (cs ++ rest) = scanFrom (.tag none (cs.reverse ++ read)) rest

theorem Closed.append {cs ds : List Char} (hc : Closed cs) (hd : Closed ds) :
    Closed (cs ++ ds) := by
  intro read rest
  rw [List.append_assoc, hc, hd, List.reverse_append, List.append_assoc]

/-- Inert characters are passed. -/
theorem closed_of_inert {cs : List Char} (h : ∀ c ∈ cs, isInert c = true) : Closed cs := by
  induction cs with
  | nil => exact fun _ _ => rfl
  | cons c cs ih =>
    obtain ⟨hc, hcs⟩ := List.forall_mem_cons.1 h
    intro read rest
    simp only [isInert, Bool.and_eq_true, bne_iff_ne, ne_eq] at hc
    obtain ⟨⟨⟨-, hgt⟩, hquote⟩, hapos⟩ := hc
    have hstep : scanFrom (.tag none read) (c :: (cs ++ rest)) =
        scanFrom (.tag none (c :: read)) (cs ++ rest) := by
      simp [scanFrom, tagState, hgt, hquote, hapos]
    rw [List.cons_append, hstep, ih hcs, List.reverse_cons, List.append_assoc,
      List.singleton_append]

/-- Inside quotes inert characters are passed. -/
theorem scanFrom_quoted {cs : List Char} (h : ∀ c ∈ cs, isInert c = true)
    (read rest : List Char) :
    scanFrom (.tag (some '"') read) (cs ++ '"' :: rest) =
      scanFrom (.tag none ('"' :: (cs.reverse ++ read))) rest := by
  induction cs generalizing read with
  | nil => simp [scanFrom, tagState]
  | cons c cs ih =>
    obtain ⟨hc, hcs⟩ := List.forall_mem_cons.1 h
    simp only [isInert, Bool.and_eq_true, bne_iff_ne, ne_eq] at hc
    have hstep : scanFrom (.tag (some '"') read) (c :: (cs ++ '"' :: rest)) =
        scanFrom (.tag (some '"') (c :: read)) (cs ++ '"' :: rest) := by
      simp [scanFrom, tagState, hc]
    rw [List.cons_append, hstep, ih hcs, List.reverse_cons, List.append_assoc,
      List.singleton_append]

theorem closed_attributeText {a : String × String} (h : isName a.1 = true) :
    Closed (attributeText a) := by
  have hkey : Closed (' ' :: (a.1.toList ++ ['='])) := by
    refine closed_of_inert fun c hc => ?_
    rcases List.mem_cons.1 hc with rfl | hc
    · rfl
    · rcases List.mem_append.1 hc with hc | hc
      · exact isInert_of_mem_name h hc
      · rw [List.mem_singleton.1 hc]
        rfl
  have hvalue : Closed ('"' :: (encode a.2.toList ++ ['"'])) := by
    intro read rest
    have hopen : scanFrom (.tag none read) ('"' :: (encode a.2.toList ++ '"' :: rest)) =
        scanFrom (.tag (some '"') ('"' :: read)) (encode a.2.toList ++ '"' :: rest) := by
      simp [scanFrom, tagState]
    rw [List.cons_append, List.append_assoc, List.singleton_append, hopen,
      scanFrom_quoted fun c => isInert_of_mem_encode]
    simp
  have hboth := hkey.append hvalue
  rwa [List.cons_append, List.append_assoc, List.singleton_append] at hboth

theorem closed_tagText {name : String} {attributes : List (String × String)}
    (h : PlainTag name attributes) : Closed (tagText name attributes) := by
  refine (closed_of_inert fun c => isInert_of_mem_name h.named).append ?_
  -- Only the keys matter here: that no key stands there twice would be in the
  -- way of the induction.
  have hkeys := h.keys
  clear h
  induction attributes with
  | nil => exact fun _ _ => rfl
  | cons a rest ih =>
    obtain ⟨ha, hrest⟩ := List.forall_mem_cons.1 hkeys
    exact (closed_attributeText ha).append (ih hrest)

/-- Some pieces in front of others. -/
def Pieces.append (items : List Piece) (rest : Pieces) : Pieces :=
  ⟨items ++ rest.items, rest.fault⟩

theorem Pieces.append_append (items more : List Piece) (rest : Pieces) :
    append items (append more rest) = append (items ++ more) rest := by
  rw [append, append, append, List.append_assoc]

/-- The pieces of an element around those of its body. -/
def elementPieces (short : Bool) (name : String) (attributes : List (String × String))
    (body : List Piece) : List Piece :=
  if short && body.isEmpty then [.lone (tagText name attributes)]
  else .opening (tagText name attributes) :: (body ++ [.closing name.toList])

/-- The pieces of a text. -/
def textPieces (s : String) : List Piece :=
  if s.isEmpty then [] else [.text (.plain (encode s.toList))]

namespace Tree

mutual

/-- The pieces of a tree. -/
def pieces (short : Bool) : Tree → List Piece
  | leaf name attributes text => elementPieces short name attributes (textPieces text)
  | branch name attributes children =>
    elementPieces short name attributes (piecesAll short children)

/-- The pieces of trees in a row. -/
def piecesAll (short : Bool) : List Tree → List Piece
  | [] => []
  | t :: rest => t.pieces short ++ piecesAll short rest

end

end Tree

/-- What stands between brackets makes a piece, unless it begins with a
mark. -/
theorem scanFrom_opened {c : Char} {cs : List Char} (h : Closed (c :: cs))
    (hmark : c ≠ '!' ∧ c ≠ '?' ∧ c ≠ '>') (rest : List Char) :
    scanFrom .opened (c :: (cs ++ '>' :: rest)) =
      .append [tagPiece (c :: cs)] (scanFrom (.text []) rest) := by
  have hstep : scanFrom .opened (c :: (cs ++ '>' :: rest)) =
      scanFrom (.tag none []) (c :: cs ++ '>' :: rest) := by
    simp [scanFrom, hmark]
  rw [hstep, h, List.append_nil]
  simp [scanFrom, Pieces.cons, Pieces.append]

section Scanning

variable {name : String} {attributes : List (String × String)} (h : PlainTag name attributes)

include h

theorem scanFrom_opening (rest : List Char) :
    scanFrom .opened (tagText name attributes ++ '>' :: rest) =
      .append [.opening (tagText name attributes)] (scanFrom (.text []) rest) := by
  obtain ⟨c, cs, htag, hchar⟩ := exists_tagText_eq_cons attributes h.named
  have hclosed := closed_tagText h
  rw [← tagPiece_tagText attributes h.named]
  rw [htag] at hclosed ⊢
  exact scanFrom_opened hclosed (ne_of_isNameChar hchar) rest

theorem scanFrom_lone (rest : List Char) :
    scanFrom .opened (tagText name attributes ++ '/' :: '>' :: rest) =
      .append [.lone (tagText name attributes)] (scanFrom (.text []) rest) := by
  obtain ⟨c, cs, htag, hchar⟩ := exists_tagText_eq_cons attributes h.named
  have hclosed : Closed (tagText name attributes ++ ['/']) :=
    (closed_tagText h).append (closed_of_inert (List.forall_mem_singleton.2 rfl))
  rw [← tagPiece_lone attributes h.named, List.append_cons]
  rw [htag, List.cons_append] at hclosed ⊢
  exact scanFrom_opened hclosed (ne_of_isNameChar hchar) rest

theorem scanFrom_closing (rest : List Char) :
    scanFrom .opened ('/' :: (name.toList ++ '>' :: rest)) =
      .append [.closing name.toList] (scanFrom (.text []) rest) := by
  have hclosed : Closed ('/' :: name.toList) := by
    refine closed_of_inert fun c hc => ?_
    rcases List.mem_cons.1 hc with rfl | hc
    · rfl
    · exact isInert_of_mem_name h.named hc
  rw [← tagPiece_closing h.named]
  exact scanFrom_opened hclosed (by decide) rest

/-- The pieces of an element, given those of its body. -/
theorem scanFrom_elementText (short : Bool) {body : List Char} {items : List Piece}
    (hbody : ∀ rest, scanFrom (.text []) (body ++ '<' :: rest) =
      .append items (scanFrom .opened rest))
    (hnil : body = [] ↔ items = []) (rest : List Char) :
    scanFrom (.text []) (elementText short name attributes body ++ rest) =
      .append (elementPieces short name attributes items) (scanFrom (.text []) rest) := by
  have hopen : ∀ cs, scanFrom (.text []) ('<' :: cs) = scanFrom .opened cs := by
    intro cs
    simp [scanFrom, Pieces.consText]
  have hempty : body.isEmpty = items.isEmpty := by
    rw [Bool.eq_iff_iff, List.isEmpty_iff, List.isEmpty_iff, hnil]
  rw [elementText, elementPieces, hempty]
  split
  · rw [List.cons_append, hopen, List.append_assoc]
    exact scanFrom_lone h rest
  · simp only [List.cons_append, List.append_assoc, List.nil_append]
    rw [hopen, scanFrom_opening h, hbody, scanFrom_closing h, Pieces.append_append,
      Pieces.append_append, List.append_assoc]
    rfl

end Scanning

/-- Outside of tags inert characters are passed up to the next bracket. -/
theorem scanFrom_inert {cs : List Char} (h : ∀ c ∈ cs, isInert c = true)
    (read rest : List Char) :
    scanFrom (.text read) (cs ++ '<' :: rest) =
      .consText (cs.reverse ++ read).reverse (scanFrom .opened rest) := by
  induction cs generalizing read with
  | nil => simp [scanFrom]
  | cons c cs ih =>
    obtain ⟨hc, hcs⟩ := List.forall_mem_cons.1 h
    have hlt : c ≠ '<' := by
      rintro rfl
      exact absurd hc (by decide)
    have hstep : scanFrom (.text read) (c :: (cs ++ '<' :: rest)) =
        scanFrom (.text (c :: read)) (cs ++ '<' :: rest) := by
      simp [scanFrom, hlt]
    rw [List.cons_append, hstep, ih hcs, List.reverse_cons, List.append_assoc,
      List.singleton_append]

/-- The piece of a text in front of a tag. -/
theorem scanFrom_encode (s : String) (rest : List Char) :
    scanFrom (.text []) (encode s.toList ++ '<' :: rest) =
      .append (textPieces s) (scanFrom .opened rest) := by
  rw [scanFrom_inert (fun c => isInert_of_mem_encode), List.append_nil, List.reverse_reverse]
  -- Between two tags that touch there is no piece.
  by_cases hs : s = ""
  · subst hs
    rfl
  · have hne : encode s.toList ≠ [] := mt encode_eq_nil_iff.1 (by simpa using hs)
    rw [Pieces.consText, if_neg (by simpa using hne), textPieces, if_neg (by simpa using hs)]
    rfl

theorem elementText_ne_nil (short : Bool) (name : String) (attributes : List (String × String))
    (body : List Char) : ∃ cs, elementText short name attributes body = '<' :: cs := by
  rw [elementText]
  split <;> exact ⟨_, rfl⟩

theorem elementPieces_ne_nil (short : Bool) (name : String) (attributes : List (String × String))
    (body : List Piece) : elementPieces short name attributes body ≠ [] := by
  rw [elementPieces]
  split <;> exact List.cons_ne_nil _ _

namespace Tree

/-- A tree begins with a bracket. -/
theorem exists_write_eq_cons (short : Bool) (t : Tree) : ∃ cs, t.write short = '<' :: cs := by
  cases t <;> exact elementText_ne_nil _ _ _ _

theorem pieces_ne_nil (short : Bool) (t : Tree) : t.pieces short ≠ [] := by
  cases t <;> exact elementPieces_ne_nil _ _ _ _

theorem writeAll_eq_nil_iff (short : Bool) (ts : List Tree) :
    writeAll short ts = [] ↔ piecesAll short ts = [] := by
  cases ts with
  | nil => exact ⟨fun _ => rfl, fun _ => rfl⟩
  | cons t ts =>
    obtain ⟨cs, hcs⟩ := exists_write_eq_cons short t
    simp [writeAll, piecesAll, hcs, pieces_ne_nil]

mutual

/-- **Scanning a tree** gives its pieces. -/
theorem scanFrom_write (short : Bool) : ∀ (t : Tree), t.Plain → ∀ rest,
    scanFrom (.text []) (t.write short ++ rest) =
      .append (t.pieces short) (scanFrom (.text []) rest)
  | leaf name attributes text, hplain, rest => by
    refine scanFrom_elementText hplain.1 short (scanFrom_encode text) ?_ rest
    rw [encode_eq_nil_iff, textPieces]
    simp
  | branch name attributes children, hplain, rest => by
    refine scanFrom_elementText hplain.1 short (fun more => ?_) (writeAll_eq_nil_iff short children)
      rest
    rw [scanFrom_writeAll short children hplain.2]
    simp [scanFrom, Pieces.consText]

/-- Scanning trees in a row gives their pieces. -/
theorem scanFrom_writeAll (short : Bool) : ∀ (ts : List Tree), PlainAll ts → ∀ rest,
    scanFrom (.text []) (writeAll short ts ++ rest) =
      .append (piecesAll short ts) (scanFrom (.text []) rest)
  | [], _, _ => rfl
  | t :: ts, hplain, rest => by
    rw [writeAll, piecesAll, List.append_assoc, scanFrom_write short t hplain.1,
      scanFrom_writeAll short ts hplain.2, Pieces.append_append]

end

end Tree

/-! ## Nesting the pieces of a tree -/

section Nesting

open Content (Frame nestFrom tagName)

/-- An element is closed by the tag of its name, whatever it holds. -/
theorem nestFrom_elementPieces {name : String} {attributes : List (String × String)}
    (h : isName name = true) (short : Bool) {fault : Option MarkupError} {items : List Piece}
    {children : List Content}
    (hbody : ∀ frames rest,
      nestFrom fault frames [] (items ++ rest) = nestFrom fault frames children.reverse rest)
    (hnil : items = [] → children = []) (frames : List Frame) (before : List Content)
    (rest : List Piece) :
    nestFrom fault frames before (elementPieces short name attributes items ++ rest) =
      nestFrom fault frames
        (.element name.toList (tagText name attributes) children :: before) rest := by
  have hname : tagName (tagText name attributes) = name.toList := takeWhile_tagText attributes h
  rw [elementPieces]
  split
  next hshort =>
    rw [Bool.and_eq_true, List.isEmpty_iff] at hshort
    rw [List.singleton_append, nestFrom, hname, hnil hshort.2]
  next =>
    rw [List.cons_append, List.append_assoc, nestFrom, hbody, List.singleton_append, nestFrom,
      if_pos hname, List.reverse_reverse, hname]

theorem nestFrom_textPieces (fault : Option MarkupError) (s : String) (frames : List Frame)
    (rest : List Piece) :
    nestFrom fault frames [] (textPieces s ++ rest) =
      nestFrom fault frames (textContent s).reverse rest := by
  rw [textPieces, textContent]
  split <;> rfl

namespace Tree

mutual

/-- **The pieces of a tree** nest as the tree does. -/
theorem nestFrom_pieces (short : Bool) (fault : Option MarkupError) : ∀ (t : Tree), t.Plain →
    ∀ frames before rest, nestFrom fault frames before (t.pieces short ++ rest) =
      nestFrom fault frames (t.content :: before) rest
  | leaf name attributes text, hplain, frames, before, rest => by
    refine nestFrom_elementPieces hplain.1.named short (nestFrom_textPieces fault text) ?_
      frames before rest
    rw [textPieces, textContent]
    split <;> simp
  | branch name attributes children, hplain, frames, before, rest => by
    refine nestFrom_elementPieces hplain.1.named short (fun frames rest => ?_) ?_ frames before rest
    · rw [nestFrom_piecesAll short fault children hplain.2, List.append_nil]
    · cases children with
      | nil => exact fun _ => rfl
      | cons t ts => simp [piecesAll, pieces_ne_nil]

/-- The pieces of trees in a row nest as the trees do. -/
theorem nestFrom_piecesAll (short : Bool) (fault : Option MarkupError) : ∀ (ts : List Tree),
    PlainAll ts → ∀ frames before rest,
    nestFrom fault frames before (piecesAll short ts ++ rest) =
      nestFrom fault frames ((contentAll ts).reverse ++ before) rest
  | [], _, _, _, _ => rfl
  | t :: ts, hplain, frames, before, rest => by
    rw [piecesAll, List.append_assoc, nestFrom_pieces short fault t hplain.1,
      nestFrom_piecesAll short fault ts hplain.2, contentAll, List.reverse_cons, List.append_assoc,
      List.singleton_append]

end

/-- **The content of a written tree** is the tree. -/
theorem ofText_write (short : Bool) {t : Tree} (h : t.Plain) :
    Content.ofText (String.ofList (t.write short)) = [t.content, .broken none] := by
  obtain ⟨cs, hcs⟩ := exists_write_eq_cons short t
  have hscan := scanFrom_write short t h []
  have hpieces : Markup.pieces (t.write short) = ⟨t.pieces short, none⟩ := by
    rw [hcs, Markup.pieces, if_neg (by decide), ← hcs]
    simpa [scanFrom, Pieces.ending, Pieces.consText, Pieces.append] using hscan
  have hnest := nestFrom_pieces short none t h [] [] []
  rw [List.append_nil] at hnest
  rw [Content.ofText, String.toList_ofList, hpieces]
  exact hnest

end Tree

end Nesting

/-! ## Faults of a tree -/

namespace Tree

mutual

/-- **A plain tree has no faults.** -/
theorem survey_content : ∀ t : Tree, t.Plain → Content.survey t.content = .ok ()
  | leaf name attributes text, hplain => by
    rw [content, Content.survey, hplain.1.binds]
    exact surveyAll_textContent hplain.2
  | branch name attributes children, hplain => by
    rw [content, Content.survey, hplain.1.binds]
    exact surveyAll_contentAll children hplain.2

/-- Plain trees have no faults. -/
theorem surveyAll_contentAll : ∀ ts : List Tree, PlainAll ts →
    Content.surveyAll (contentAll ts) = .ok ()
  | [], _ => rfl
  | t :: ts, hplain => by
    rw [contentAll, Content.surveyAll, survey_content t hplain.1]
    exact surveyAll_contentAll ts hplain.2

end

end Tree

end Markup

end ProcessCompiler
