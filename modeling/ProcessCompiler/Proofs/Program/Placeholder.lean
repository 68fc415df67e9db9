import ProcessCompiler.Proofs.Program.Shifting
/-!
# Placeholders

An element that has no code yet is a procedure whose action is a comment with
its kind and its id in it. Two such procedures that differ in their ids should
differ in that comment only (`SameButComment`). They do if the ids are each in
one line. What follows a line feed in an id is not in the comment any more, but
spills into lines of code. So two ids make the same procedure but for a comment
exactly if they spill the same lines, or have the same comment and spill lines
that are the same but for a comment (`sameButComment_procedure_iff`).
-/

namespace ProcessCompiler

open Text

namespace Layout

/-! ## Lines of texts that end a line -/

variable {a b t : List Char}

/-- A text in which every line has its end. -/
def EndsLine (t : List Char) : Prop := t = [] ∨ t.getLast? = some '\n'

theorem endsLine_append (a : List Char) : EndsLine (a ++ ['\n']) :=
  .inr List.getLast?_concat

/-- What ends its last line behind a line feed does so on its own. -/
theorem EndsLine.of_append (h : EndsLine (a ++ '\n' :: t)) : EndsLine t := by
  by_cases hne : t = []
  · exact .inl hne
  · rcases h with h | h
    · simp at h
    · right
      rw [List.getLast?_append, List.getLast?_cons] at h
      cases hlast : t.getLast? with
      | none => exact absurd (List.getLast?_eq_none_iff.1 hlast) hne
      | some c => simpa [hlast] using h

/-- A text without line feeds ends no line, if it is not empty. -/
theorem not_endsLine (ha : '\n' ∉ a) (hne : a ≠ []) : ¬EndsLine a := by
  rintro (h | h)
  · exact hne h
  · exact ha (List.mem_of_getLast? h)

/-- Lines that have their ends stay apart from those that follow. -/
theorem EndsLine.lines_append (h : EndsLine a) (b : List Char) :
    lines (a ++ b) = lines a ++ lines b := by
  induction a using lines_induction with
  | nil => rfl
  | last a ha hne => exact absurd h (not_endsLine ha hne)
  | line a rest ha ih =>
    have hrest := ih h.of_append
    rw [List.append_assoc, List.cons_append, Layout.lines_append ha, Layout.lines_append ha, hrest,
      List.cons_append]

/-- Each line feed ends one line. -/
theorem EndsLine.length_lines (h : EndsLine a) : (lines a).length = a.count '\n' := by
  induction a using lines_induction with
  | nil => rfl
  | last a ha hne => exact absurd h (not_endsLine ha hne)
  | line a rest ha ih =>
    have hrest := ih h.of_append
    have hcount := List.count_eq_zero_of_not_mem ha
    rw [Layout.lines_append ha, List.length_cons, List.count_append, List.count_cons_self]
    omega

/-! ## The lines of a function -/

/-- A line of a body, as it stands in the function. -/
def bodyLine (line : List Char) : List Char :=
  if (trim line).isEmpty then [] else dropReturn (List.replicate twoSteps ' ' ++ dropReturn line)

/-- A line keeps being without line feeds when it loses a return. -/
theorem not_mem_dropReturn (ha : '\n' ∉ a) : '\n' ∉ dropReturn a := by
  obtain ⟨front, r, rfl, hfront⟩ := exists_append_replicate a
  rw [dropReturn_append hfront]
  rw [List.mem_append, not_or] at ha ⊢
  exact ⟨ha.1, by simp [List.mem_replicate]⟩

theorem lines_twice {line : List Char} (h : '\n' ∉ line) (rest : List Char) :
    lines (twice line ++ rest) = bodyLine line :: lines rest := by
  rw [twice, bodyLine]
  split_ifs with hblank
  · exact Layout.lines_append List.not_mem_nil rest
  · have hline : '\n' ∉ List.replicate twoSteps ' ' ++ dropReturn line := by
      rw [List.mem_append, not_or]
      exact ⟨by simp [List.mem_replicate], not_mem_dropReturn h⟩
    rw [List.append_assoc, List.singleton_append, Layout.lines_append hline]

/-- **The lines of a body are those of its function**, line by line. -/
theorem lines_body (body : String) (rest : List Char) :
    lines ((indent (indent body)).toList ++ rest) =
      (lines body.toList).map bodyLine ++ lines rest := by
  have hlines : ∀ ls : List (List Char), (∀ line ∈ ls, '\n' ∉ line) →
      lines (ls.flatMap twice ++ rest) = ls.map bodyLine ++ lines rest := by
    intro ls hls
    induction ls with
    | nil => rfl
    | cons line ls ih =>
      rw [List.flatMap_cons, List.append_assoc, lines_twice (hls line List.mem_cons_self),
        ih fun l hl => hls l (List.mem_cons_of_mem _ hl), List.map_cons, List.cons_append]
  rw [indent_indent]
  exact hlines _ fun line hline => not_mem_of_mem_lines hline

/-- What stands before the body of a function. -/
def opening (name params : String) : String :=
  "fn " ++ name ++ "(" ++ params ++ ") -> BoxStep " ++ openBrace ++ "\n" ++
  step ++ "Box::pin(async move " ++ openBrace ++ "\n"

/-- What stands behind it. -/
def closing : String := step ++ closeBrace ++ ")\n" ++ closeBrace ++ "\n"

theorem endsLine_opening (name params : String) : EndsLine (opening name params).toList := by
  have hfeed : "\n".toList = ['\n'] := rfl
  delta opening
  rw [String.toList_append, hfeed]
  exact endsLine_append _

/-- The lines of a function: those before its body, those of its body, and those
behind it. -/
theorem lines_function (name params body : String) :
    lines (function name params body).toList =
      lines (opening name params).toList ++
        ((lines body.toList).map bodyLine ++ lines closing.toList) := by
  have htext : (function name params body).toList =
      (opening name params).toList ++ ((indent (indent body)).toList ++ closing.toList) := by
    delta function opening closing
    simp only [String.toList_append, List.append_assoc]
  rw [htext, (endsLine_opening name params).lines_append, lines_body]

/-! ## The placeholder of an element -/

/-- A line that holds nothing but a comment. -/
def isComment (line : List Char) : Bool := "//".toList.isPrefixOf (trimStart line)

/-- **The same lines, with one exception**: a line that is a comment in both. -/
def SameButComment : List (List Char) → List (List Char) → Prop
  | x :: xs, y :: ys =>
    x = y ∧ SameButComment xs ys ∨ isComment x = true ∧ isComment y = true ∧ xs = ys
  | _, _ => False

instance SameButComment.decidable : DecidableRel SameButComment
  | x :: xs, y :: ys =>
    have := decidable xs ys
    inferInstanceAs (Decidable (x = y ∧ _ ∨ _))
  | [], _ => isFalse id
  | _ :: _, [] => isFalse id

theorem SameButComment.length_eq {xs ys : List (List Char)} (h : SameButComment xs ys) :
    xs.length = ys.length := by
  induction xs generalizing ys with
  | nil => exact h.elim
  | cons x xs ih =>
    cases ys with
    | nil => exact h.elim
    | cons y ys =>
      rcases h with ⟨-, h⟩ | ⟨-, -, rfl⟩
      · rw [List.length_cons, List.length_cons, ih h]
      · rfl

/-- The exception may stand behind any lines. -/
theorem SameButComment.append {xs ys : List (List Char)} (h : SameButComment xs ys)
    (front : List (List Char)) : SameButComment (front ++ xs) (front ++ ys) := by
  induction front with
  | nil => exact h
  | cons x front ih => exact .inl ⟨rfl, ih⟩

theorem sameButComment_cons_iff {x y : List Char} {xs ys : List (List Char)}
    (hx : isComment x = true) (hy : isComment y = true) :
    SameButComment (x :: xs) (y :: ys) ↔ xs = ys ∨ x = y ∧ SameButComment xs ys := by
  simp only [SameButComment, hx, hy, true_and]
  exact or_comm

/-- Lines before a comment make no difference. -/
theorem sameButComment_append_left_iff {x : List Char} {xs ys : List (List Char)}
    (hx : isComment x = true) (front : List (List Char)) :
    SameButComment (front ++ x :: xs) (front ++ ys) ↔ SameButComment (x :: xs) ys := by
  refine ⟨fun h => ?_, fun h => h.append front⟩
  induction front with
  | nil => exact h
  | cons y front ih =>
    rcases h with ⟨-, h⟩ | ⟨-, -, h⟩
    · exact ih h
    · rw [← List.append_cancel_left h]
      exact .inr ⟨hx, hx, rfl⟩

/-- Nor do lines behind it, as long as those before them are as many. -/
theorem SameButComment.of_append_right {xs ys back : List (List Char)}
    (h : SameButComment (xs ++ back) (ys ++ back)) : xs = ys ∨ SameButComment xs ys := by
  have hlength : xs.length = ys.length := by simpa using h.length_eq
  induction xs generalizing ys with
  | nil => exact .inl (List.eq_nil_of_length_eq_zero hlength.symm).symm
  | cons x xs ih =>
    obtain ⟨y, ys, rfl⟩ := List.exists_cons_of_length_eq_add_one hlength.symm
    rcases h with ⟨rfl, h⟩ | ⟨hx, hy, h⟩
    · rcases ih h (Nat.succ.inj hlength) with rfl | hsame
      · exact .inl rfl
      · exact .inr (.inl ⟨rfl, hsame⟩)
    · exact .inr (.inr ⟨hx, hy, List.append_cancel_right h⟩)

theorem SameButComment.append_right {xs ys : List (List Char)} (h : SameButComment xs ys)
    (back : List (List Char)) : SameButComment (xs ++ back) (ys ++ back) := by
  induction xs generalizing ys with
  | nil => exact h.elim
  | cons x xs ih =>
    obtain ⟨y, ys, rfl⟩ := List.exists_cons_of_length_eq_add_one h.length_eq.symm
    rcases h with ⟨rfl, h⟩ | ⟨hx, hy, rfl⟩
    · exact .inl ⟨rfl, ih h⟩
    · exact .inr ⟨hx, hy, rfl⟩

/-- What a placeholder says before the id. -/
def label (kind : ElementKind) : String := "// unimplemented: " ++ kind.text ++ " "

/-- The comment that stands in for the code of an element. -/
def placeholder (kind : ElementKind) (id : String) : List Char := (label kind).toList ++ id.toList

/-- The lines of a placeholder, as they stand in its procedure. -/
def placeholderLines (kind : ElementKind) (id : String) : List (List Char) :=
  (lines (placeholder kind id ++ ['\n'])).map bodyLine

variable {id : String}

theorem count_label (kind : ElementKind) : (label kind).toList.count '\n' = 0 := by
  cases kind <;> decide +kernel

theorem count_placeholder (kind : ElementKind) (id : String) :
    (placeholder kind id).count '\n' = id.toList.count '\n' := by
  rw [placeholder, List.count_append, count_label, Nat.zero_add]

/-- A placeholder has one line more than its id has line feeds. -/
theorem length_placeholderLines (kind : ElementKind) (id : String) :
    (placeholderLines kind id).length = id.toList.count '\n' + 1 := by
  rw [placeholderLines, List.length_map, (endsLine_append _).length_lines, List.count_append,
    count_placeholder]
  rfl

/-- A return is lost at the end only. -/
theorem dropReturn_append_of_ne {u : List Char} (hlast : u.getLast? ≠ some '\r')
    (v : List Char) : dropReturn (u ++ v) = u ++ dropReturn v := by
  obtain ⟨front, r, rfl, hfront⟩ := exists_append_replicate v
  have hboth : (u ++ front).getLast? ≠ some '\r' := by
    rw [List.getLast?_append]
    cases hend : front.getLast? with
    | none => simpa using hlast
    | some c => simpa [hend] using hfront
  rw [dropReturn_append hfront, ← List.append_assoc, dropReturn_append hboth, List.append_assoc]

/-- A comment of a body is one in the function, whatever it says. -/
theorem isComment_bodyLine (rest : List Char) :
    isComment (bodyLine ("// ".toList ++ rest)) = true := by
  have hblank : ¬(trim ("// ".toList ++ rest)).isEmpty = true := by
    rw [trim_isEmpty_iff]
    intro hall
    cases hall '/' List.mem_cons_self
  have hmark : "// ".toList.getLast? ≠ some '\r' := by decide
  have hshift : (List.replicate twoSteps ' ' ++ "// ".toList).getLast? ≠ some '\r' := by decide
  rw [bodyLine, if_neg hblank, dropReturn_append_of_ne hmark, ← List.append_assoc,
    dropReturn_append_of_ne hshift]
  rfl

/-- The comment of a placeholder, with the id up to its first line feed. -/
def commentLine (kind : ElementKind) (id : String) : List Char :=
  bodyLine (dropReturn ((label kind).toList ++ id.toList.takeWhile (· != '\n')))

/-- The lines that an id spills behind its comment. -/
def spilled (id : String) : List (List Char) :=
  match id.toList.dropWhile (· != '\n') with
  | [] => []
  | _ :: rest => (lines (rest ++ ['\n'])).map bodyLine

theorem isComment_commentLine (kind : ElementKind) (id : String) :
    isComment (commentLine kind id) = true := by
  have hmark : (label kind).toList =
      "// ".toList ++ ("unimplemented: ".toList ++ (kind.text.toList ++ " ".toList)) := by
    unfold label
    simp only [String.toList_append, List.append_assoc]
    rfl
  have hlast : "// ".toList.getLast? ≠ some '\r' := by decide
  rw [commentLine, hmark, List.append_assoc, dropReturn_append_of_ne hlast]
  exact isComment_bodyLine _

/-- **A placeholder is a comment, and what the id spills.** -/
theorem placeholderLines_eq (kind : ElementKind) (id : String) :
    placeholderLines kind id = commentLine kind id :: spilled id := by
  have hfirst : '\n' ∉ (label kind).toList ++ id.toList.takeWhile (· != '\n') := by
    rw [List.mem_append, not_or]
    exact ⟨List.count_eq_zero.1 (count_label kind), fun hmem => by simpa using List.mem_takeWhile_imp hmem⟩
  unfold placeholderLines placeholder spilled commentLine
  nth_rewrite 1 [← List.takeWhile_append_dropWhile (p := (· != '\n')) (l := id.toList)]
  cases hrest : id.toList.dropWhile (· != '\n') with
  | nil =>
    rw [List.append_nil, Layout.lines_append hfirst]
    rfl
  | cons c rest =>
    obtain rfl : c = '\n' := by
      have hc := List.head?_dropWhile_not (· != '\n') id.toList
      rw [hrest] at hc
      simpa using hc
    rw [← List.append_assoc, List.append_assoc _ ('\n' :: rest), List.cons_append,
      Layout.lines_append hfirst]
    rfl

/-- An id spills as many lines as it has line feeds. -/
theorem length_spilled (id : String) : (spilled id).length = id.toList.count '\n' := by
  have hlength := length_placeholderLines .endEvent id
  rw [placeholderLines_eq] at hlength
  exact Nat.succ.inj hlength

theorem spilled_eq_nil_iff : spilled id = [] ↔ '\n' ∉ id.toList := by
  rw [← List.length_eq_zero_iff, length_spilled, List.count_eq_zero]

/-! ## Procedures without code -/

variable {sharing : ContextSharing} {p : Procedure}

/-- **Where the id stands in the lines of a procedure without code**: in those of
its placeholder, and nowhere else. -/
theorem exists_lines_procedure (sharing : ContextSharing) (hp : p.action = .unimplemented) :
    ∃ front back, ∀ id, lines (procedure sharing { p with nodeId := id }).toList =
      front ++ (placeholderLines p.kind id ++ back) := by
  refine ⟨lines (opening p.name procedureParams).toList,
    (lines (continuation sharing p.then_).toList).map bodyLine ++ lines closing.toList, ?_⟩
  intro id
  have hbody : (action p.kind id .unimplemented ++ continuation sharing p.then_).toList =
      placeholder p.kind id ++ ['\n'] ++ (continuation sharing p.then_).toList := by
    unfold action placeholder label
    simp only [String.toList_append, List.append_assoc]
    rfl
  have hprocedure : procedure sharing { p with nodeId := id } =
      function p.name procedureParams
        (action p.kind id .unimplemented ++ continuation sharing p.then_) := by
    simp only [procedure, hp]
  rw [hprocedure, lines_function, hbody, (endsLine_append _).lines_append, List.map_append,
    List.append_assoc]
  rfl

/-- **The id of an element without code changes a comment, unless it has a line
feed.** With another id the lines of the procedure are the same but for one line,
a comment with either id, exactly if both spill the same lines, or have the same
comment and spill lines that are the same but for a comment. An id in one line
spills none, so the other id has to be in one line, too. -/
theorem sameButComment_procedure_iff (sharing : ContextSharing) (hp : p.action = .unimplemented)
    (id : String) :
    (SameButComment (lines (procedure sharing p).toList)
        (lines (procedure sharing { p with nodeId := id }).toList) ↔
      spilled p.nodeId = spilled id ∨
        commentLine p.kind p.nodeId = commentLine p.kind id ∧
          SameButComment (spilled p.nodeId) (spilled id)) ∧
    ('\n' ∉ p.nodeId.toList →
      (SameButComment (lines (procedure sharing p).toList)
          (lines (procedure sharing { p with nodeId := id }).toList) ↔
        '\n' ∉ id.toList)) := by
  have hiff : SameButComment (lines (procedure sharing p).toList)
      (lines (procedure sharing { p with nodeId := id }).toList) ↔
        spilled p.nodeId = spilled id ∨ commentLine p.kind p.nodeId = commentLine p.kind id ∧
          SameButComment (spilled p.nodeId) (spilled id) := by
    obtain ⟨front, back, hlines⟩ := exists_lines_procedure sharing hp
    have hcomment := isComment_commentLine p.kind
    rw [show procedure sharing p = procedure sharing { p with nodeId := p.nodeId } from rfl,
      hlines, hlines, placeholderLines_eq, placeholderLines_eq, List.cons_append, List.cons_append,
      sameButComment_append_left_iff (hcomment _), sameButComment_cons_iff (hcomment _) (hcomment _)]
    constructor
    · rintro (hsame | ⟨hline, hsame⟩)
      · exact .inl (List.append_cancel_right hsame)
      · exact hsame.of_append_right.imp_right (And.intro hline)
    · rintro (hsame | ⟨hline, hsame⟩)
      · exact .inl (congrArg (· ++ back) hsame)
      · exact .inr ⟨hline, hsame.append_right back⟩
  refine ⟨hiff, fun hid => ?_⟩
  -- Nothing is the same as no lines but for a comment.
  have hnone := spilled_eq_nil_iff.2 hid
  rw [hiff, hnone, ← spilled_eq_nil_iff]
  constructor
  · rintro (hsame | ⟨-, hsame⟩)
    · exact hsame.symm
    · exact hsame.elim
  · exact fun hsame => .inl hsame.symm

/-- The procedure of an end event. -/
def sampleEnd : Procedure := ⟨"End_1", "End_1", .endEvent, .unimplemented, .halt⟩

/-- One whose id has a line feed. -/
def spillingEnd : Procedure := { sampleEnd with nodeId := "End_1\nstop();" }

/-- Carriage returns and comment marks in an id do no harm, and neither do line
feeds behind which both ids go on alike. -/
theorem sameButComment_end :
    sampleEnd.action = .unimplemented ∧
      SameButComment (lines (procedure .shared sampleEnd).toList)
        (lines (procedure .shared { sampleEnd with nodeId := "*/ stop();\r" }).toList) ∧
      SameButComment (lines (procedure .shared spillingEnd).toList)
        (lines (procedure .shared { spillingEnd with nodeId := "End_2\nstop();" }).toList) := by
  have hid : '\n' ∉ sampleEnd.nodeId.toList := by decide
  refine ⟨rfl, ?_, ?_⟩
  · rw [(sameButComment_procedure_iff .shared rfl _).2 hid]
    decide +kernel
  · have hspilled : spilled spillingEnd.nodeId = spilled "End_2\nstop();" := by decide +kernel
    rw [(sameButComment_procedure_iff (p := spillingEnd) .shared rfl _).1]
    exact .inl hspilled

/-- **An id with a line feed puts code into its procedure.** -/
theorem not_sameButComment_feed :
    ¬SameButComment (lines (procedure .shared sampleEnd).toList)
        (lines (procedure .shared spillingEnd).toList) ∧
      "        stop();".toList ∈ lines (procedure .shared spillingEnd).toList := by
  decide +kernel

end Layout

end ProcessCompiler
