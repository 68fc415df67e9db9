import Mathlib.Data.List.Induction
import Mathlib.Data.List.TakeWhile
import ProcessCompiler.Program.Layout
/-!
# Shifted texts

What indentation does to a text, said once for all scans of it. A text and its
shifted form (`Shifted`) go along character by character up to the end of a
line. There the shifted text may lose carriage returns, the blank lines that
follow lose what is in them, and the next line begins further to the right.
Code that is indented by two steps is shifted in this way
(`shifted_indent_indent`).
-/

namespace ProcessCompiler

open Text

namespace Layout

/-- **The second text is the first one shifted** by a number of columns, from
somewhere inside a line on. -/
inductive Shifted (w : ℕ) : List Char → List Char → Prop where
  /-- The line ends, and no line with more than blanks follows. -/
  | stop {r j k : ℕ} {m : List Char} (hm : ∀ c ∈ m, isBlank c = true)
      (hhead : m = [] ∨ m.head? = some '\n') (hj : j ≤ r - 1) :
      Shifted w (List.replicate r '\r' ++ m)
        (List.replicate j '\r' ++ List.replicate (k + 1) '\n')
  /-- The line ends, and behind blank lines another one begins. -/
  | turn {r j : ℕ} {m x x' : List Char} (hm : ∀ c ∈ m, isBlank c = true)
      (hlast : m = [] ∨ m.getLast? = some '\n') (hj : j ≤ r - 1) (h : Shifted w x x') :
      Shifted w (List.replicate r '\r' ++ '\n' :: m ++ x)
        (List.replicate j '\r' ++ List.replicate (m.count '\n' + 1) '\n' ++
          List.replicate w ' ' ++ x')
  /-- The line goes on. A carriage return inside it is not at its end. -/
  | keep {c : Char} {x x' : List Char} (hc : c ≠ '\n') (hr : c = '\r' → x.head? ≠ some '\n')
      (h : Shifted w x x') : Shifted w (c :: x) (c :: x')

variable {w : ℕ} {a t x x' : List Char} {c : Char}

/-! ## Lines -/

/-- The line that is being read ends at the first line feed. -/
theorem linesFrom_append (ha : '\n' ∉ a) (current rest : List Char) :
    linesFrom current (a ++ '\n' :: rest) = dropReturn (current.reverse ++ a) :: lines rest := by
  induction a generalizing current with
  | nil => simp [linesFrom, lines]
  | cons c a ih =>
    rw [List.mem_cons, not_or] at ha
    rw [List.cons_append, linesFrom, ih ha.2]
    · simp
    · exact Ne.symm ha.1

theorem lines_append (ha : '\n' ∉ a) (rest : List Char) :
    lines (a ++ '\n' :: rest) = dropReturn a :: lines rest :=
  linesFrom_append ha [] rest

/-- A text without line feeds is one line, if it is not empty. -/
theorem lines_of_not_mem (ha : '\n' ∉ a) (hne : a ≠ []) : lines a = [a] := by
  have hfrom : ∀ current, linesFrom current a =
      if (a.reverse ++ current).isEmpty then [] else [current.reverse ++ a] := by
    clear hne
    induction a with
    | nil => intro current; simp [linesFrom]
    | cons c a ih =>
      intro current
      rw [List.mem_cons, not_or] at ha
      rw [linesFrom, ih ha.2]
      · simp
      · exact Ne.symm ha.1
  rw [lines, hfrom]
  simp [hne]

/-- The returns at the end of a line, and what stands before them. -/
theorem exists_append_replicate (a : List Char) :
    ∃ front r, a = front ++ List.replicate r '\r' ∧ front.getLast? ≠ some '\r' := by
  induction a using List.reverseRecOn with
  | nil => exact ⟨[], 0, rfl, by simp⟩
  | append_singleton a c ih =>
    by_cases hc : c = '\r'
    · obtain ⟨front, r, rfl, hfront⟩ := ih
      exact ⟨front, r + 1, by rw [hc, List.append_assoc, ← List.replicate_succ'], hfront⟩
    · exact ⟨a ++ [c], 0, by simp, by simpa using hc⟩

/-- A line loses one of the returns at its end. -/
theorem dropReturn_append {front : List Char} (h : front.getLast? ≠ some '\r') (r : ℕ) :
    dropReturn (front ++ List.replicate r '\r') = front ++ List.replicate (r - 1) '\r' := by
  cases r with
  | zero =>
    unfold dropReturn
    split
    · rename_i rest heq
      have hlast := congrArg List.head? heq
      rw [List.head?_reverse, List.replicate_zero, List.append_nil] at hlast
      exact absurd hlast h
    · rfl
  | succ r =>
    rw [List.replicate_succ', ← List.append_assoc, dropReturn, List.reverse_append]
    simp

/-- A line is blank if trimming leaves nothing of it. -/
theorem trim_isEmpty_iff (line : List Char) :
    (trim line).isEmpty = true ↔ ∀ c ∈ line, isBlank c = true := by
  have hall : trim line = [] ↔ ∀ c ∈ trimStart line, isBlank c = true := by
    simp [trim, trimEnd, dropEndWhile, List.dropWhile_eq_nil_iff]
  rw [List.isEmpty_iff, hall]
  constructor
  · intro h
    -- What trimming leaves at the start does not begin with a blank.
    have hnil : trimStart line = [] := by
      by_contra hne
      have hhead : isBlank ((trimStart line).head hne) = false :=
        List.head_dropWhile_not isBlank hne
      rw [h _ (List.head_mem hne)] at hhead
      cases hhead
    exact List.dropWhile_eq_nil_iff.1 hnil
  · intro h c hc
    exact h c ((List.dropWhile_suffix _).subset hc)

/-- **Texts by their lines**: what holds of the empty text, of a line without an
end, and of a line before a text that it holds of, holds of every text. -/
theorem lines_induction {P : List Char → Prop} (nil : P [])
    (last : ∀ a, '\n' ∉ a → a ≠ [] → P a)
    (line : ∀ a rest, '\n' ∉ a → P rest → P (a ++ '\n' :: rest)) (t : List Char) : P t := by
  induction hn : t.length using Nat.strongRecOn generalizing t with
  | _ n ih =>
    by_cases hmem : '\n' ∈ t
    · obtain ⟨a, rest, rfl, ha⟩ := List.eq_append_cons_of_mem hmem
      refine line a rest ha (ih rest.length ?_ rest rfl)
      simp only [List.length_append, List.length_cons] at hn
      omega
    · by_cases hne : t = []
      · rw [hne]
        exact nil
      · exact last t hmem hne

/-- No line holds a line feed. -/
theorem not_mem_of_mem_lines {line : List Char} (h : line ∈ lines t) : '\n' ∉ line := by
  induction t using lines_induction with
  | nil => cases h
  | last a ha hne =>
    rw [lines_of_not_mem ha hne, List.mem_singleton] at h
    rwa [h]
  | line a rest ha ih =>
    rw [lines_append ha, List.mem_cons] at h
    rcases h with rfl | h
    · obtain ⟨front, r, rfl, hfront⟩ := exists_append_replicate a
      rw [dropReturn_append hfront]
      simp only [List.mem_append, List.mem_replicate, not_or] at ha ⊢
      exact ⟨ha.1, by simp⟩
    · exact ih h

/-! ## Indentation by two steps -/

/-- The columns of two steps. -/
def twoSteps : ℕ := 8

/-- A line of code that is indented by two steps. -/
def twice (line : List Char) : List Char :=
  if (trim line).isEmpty then ['\n']
  else List.replicate twoSteps ' ' ++ dropReturn line ++ ['\n']

/-- A line that was indented is indented once more. -/
theorem lines_indentLine {line : List Char} (h : '\n' ∉ line) (rest : List Char) :
    (lines (indentLine line ++ rest)).flatMap indentLine =
      twice line ++ (lines rest).flatMap indentLine := by
  by_cases hblank : (trim line).isEmpty = true
  · have hfeed : lines ('\n' :: rest) = [] :: lines rest := lines_append (List.not_mem_nil) rest
    rw [indentLine, twice, if_pos hblank, if_pos hblank, List.singleton_append, hfeed]
    rfl
  · obtain ⟨front, r, rfl, hfront⟩ := exists_append_replicate line
    have hstep : (step.toList ++ front).getLast? ≠ some '\r' := by
      rw [List.getLast?_append]
      cases hlast : front.getLast? with
      | none => decide
      | some c => simpa [hlast] using hfront
    have hmem : '\n' ∉ step.toList ++ (front ++ List.replicate r '\r') := by
      rw [List.mem_append, not_or]
      exact ⟨by decide, h⟩
    -- The returns at the end of the line are blanks, so it is still not a blank one.
    have hstill : ¬(trim (step.toList ++ front ++ List.replicate (r - 1) '\r')).isEmpty = true := by
      rw [trim_isEmpty_iff] at hblank ⊢
      intro hall
      refine hblank fun c hc => ?_
      rcases List.mem_append.1 hc with hc | hc
      · exact hall c (by simp [hc])
      · rw [List.eq_of_mem_replicate hc]
        rfl
    have hline : lines (indentLine (front ++ List.replicate r '\r') ++ rest) =
        (step.toList ++ front ++ List.replicate (r - 1) '\r') :: lines rest := by
      rw [indentLine, if_neg hblank, List.append_assoc, List.singleton_append, lines_append hmem,
        ← List.append_assoc, dropReturn_append hstep]
    rw [hline, List.flatMap_cons, indentLine, if_neg hstill, twice, if_neg hblank,
      dropReturn_append hfront]
    simp [step, twoSteps]

/-- **Two steps of indentation**, line by line. -/
theorem indent_indent (code : String) :
    (indent (indent code)).toList = (lines code.toList).flatMap twice := by
  have hlines : ∀ ls : List (List Char), (∀ line ∈ ls, '\n' ∉ line) →
      (lines (ls.flatMap indentLine)).flatMap indentLine = ls.flatMap twice := by
    intro ls hls
    induction ls with
    | nil => rfl
    | cons line ls ih =>
      rw [List.flatMap_cons, lines_indentLine (hls line List.mem_cons_self), List.flatMap_cons,
        ih fun l hl => hls l (List.mem_cons_of_mem _ hl)]
  rw [indent, indent, String.toList_ofList, String.toList_ofList]
  exact hlines _ fun line hline => not_mem_of_mem_lines hline

/-! ## Indented code is shifted -/

/-- Characters of a line before its end are kept. -/
theorem Shifted.append {front : List Char} (hfront : '\n' ∉ front)
    (hlast : front.getLast? = some '\r' → x.head? ≠ some '\n') (h : Shifted w x x') :
    Shifted w (front ++ x) (front ++ x') := by
  induction front with
  | nil => exact h
  | cons c front ih =>
    rw [List.mem_cons, not_or] at hfront
    refine .keep (Ne.symm hfront.1) ?_ (ih hfront.2 ?_)
    · rintro rfl
      cases front with
      | nil => exact hlast rfl
      | cons d front =>
        intro hd
        exact hfront.2 (Option.some.inj hd ▸ List.mem_cons_self)
    · intro hr
      refine hlast ?_
      cases front with
      | nil => cases hr
      | cons d front => exact hr

/-- **A text that is shifted from the end of a line on** is blank, or it begins
with blank lines and goes on with a line that is not. -/
theorem Shifted.cases_feed (h : Shifted w ('\n' :: x) ('\n' :: x')) :
    ((∀ c ∈ x, isBlank c = true) ∧ ∃ k, x' = List.replicate k '\n') ∨
      ∃ m y y', (∀ c ∈ m, isBlank c = true) ∧ (m = [] ∨ m.getLast? = some '\n') ∧
        x = m ++ y ∧ x' = List.replicate (m.count '\n') '\n' ++ List.replicate w ' ' ++ y' ∧
          Shifted w y y' := by
  generalize hz : '\n' :: x = z at h
  generalize hz' : '\n' :: x' = z' at h
  cases h with
  | @stop r j k m hm hhead hj =>
    cases r with
    | succ r => cases hz
    | zero =>
      obtain rfl : j = 0 := by omega
      obtain rfl : '\n' :: x = m := hz
      refine .inl ⟨fun c hc => hm c (List.mem_cons_of_mem _ hc), k, ?_⟩
      exact (List.cons.inj hz').2
  | @turn r j m y y' hm hlast hj h =>
    cases r with
    | succ r => cases hz
    | zero =>
      obtain rfl : j = 0 := by omega
      refine .inr ⟨m, y, y', hm, hlast, (List.cons.inj hz).2, ?_, h⟩
      simpa [List.replicate_succ] using hz'
  | keep hc => exact absurd (List.cons.inj hz).1.symm hc

/-- A line that begins with a character that is not blank begins with a blank in
the shifted text. -/
theorem Shifted.feed_cons (hw : 0 < w) (h : Shifted w ('\n' :: c :: x) x')
    (hc : isBlank c = false) : ∃ y', x' = '\n' :: ' ' :: y' := by
  generalize hz : '\n' :: c :: x = z at h
  cases h with
  | @stop r j k m hm =>
    cases r with
    | succ r => cases hz
    | zero =>
      obtain rfl : '\n' :: c :: x = m := hz
      simp [hc] at hm
  | @turn r j m y y' hm hlast hj h =>
    cases r with
    | succ r => cases hz
    | zero =>
      obtain ⟨w, rfl⟩ := Nat.exists_eq_add_one_of_ne_zero (Nat.ne_of_gt hw)
      obtain rfl : j = 0 := by omega
      rcases m with _ | ⟨d, m⟩
      · exact ⟨List.replicate w ' ' ++ y', rfl⟩
      · obtain ⟨rfl, -⟩ := List.cons.inj (List.cons.inj hz).2
        simp [hc] at hm
  | keep hfeed => exact absurd (List.cons.inj hz).1.symm hfeed

/-- What is shifted from a line feed on is so from the returns before it on. -/
theorem Shifted.returns (h : Shifted w ('\n' :: x) ('\n' :: x')) {r j : ℕ} (hj : j ≤ r - 1) :
    Shifted w (List.replicate r '\r' ++ '\n' :: x) (List.replicate j '\r' ++ '\n' :: x') := by
  rcases h.cases_feed with ⟨hx, k, rfl⟩ | ⟨m, y, y', hm, hlast, rfl, rfl, hy⟩
  · refine .stop (k := k) ?_ (.inr rfl) hj
    intro c hc
    rcases List.mem_cons.1 hc with rfl | hc
    · rfl
    · exact hx c hc
  · have hturn := Shifted.turn hm hlast hj hy
    simpa [List.replicate_succ] using hturn

/-- A blank line is only a line feed. -/
theorem Shifted.blank (h : Shifted w ('\n' :: x) ('\n' :: x')) (ha : ∀ c ∈ a, isBlank c = true)
    (hline : '\n' ∉ a) :
    Shifted w ('\n' :: (a ++ '\n' :: x)) ('\n' :: '\n' :: x') := by
  have hfeed : ∀ c ∈ a ++ ['\n'], isBlank c = true := by
    intro c hc
    rcases List.mem_append.1 hc with hc | hc
    · exact ha c hc
    · rw [List.mem_singleton.1 hc]
      rfl
  rcases h.cases_feed with ⟨hx, k, rfl⟩ | ⟨m, y, y', hm, hlast, rfl, rfl, hy⟩
  · refine .stop (r := 0) (j := 0) (k := k + 1) ?_ (.inr rfl) (Nat.zero_le _)
    intro c hc
    simp only [List.mem_cons, List.mem_append] at hc hfeed
    rcases hc with rfl | hc | rfl | hc
    · rfl
    · exact ha c hc
    · rfl
    · exact hx c hc
  · have hcount : (a ++ '\n' :: m).count '\n' = m.count '\n' + 1 := by
      rw [List.count_append, List.count_eq_zero_of_not_mem hline, List.count_cons_self]
      omega
    have hturn := Shifted.turn (w := w) (r := 0) (j := 0) (m := a ++ '\n' :: m) ?_ ?_
      (Nat.zero_le _) hy
    · rw [hcount] at hturn
      simpa [List.replicate_succ] using hturn
    · intro c hc
      simp only [List.mem_append, List.mem_cons] at hc
      rcases hc with hc | rfl | hc
      · exact ha c hc
      · rfl
      · exact hm c hc
    · right
      rcases hlast with rfl | hlast
      · simp
      · rw [List.getLast?_append, List.getLast?_cons, hlast]
        rfl

/-- The next line begins further to the right. -/
theorem Shifted.line (h : Shifted w x x') :
    Shifted w ('\n' :: x) ('\n' :: (List.replicate w ' ' ++ x')) :=
  .turn (r := 0) (j := 0) (m := []) nofun (.inl rfl) (Nat.zero_le _) h

/-- **Code that is indented by two steps is shifted**, from the line before it
on. -/
theorem shifted_indent_indent (code : String) :
    Shifted twoSteps ('\n' :: code.toList) ('\n' :: (indent (indent code)).toList) := by
  rw [indent_indent]
  induction code.toList using lines_induction with
  | nil =>
    refine .stop (r := 0) (j := 0) (k := 0) (m := ['\n']) ?_ (.inr rfl) (Nat.zero_le _)
    intro c hc
    rw [List.mem_singleton.1 hc]
    rfl
  | last a ha hne =>
    rw [lines_of_not_mem ha hne, List.flatMap_singleton, twice]
    split_ifs with hblank
    · refine .stop (r := 0) (j := 0) (k := 1) (m := '\n' :: a) ?_ (.inr rfl) (Nat.zero_le _)
      intro c hc
      rcases List.mem_cons.1 hc with rfl | hc
      · rfl
      · exact (trim_isEmpty_iff a).1 hblank c hc
    · obtain ⟨front, r, rfl, hfront⟩ := exists_append_replicate a
      rw [dropReturn_append hfront, List.append_assoc, List.append_assoc]
      refine Shifted.line (Shifted.append ?_ (absurd · hfront) ?_)
      · exact fun hmem => ha (List.mem_append_left _ hmem)
      · simpa using Shifted.stop (w := twoSteps) (r := r) (k := 0) (m := []) nofun (.inl rfl) le_rfl
  | line a rest ha ih =>
    obtain ⟨front, r, rfl, hfront⟩ := exists_append_replicate a
    rw [lines_append ha, List.flatMap_cons, dropReturn_append hfront, twice]
    split_ifs with hblank
    · refine ih.blank ?_ ha
      intro c hc
      rcases List.mem_append.1 hc with hc | hc
      · exact (trim_isEmpty_iff _).1 hblank c (List.mem_append_left _ hc)
      · rw [List.eq_of_mem_replicate hc]
        rfl
    · rw [dropReturn_append hfront]
      simp only [List.append_assoc, List.singleton_append]
      refine Shifted.line (Shifted.append ?_ (absurd · hfront) (ih.returns (Nat.sub_le _ _)))
      exact fun hmem => ha (List.mem_append_left _ hmem)

/-! ## Inside a line -/

/-- Nothing but returns is left of a line. -/
inductive AtEnd : List Char → Prop where
  | nil : AtEnd []
  | feed (x : List Char) : AtEnd ('\n' :: x)
  | carriage {x : List Char} (h : AtEnd x) : AtEnd ('\r' :: x)

theorem AtEnd.replicate (h : AtEnd x) (r : ℕ) : AtEnd (List.replicate r '\r' ++ x) := by
  induction r with
  | zero => exact h
  | succ r ih => exact .carriage ih

/-- A line that has another character left is not at its end. -/
theorem not_atEnd {u : List Char} (hu : '\n' ∉ u) (hr : c ≠ '\r') (hc : c ≠ '\n') :
    ¬AtEnd (u ++ c :: x) := by
  intro h
  induction u with
  | nil =>
    cases h with
    | feed => exact hc rfl
    | carriage => exact hr rfl
  | cons d u ih =>
    rw [List.mem_cons, not_or] at hu
    cases h with
    | feed => exact hu.1 rfl
    | carriage h => exact ih hu.2 h

/-- **Both texts are at the end of a line, or go on with the same character.** -/
theorem Shifted.atEnd_or_cons (h : Shifted w x x') :
    (AtEnd x ∧ AtEnd x') ∨
      ∃ c y y', x = c :: y ∧ x' = c :: y' ∧ c ≠ '\n' ∧ Shifted w y y' := by
  have hfeeds : ∀ k y, AtEnd (List.replicate (k + 1) '\n' ++ y) := fun k y => .feed _
  cases h with
  | @stop r j k m hm hhead hj =>
    have hm' : AtEnd m := by
      rcases hhead with rfl | hhead
      · exact .nil
      · obtain ⟨m, rfl⟩ := List.head?_eq_some_iff.1 hhead
        exact .feed m
    have hk := hfeeds k []
    rw [List.append_nil] at hk
    exact .inl ⟨hm'.replicate r, hk.replicate j⟩
  | @turn r j m y y' hm hlast hj h =>
    rw [List.append_assoc, List.append_assoc, List.append_assoc]
    exact .inl ⟨(AtEnd.feed _).replicate r, (hfeeds _ _).replicate j⟩
  | keep hc hr h => exact .inr ⟨_, _, _, rfl, rfl, hc, h⟩

/-- A shifted text has a line feed at least. -/
theorem Shifted.ne_nil (h : Shifted w x x') : x' ≠ [] := by
  cases h <;> simp

/-- A character that can end no line stays. -/
theorem Shifted.cons (h : Shifted w (c :: x) x') (hr : c ≠ '\r') (hc : c ≠ '\n') :
    ∃ y', x' = c :: y' ∧ Shifted w x y' := by
  rcases h.atEnd_or_cons with ⟨hend, -⟩ | ⟨d, y, y', heq, rfl, -, hy⟩
  · exact absurd hend (not_atEnd (u := []) List.not_mem_nil hr hc)
  · obtain ⟨rfl, rfl⟩ := List.cons.inj heq
    exact ⟨y', rfl, hy⟩

/-- A character that can end no line. -/
def isInner (c : Char) : Bool := c != '\r' && c != '\n'

theorem isInner_iff : isInner c = true ↔ c ≠ '\r' ∧ c ≠ '\n' := by simp [isInner]

theorem not_mem_of_all_isInner {u : List Char} (hu : u.all isInner = true) : '\n' ∉ u := by
  intro hmem
  cases List.all_eq_true.1 hu '\n' hmem

/-- So does a text of such characters. -/
theorem Shifted.past {u : List Char} (h : Shifted w (u ++ x) x') (hu : u.all isInner = true) :
    ∃ y', x' = u ++ y' ∧ Shifted w x y' := by
  induction u generalizing x' with
  | nil => exact ⟨x', rfl, h⟩
  | cons c u ih =>
    rw [List.all_cons, Bool.and_eq_true, isInner_iff] at hu
    obtain ⟨y', rfl, hy⟩ := h.cons hu.1.1 hu.1.2
    obtain ⟨z', rfl, hz⟩ := ih hy hu.2
    exact ⟨z', rfl, hz⟩

/-- And everything before such a character in its line. -/
theorem Shifted.front {u : List Char} (h : Shifted w (u ++ c :: x) x') (hu : '\n' ∉ u)
    (hr : c ≠ '\r') (hc : c ≠ '\n') : ∃ y', x' = u ++ c :: y' ∧ Shifted w x y' := by
  induction u generalizing x' with
  | nil => exact h.cons hr hc
  | cons d u ih =>
    rcases h.atEnd_or_cons with ⟨hend, -⟩ | ⟨e, y, y', heq, rfl, -, hy⟩
    · exact absurd hend (not_atEnd hu hr hc)
    · obtain ⟨rfl, rfl⟩ := List.cons.inj heq
      obtain ⟨z', rfl, hz⟩ := ih hy fun hmem => hu (List.mem_cons_of_mem _ hmem)
      exact ⟨z', rfl, hz⟩

/-- **The rest of a line stays**, and from any place in it on the texts are
shifted. -/
theorem Shifted.exists_line (h : Shifted w x x') :
    ∃ u b b', x = u ++ b ∧ x' = u ++ b' ∧ '\n' ∉ u ∧ AtEnd b ∧ AtEnd b' ∧
      ∀ t, t <:+ u → Shifted w (t ++ b) (t ++ b') := by
  induction x generalizing x' with
  | nil =>
    rcases h.atEnd_or_cons with ⟨hx, hx'⟩ | ⟨c, y, y', heq, -⟩
    · refine ⟨[], [], x', rfl, rfl, List.not_mem_nil, hx, hx', fun t ht => ?_⟩
      rw [List.suffix_nil.1 ht]
      exact h
    · cases heq
  | cons d x ih =>
    rcases h.atEnd_or_cons with ⟨hx, hx'⟩ | ⟨c, y, y', heq, rfl, hc, hy⟩
    · refine ⟨[], d :: x, x', rfl, rfl, List.not_mem_nil, hx, hx', fun t ht => ?_⟩
      rw [List.suffix_nil.1 ht]
      exact h
    · obtain ⟨rfl, rfl⟩ := List.cons.inj heq
      obtain ⟨u, b, b', rfl, rfl, hu, hb, hb', hsuffix⟩ := ih hy
      have hline : '\n' ∉ d :: u := by
        rw [List.mem_cons, not_or]
        exact ⟨Ne.symm hc, hu⟩
      refine ⟨d :: u, b, b', rfl, rfl, hline, hb, hb', fun t ht => ?_⟩
      rcases List.suffix_cons_iff.1 ht with rfl | ht
      · exact h
      · exact hsuffix t ht

end Layout

end ProcessCompiler
