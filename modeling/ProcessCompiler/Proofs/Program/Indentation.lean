import ProcessCompiler.Proofs.Scan.ShiftedSteps
/-!
# What indentation changes

The code of a procedure's body is moved two steps to the right, line by line.
Most code means the same there: blanks, comments and line ends between tokens say
nothing, and a backslash before a line end makes a string skip the blanks of the
next line. Two things are not kept. A piece of the code that runs on past the end
of a line takes the new blanks in, and the mark of the byte order is only dropped
at the start of a text. Code without either means the same, and code with one of
them never does (`meaning_indent_indent_iff`).
-/

namespace ProcessCompiler

namespace Layout

open Text Grammar Grammar.Scan

variable {w : ℕ} {x x' : List Char}

/-- **What code means**: the senses of its lexemes. -/
def meaning (code : String) : Option (List Sense) := senses (dropOrderMark code.toList)

/-- The blanks before code say nothing. -/
theorem gap_blanks {u : List Char} (hu : ∀ c ∈ u, isBlank c = true) (x : List Char) :
    gap (u ++ x) = gap x :=
  gapFrom_blanks (s := .blank) hu nofun x

/-- Code that was moved to the right begins with no mark of its byte order. -/
theorem dropOrderMark_of_shifted (hw : 0 < w) (h : Shifted w ('\n' :: x) ('\n' :: x')) :
    dropOrderMark x' = x' := by
  obtain ⟨w, rfl⟩ := Nat.exists_eq_add_one_of_ne_zero (Nat.ne_of_gt hw)
  rcases h.cases_feed with ⟨-, k, rfl⟩ | ⟨m, y, y', -, -, -, rfl, -⟩
  · cases k <;> rfl
  · cases m.count '\n' <;> rfl

/-- The mark is kept behind the new blanks, where it begins no lexeme. -/
theorem senses_of_shifted_orderMark (h : Shifted w ('\n' :: '\uFEFF' :: x) ('\n' :: x')) :
    senses x' = none := by
  have hmark : isBlank '\uFEFF' = false := by decide
  rcases h.cases_feed with ⟨hblank, -⟩ | ⟨m, y, y', hm, -, hx, rfl, hy⟩
  · simp [hmark] at hblank
  · rcases m with _ | ⟨c, m⟩
    · obtain rfl : '\uFEFF' :: x = y := hx
      obtain ⟨z, rfl, -⟩ := hy.cons (by decide) (by decide)
      have hgap := gap_blanks (isBlank_of_mem_shift 0 0 w) ('\uFEFF' :: z)
      exact (senses_congr hgap).trans (by rw [senses, lexemes_orderMark, Option.map_none])
    · obtain ⟨rfl, -⟩ := List.cons.inj hx
      simp [hmark] at hm

/-- **When indentation keeps what code means.** Code that can be scanned means the
same two steps further to the right exactly if it begins with no mark of its byte
order and none of its pieces is broken. -/
theorem meaning_indent_indent_iff (code : String) (h : (meaning code).isSome = true) :
    meaning (indent (indent code)) = meaning code ↔
      dropOrderMark code.toList = code.toList ∧
        ∀ piece ∈ pieces code.toList, isBroken piece = false := by
  have hshifted := shifted_indent_indent code
  have hwidth : 0 < twoSteps := by decide
  have hnew : meaning (indent (indent code)) = senses (indent (indent code)).toList := by
    rw [meaning, dropOrderMark_of_shifted hwidth hshifted]
  rw [hnew]
  by_cases hmark : dropOrderMark code.toList = code.toList
  · rw [meaning, hmark, senses, Option.isSome_map] at h
    obtain ⟨L, hL⟩ := Option.isSome_iff_exists.1 h
    -- A line feed before both says nothing.
    have hgap : ∀ x, gap ('\n' :: x) = gap x := fun x => rfl
    have hiff := senses_of_shifted hwidth hshifted ((lexemes_congr (hgap _)).trans hL)
    rw [senses_congr (hgap _), senses_congr (hgap _), pieces_congr (hgap _)] at hiff
    rw [meaning, hmark, hiff, and_iff_right rfl]
  · obtain ⟨x, hx⟩ := exists_orderMark_of_ne hmark
    rw [hx] at hshifted
    rw [senses_of_shifted_orderMark hshifted]
    refine iff_of_false (fun hnone => ?_) fun hall => hmark hall.1
    rw [← hnone] at h
    cases h

/-- Code with an escaped line end in a string, a comment over two lines, a blank
line and a line that documents. -/
def wrapped : String := "f(\"a\\\r\n  b\"); /* c\n d */\n \n/// e\r\ng('\\n')"

/-- All of this means the same two steps further to the right. -/
theorem meaning_indent_indent_wrapped :
    (meaning wrapped).isSome = true ∧ meaning (indent (indent wrapped)) = meaning wrapped := by
  have hscans : (meaning wrapped).isSome = true := by decide +kernel
  refine ⟨hscans, (meaning_indent_indent_iff wrapped hscans).2 ⟨?_, ?_⟩⟩
  · decide +kernel
  · decide +kernel

/-- A string over two lines has another value there. -/
theorem not_meaning_indent_indent_twoLines :
    (meaning "f(\"a\nb\")").isSome = true ∧
      meaning (indent (indent "f(\"a\nb\")")) ≠ meaning "f(\"a\nb\")" := by
  decide +kernel

end Layout

end ProcessCompiler
