import ProcessCompiler.Proofs.Snippet.Stripping
/-!
# Statements on lines of their own

What is known of a text that is read as a block with the closing brace on a
line of its own. That line ends a comment, so the text may end inside one and
the statements are still read from its own tokens. They are those of the text
without the blanks at its end, since blanks mean nothing before a brace. A
comment at the end does not document: no block ends in an attribute.
-/

namespace ProcessCompiler

open Grammar Scan Lexeme Text

namespace Grammar

namespace Scan

/-- Behind the end of the first line there are only blanks before the brace. -/
theorem scans_afterLine {w : List Char} (hw : Blank w) :
    Scans (afterLine (w ++ ['\n', '\x7d'])) [.closing .brace] [] := by
  have hclose : Scans ['\x7d'] [.closing .brace] [] := .step rfl rfl .done
  induction w with
  | nil => exact .blank rfl hclose
  | cons c w ih =>
    have hrest : Blank w := fun d hd => hw d (List.mem_cons_of_mem _ hd)
    by_cases hc : c = '\n'
    · subst hc
      have hlines : Blank ('\n' :: w ++ ['\n']) := by
        intro d hd
        rcases List.mem_append.1 hd with hd | hd
        · exact hw d hd
        · rw [List.mem_singleton.1 hd]
          rfl
      have hall : Scans _ [.closing .brace] [] :=
        (Invocation.scans_blanks hlines ['\x7d']).trans hclose
      simpa [afterLine] using hall
    · have hne : (c != '\n') = true := bne_iff_ne.2 hc
      rw [List.cons_append, afterLine, List.dropWhile_cons, if_pos hne]
      exact ih hrest

end Scan

end Grammar

namespace Harness

variable {script : String} {block : List Stmt}

/-- The statements are read from what stands between the two braces. -/
theorem exists_of_parseBlock_lines (h : parseBlock ("\x7b" ++ script ++ "\n\x7d") = .ok block) :
    ∃ I ts, lexemes (script.toList ++ ['\n', '\x7d']) = some (I ++ [.closing .brace]) ∧ Nests I ts ∧
      Reads (Rules.ofDepth (depthFor [.group .brace ts])).stmts ts block [] := by
  obtain ⟨us, htokens, hreads⟩ := reads_of_parseAll h
  obtain ⟨ts, rfl, hstmts⟩ := Reads.of_within hreads
  rw [toList_lines] at htokens
  rcases lexemes_of_tokenize htokens with ⟨x, hx⟩ | ⟨L, hlex, hL⟩
  · cases hx
  · rw [show _ = _ from scans_brace_text _] at hlex
    obtain ⟨M, hM, rfl⟩ := Option.map_eq_some_iff.1 hlex
    obtain ⟨I, rfl, hI⟩ := hL.of_group
    exact ⟨I, ts, hM, hI, hstmts⟩

/-- **A text that is read as a block** with the brace on a line of its own: the
statements are read from the tokens of the trimmed text, which ends outside
comments, or in one that means nothing. -/
theorem ends_of_parseBlock_lines (h : parseBlock ("\x7b" ++ script ++ "\n\x7d") = .ok block) :
    ∃ L ts, Nests L ts ∧ Reads (Rules.ofDepth (depthFor [.group .brace ts])).stmts ts block [] ∧
      (Closes (trimEnd script.toList) L ∨ Trails (trimEnd script.toList) L) := by
  obtain ⟨I, ts, hlex, hI, hreads⟩ := exists_of_parseBlock_lines h
  obtain ⟨trail, htrail, hscript⟩ := exists_append_dropEndWhile isBlank script.toList
  rw [hscript, List.append_assoc, ← trimEnd] at hlex
  have hend := IsTrail.append_feed htrail
  have hkeeps : KeepsReturn (trimEnd script.toList) (trail ++ ['\n', '\x7d']) := by
    intro hlast
    have hblank := getLast?_dropEndWhile isBlank script.toList '\r' hlast
    exact absurd hblank (by decide)
  obtain ⟨L, hL⟩ : ∃ L, lexemes (trimEnd script.toList) = some L := by
    refine Option.ne_none_iff_exists'.1 fun hnone => ?_
    rw [lexemes_trail hend hkeeps hnone] at hlex
    cases hlex
  have hmark : Unmarked L (trail ++ ['\n', '\x7d']) := by
    rintro - hhead
    obtain ⟨r, hr⟩ := List.head?_eq_some_iff.1 hhead
    exact hend.ne_cons rfl r hr
  have hafter := (scans_afterLine htrail).lexemes
  rcases closes_or_trails_or_documents hL with hcloses | htrails | hdocs
  · have hbrace : Scans (trail ++ ['\n', '\x7d']) [.closing .brace] [] :=
      (Invocation.scans_blanks htrail _).trans (.blank rfl (.step rfl rfl .done))
    rw [hcloses.append _ hend.border hmark, hbrace.lexemes] at hlex
    obtain rfl : L = I := List.append_cancel_right (Option.some.inj hlex)
    exact ⟨L, ts, hI, hreads, .inl hcloses⟩
  · rw [htrails.append _ hend.border hmark, hafter] at hlex
    obtain rfl : L = I := List.append_cancel_right (Option.some.inj hlex)
    exact ⟨L, ts, hI, hreads, .inr htrails⟩
  · -- The attribute would be the end of the block.
    obtain ⟨K, inner, y, rfl, hbehind⟩ := hdocs.last
    obtain ⟨y', N, hN, hM⟩ := hbehind _ _ hend.border hmark hlex
    obtain rfl : [.closing .brace] = N := Option.some.inj (hafter.symm.trans hN)
    rw [← List.append_assoc] at hM
    obtain rfl := List.append_cancel_right hM
    obtain ⟨t, hdoc, ht⟩ := nests_docLexemes inner y'
    obtain ⟨front, hts, -⟩ := hI.exists_before hdoc
    have hblock : IsBlock ts block := ⟨_, hreads⟩
    exact absurd ht (hblock.proper _ _ _ hts)

end Harness

end ProcessCompiler
