import ProcessCompiler.Proofs.Scan.Closing
import ProcessCompiler.Proofs.Snippet.Enclosure
/-!
# Statements inside braces

What is known of a text that is read as statements between braces on one
line. If the text ends outside comments, its lexemes match on their own and
the statements are read from its own tokens. If it ends inside a comment, the
harness loses its closing brace to that comment, so the text itself closes
the block: it holds one closing brace too many, and all else in it matches.
-/

namespace ProcessCompiler

open Grammar Scan Lexeme

namespace Grammar

variable {α : Type} {p : Parse α} {ts : List Token} {a : α} {d : Delimiter}

/-- Brackets that are read to the end of a list are all of it. -/
theorem Reads.of_within (h : Reads (Parse.within d p) ts a []) :
    ∃ inner, ts = [.group d inner] ∧ Reads p inner a [] := by
  unfold Reads Parse.within at h
  rcases ts with _ | ⟨_ | ⟨d', inner⟩, rest⟩
  · cases h
  · cases h
  · by_cases hd : d = d'
    · subst hd
      simp only [beq_self_eq_true, if_true] at h
      rcases hp : p ⟨inner, none⟩ with e | ⟨a', ⟨left, note⟩⟩
      · rw [hp] at h
        cases h
      · rw [hp] at h
        obtain ⟨rfl, hs⟩ := Prod.mk.inj (Except.ok.inj h)
        obtain ⟨rfl, hnote⟩ := Stream.mk.inj hs
        -- Neither tokens of these brackets are left over, nor tokens of brackets inside them.
        rcases note with _ | d'
        · obtain rfl : left = [] := by simpa using hnote
          exact ⟨inner, rfl, hp⟩
        · cases hnote
    · simp only [beq_iff_eq, hd, if_false] at h
      cases h

end Grammar

namespace Harness

variable {text : String} {block : List Stmt}

theorem accepts_iff {h : Harness} : h.accepts text = true ↔ ∃ block, h.parse text = .ok block := by
  unfold accepts
  cases h.parse text <;> simp [Except.isOk, Except.toBool]

theorem toList_wrap_statements (text : String) :
    (statements.wrap text).toList = '\x7b' :: ' ' :: (text.toList ++ braceEnd) := by
  simp [wrap, opening, closing, braceEnd]

/-- The brace of the harness and the blank behind it. -/
theorem scans_brace (x : List Char) : Scans ('\x7b' :: ' ' :: x) [.opening .brace] x :=
  .step rfl rfl (.blank rfl .done)

/-- The statements are read from what stands between the first brace and the
last. -/
theorem exists_of_parse_statements (h : statements.parse text = .ok block) :
    ∃ I ts, lexemes (text.toList ++ braceEnd) = some (I ++ [.closing .brace]) ∧ Nests I ts ∧
      Reads (Rules.ofDepth (depthFor [.group .brace ts])).stmts ts block [] := by
  have hblock : parseAll plainBody (statements.wrap text) = .ok block := h
  obtain ⟨us, htokens, hreads⟩ := reads_of_parseAll hblock
  obtain ⟨ts, rfl, hstmts⟩ := hreads.of_within
  rw [toList_wrap_statements] at htokens
  rcases lexemes_of_tokenize htokens with ⟨x, hx⟩ | ⟨L, hlex, hL⟩
  · cases hx
  · rw [show _ = _ from scans_brace _] at hlex
    obtain ⟨M, hM, rfl⟩ := Option.map_eq_some_iff.1 hlex
    obtain ⟨I, rfl, hI⟩ := hL.of_group
    exact ⟨I, ts, hM, hI, hstmts⟩

theorem exists_lexemes_of_parse_statements (h : statements.parse text = .ok block) :
    ∃ L, lexemes text.toList = some L := by
  obtain ⟨I, ts, hlex, -⟩ := exists_of_parse_statements h
  refine Option.ne_none_iff_exists'.1 fun hnone => ?_
  rw [lexemes_trail isTrail_braceEnd (keepsReturn_braceEnd _) hnone] at hlex
  cases hlex

/-- **Statements that end outside comments** are read from the text's own
tokens. -/
theorem closes_of_parse_statements (h : statements.parse text = .ok block)
    (hend : endsInLine text.toList = false) :
    ∃ L ts, Closes text.toList L ∧ Nests L ts ∧
      Reads (Rules.ofDepth (depthFor [.group .brace ts])).stmts ts block [] := by
  obtain ⟨L, hL⟩ := exists_lexemes_of_parse_statements h
  obtain ⟨I, ts, hlex, hI, hreads⟩ := exists_of_parse_statements h
  have hcloses := closes_of_lexemes hL hend
  have happend := hcloses.append braceEnd border_braceEnd fun _ => by simp [braceEnd]
  rw [hlex, show lexemes braceEnd = some [.closing .brace] from rfl] at happend
  obtain rfl : I = L := List.append_cancel_right (Option.some.inj happend)
  exact ⟨I, ts, hcloses, hI, hreads⟩

/-- **Statements that end inside a comment** close their block themselves. -/
theorem runsOn_of_parse_statements (h : statements.parse text = .ok block)
    (hend : endsInLine text.toList = true) :
    ∃ L, lexemes text.toList = some L ∧ RunsOn text.toList L ∧
      L.count (.opening .paren) = L.count (.closing .paren) ∧
      L.count (.closing .brace) = L.count (.opening .brace) + 1 := by
  obtain ⟨L, hL⟩ := exists_lexemes_of_parse_statements h
  obtain ⟨I, ts, hlex, hI, -⟩ := exists_of_parse_statements h
  have hruns := runsOn_of_lexemes hL hend
  obtain ⟨M, hM, happend⟩ := hruns.append braceEnd border_braceEnd (fun _ => by simp [braceEnd])
    (by simp [braceEnd])
  rw [hlex, show lexemes (afterLine braceEnd) = some [] from rfl] at happend
  obtain rfl : I ++ [.closing .brace] = M := by simpa using happend
  refine ⟨L, hL, hruns, ?_, ?_⟩
  · obtain ⟨hopening, hclosing⟩ := count_eq_of_brackets hM .paren
    have hparen := hI.count_eq .paren
    simp at hopening hclosing
    omega
  · obtain ⟨hopening, hclosing⟩ := count_eq_of_brackets hM .brace
    have hbrace := hI.count_eq .brace
    simp at hopening hclosing
    omega

/-! ## Braces on lines of their own -/

theorem toList_lines (text : String) :
    ("\x7b" ++ text ++ "\n\x7d").toList = '\x7b' :: (text.toList ++ ['\n', '\x7d']) := by
  simp

/-- The opening brace stands right before the text. -/
theorem scans_brace_text (x : List Char) : Scans ('\x7b' :: x) [.opening .brace] x :=
  .step rfl rfl .done

/-- Statements that end outside comments make the tokens inside the braces, and
a closing brace on a line of its own closes them as well. -/
theorem parseBlock_lines_of_closed (h : statements.parse text = .ok block)
    (hend : endsInLine text.toList = false) :
    (∃ ts, tokenize text.toList = some ts ∧
      tokenize (statements.wrap text).toList = some [.group .brace ts]) ∧
    parseBlock ("\x7b" ++ text ++ "\n\x7d") = .ok block := by
  obtain ⟨L, ts, hcloses, hL, hreads⟩ := closes_of_parse_statements h hend
  have hgroup : Nests (.opening .brace :: (L ++ [.closing .brace])) [.group .brace ts] :=
    .group hL .nil
  have hwrap : Scans (text.toList ++ braceEnd) (L ++ [.closing .brace]) [] :=
    Scans.trans (hcloses.append braceEnd border_braceEnd fun _ => by simp [braceEnd])
      (.blank rfl (.step rfl rfl .done))
  have hlines : Scans (text.toList ++ ['\n', '\x7d']) (L ++ [.closing .brace]) [] :=
    Scans.trans (hcloses.append _ (border_line _) fun _ => by simp) (.blank rfl (.step rfl rfl .done))
  refine ⟨⟨ts, tokenize_of_lexemes hcloses.lexemes hL, ?_⟩, parseAll_of_reads ?_ (.within hreads)⟩
  · rw [toList_wrap_statements]
    exact tokenize_of_lexemes ((scans_brace _).trans hwrap).lexemes hgroup
  · rw [toList_lines]
    exact tokenize_of_lexemes ((scans_brace_text _).trans hlines).lexemes hgroup

/-- Statements that end inside a comment match neither on their own nor before
a closing brace on a line of its own. -/
theorem parseBlock_lines_of_open (h : statements.parse text = .ok block)
    (hend : endsInLine text.toList = true) :
    tokenize text.toList = none ∧
      parseBlock ("\x7b" ++ text ++ "\n\x7d") = .error ⟨false, .unreadable⟩ := by
  obtain ⟨L, hL, hruns, -, hbrace⟩ := runsOn_of_parse_statements h hend
  refine ⟨tokenize_of_count hL (d := .brace) (by omega), parseAll_of_tokenize_none ?_⟩
  obtain ⟨M, hM, hscans⟩ := hruns.append ['\n', '\x7d'] (border_line _) (fun _ => by simp) (by simp)
  have hlines : Scans (text.toList ++ ['\n', '\x7d']) (M ++ [.closing .brace]) [] :=
    Scans.trans hscans (.blank rfl (.step rfl rfl .done))
  obtain ⟨hopening, hclosing⟩ := count_eq_of_brackets hM .brace
  rw [toList_lines]
  refine tokenize_of_count ((scans_brace_text _).trans hlines).lexemes (d := .brace) ?_
  simp
  omega

/-- **Statements stay inside their braces exactly if they end outside
comments.** Then the text matches on its own, the braces of the harness are
those around its tokens, and a closing brace on a line of its own makes the same
block. If the text ends inside a comment it closes the block itself: it does not
match, and with the closing brace on a line of its own it is not read. -/
theorem parse_statements_enclosed (h : statements.parse text = .ok block) :
    (endsInLine text.toList = false →
      (∃ ts, tokenize text.toList = some ts ∧
        tokenize (statements.wrap text).toList = some [.group .brace ts]) ∧
      parseBlock ("\x7b" ++ text ++ "\n\x7d") = .ok block) ∧
    (endsInLine text.toList = true →
      tokenize text.toList = none ∧
        parseBlock ("\x7b" ++ text ++ "\n\x7d") = .error ⟨false, .unreadable⟩) :=
  ⟨parseBlock_lines_of_closed h, parseBlock_lines_of_open h⟩

theorem parse_statements_enclosed_semi : ∃ block, statements.parse "log(x); // done\ny;" = .ok block ∧
    parseBlock ("\x7b" ++ "log(x); // done\ny;" ++ "\n\x7d") = .ok block := by
  obtain ⟨block, hblock⟩ := accepts_iff.1 (show statements.accepts "log(x); // done\ny;" = true by
    decide +kernel)
  exact ⟨block, hblock, ((parse_statements_enclosed hblock).1 (by decide +kernel)).2⟩

/-- Statements that close the block, and take the brace of the harness into a
comment. -/
theorem accepts_statements_closing : statements.accepts "x; \x7d // y" = true ∧
    tokenize "x; \x7d // y".toList = none ∧ (parseBlock "\x7bx; \x7d // y\n\x7d").isOk = false := by
  refine ⟨by decide +kernel, ?_, by decide +kernel⟩
  exact Option.isNone_iff_eq_none.1 (by decide +kernel)

end Harness

end ProcessCompiler
