import ProcessCompiler.Proofs.Grammar.Stopping
import ProcessCompiler.Proofs.Program.Embedding
import ProcessCompiler.Proofs.Snippet.Lines
/-!
# Scripts before continuations

A script is rendered as statements that others can follow: a semicolon is put
behind it unless its last character looks like the end of a statement. Whether
one is needed is decided by the last statement, and the two do not agree: a
record ends in a brace and ends no statement. Main statement: what a script is
read as before a continuation. Its last statement is ended by the semicolon that
is put there; without one its statements are read as they are, or nothing is
read at all, since a semicolon is missing. A comment at the end of the script
takes the semicolon, and the last statement is left as it is.
-/

namespace ProcessCompiler

open Grammar Scan Lexeme Text

namespace Grammar

variable {ts us : List Token} {L : List Lexeme} {t : Token} {block : List Stmt} {d : ℕ}

/-- A semicolon. -/
def semicolon : Token := .leaf (.punct ';' false)

/-- The semicolon behind the statements of a block ends the last of them. -/
theorem Reads.terminate (h : Reads (Rules.ofDepth d).stmts ts block []) :
    Reads (Rules.ofDepth d).stmts (ts ++ [semicolon]) (Grammar.terminate block) [] := by
  cases d with
  | zero => cases h
  | succ k =>
    have hread : stmtsIn (.ofDepth k) (ts.length + 1) ⟨ts, none⟩ = .ok (block, ⟨[], none⟩) := h
    show stmtsIn (.ofDepth k) ((ts ++ [semicolon]).length + 1) ⟨ts ++ [semicolon], none⟩ = _
    rw [List.length_append]
    exact stmtsIn_terminate (Rules.agree_ofDepth (Nat.le_refl k)) hread

/-- One statement more ends in a semicolon. -/
theorem countP_endsInSemi_terminate (stmts : List Stmt) :
    (Grammar.terminate stmts).countP Stmt.endsInSemi = stmts.countP Stmt.endsInSemi + 1 := by
  have hlast : ∀ s : Stmt, s.terminate.countP Stmt.endsInSemi = [s].countP Stmt.endsInSemi + 1 := by
    intro s
    unfold Stmt.terminate
    split
    · split <;> rfl
    · rfl
    · exact (List.countP_append : ([s] ++ [Stmt.empty]).countP Stmt.endsInSemi = _)
  induction stmts with
  | nil => rfl
  | cons s stmts ih =>
    rcases eq_or_ne stmts [] with rfl | hne
    · exact hlast s
    · rw [terminate_cons hne, List.countP_cons, ih, List.countP_cons, Nat.add_right_comm]

/-- The last token of a text that ends with a semicolon or a brace parts it from
a name. -/
theorem Scan.Closes.divides {s : List Char} {c : Char} (h : Closes s L) (hL : Nests L ts)
    (hs : s.getLast? = some c) (hc : isStop c = true) (n : String) (more : List Token) :
    ∃ u t, ts = u ++ [t] ∧ Divides t (.leaf (.ident n) :: more) := by
  obtain ⟨front, rfl⟩ := h.stop c hs hc
  rcases isStop_iff.1 hc with rfl | rfl
  · obtain ⟨u, hu⟩ := List.getLast?_eq_some_iff.1 (hL.getLast?_leaf List.getLast?_concat)
    exact ⟨u, _, hu, .semi _ _⟩
  · obtain ⟨inner, hlast⟩ := hL.getLast?_closing List.getLast?_concat
    obtain ⟨u, hu⟩ := List.getLast?_eq_some_iff.1 hlast
    exact ⟨u, _, hu, .block inner n more⟩

end Grammar

namespace Layout

variable {script : String} {s : List Char} {L : List Lexeme} {ts us : List Token} {t : Token}
  {block : List Stmt} {sharing : ContextSharing} {c : Continuation}

/-! ## The text of a script -/

/-- A semicolon is put behind a script, unless its last character looks like the
end of a statement. -/
def addsSemicolon (s : List Char) : Bool := s.getLast?.all fun c => !isStop c

theorem toList_asStatement (script : String) :
    (asStatement script).toList = trimEnd script.toList ++
      if addsSemicolon (trimEnd script.toList) then [';', '\n'] else ['\n'] := by
  rcases h : (trimEnd script.toList).getLast? with _ | c
  · have hnil := List.getLast?_eq_none_iff.1 h
    simp [asStatement, addsSemicolon, hnil]
  · cases hc : isStop c with
    | false =>
      have hstop : ¬(c = ';' ∨ c = '\x7d') := by simpa [isStop] using hc
      simp [asStatement, addsSemicolon, h, hc, hstop]
    | true =>
      have hstop := isStop_iff.1 hc
      simp [asStatement, addsSemicolon, h, hc, hstop]

/-- Behind a script that ends outside comments the semicolon is a token. -/
theorem spells_asStatement (h : Closes (trimEnd script.toList) L) (hL : Nests L ts) :
    Spells (asStatement script).toList
      (ts ++ if addsSemicolon (trimEnd script.toList) then [semicolon] else []) := by
  have hline : ∀ x, Scans ('\n' :: x) [] x := fun x => .blank rfl .done
  rw [toList_asStatement]
  cases addsSemicolon (trimEnd script.toList) with
  | false =>
    refine ⟨L, by simpa using hL, fun x => ?_⟩
    have hall := Scans.trans (h.append ('\n' :: x) (border_line x) fun _ => nofun) (hline x)
    simpa using hall
  | true =>
    refine ⟨L ++ [.leaf (.punct ';' false)], hL.append (.leaf .nil), fun x => ?_⟩
    have hsemi : Scans (';' :: '\n' :: x) [.leaf (.punct ';' false)] x := .step rfl rfl (hline x)
    have hborder : Border (';' :: '\n' :: x) := ⟨rfl, rfl, rfl⟩
    have hall := Scans.trans (h.append _ hborder fun _ => nofun) hsemi
    simpa using hall

/-- Behind a script that ends in a comment the semicolon is taken by it. -/
theorem spells_asStatement_of_trails (h : Trails (trimEnd script.toList) L) (hL : Nests L ts) :
    Spells (asStatement script).toList ts := by
  have hline : ∀ x, Scans ('\n' :: x) [] x := fun x => .blank rfl .done
  refine ⟨L, hL, fun x => ?_⟩
  rw [toList_asStatement]
  cases addsSemicolon (trimEnd script.toList) with
  | false =>
    have hall := Scans.trans (h.append ('\n' :: x) (border_line x) fun _ => nofun) (hline x)
    simpa using hall
  | true =>
    have hborder : Border (';' :: '\n' :: x) := ⟨rfl, rfl, rfl⟩
    have hall := Scans.trans (h.append _ hborder fun _ => nofun) (hline x)
    simpa using hall

/-- The tokens of a text in braces, if it spells some. -/
theorem tokenize_wrap_of_spells {text : String} (h : Spells text.toList us) :
    tokenize (Harness.statements.wrap text).toList = some [.group .brace us] := by
  obtain ⟨L, hL, hscans⟩ := h
  have hall := (Harness.scans_brace _).trans ((hscans braceEnd).trans scans_braceEnd)
  rw [Harness.toList_wrap_statements]
  exact tokenize_of_lexemes hall.lexemes (.group hL .nil)

/-- Such a text is read as a block of its tokens. -/
theorem isBlock_of_parse {text : String} (h : Spells text.toList us)
    (hparse : Harness.statements.parse text = .ok block) : IsBlock us block := by
  obtain ⟨ts, htokens, hreads⟩ := reads_of_parseAll hparse
  obtain ⟨inner, rfl, hstmts⟩ := Reads.of_within hreads
  have heq := Option.some.inj (htokens.symm.trans (tokenize_wrap_of_spells h))
  obtain rfl : inner = us := by simpa using heq
  exact ⟨_, hstmts⟩

/-- A text in braces gives what its tokens give. -/
theorem parse_of_spells {text : String} {r : Except SyntaxError (List Stmt)}
    (h : Spells text.toList us)
    (hstmts : (Rules.ofDepth (depthFor [.group .brace us])).stmts ⟨us, none⟩ =
      r.map fun block => (block, ⟨[], none⟩)) :
    Harness.statements.parse text = r := by
  have htokens := tokenize_wrap_of_spells h
  cases r with
  | ok block => exact parseAll_of_reads htokens (.within hstmts)
  | error e =>
    refine parseAll_of_error htokens ?_
    simp only [plainBody, Parse.within, beq_self_eq_true, if_true, hstmts, Except.map]

/-! ## Statements before a continuation -/

/-- Statements whose last token parts them from the continuation, with as much
depth as their own tokens need. -/
theorem parse_append_continuation {text : String} {stmts : List Stmt} {u : List Token} {d : ℕ}
    (htext : Spells text.toList us) (hus : us = u ++ [t])
    (ht : Divides t (continuationTokens sharing c))
    (hreads : Reads (Rules.ofDepth d).stmts us stmts []) (hd : d ≤ depthFor [.group .brace us])
    (hc : ∀ t ∈ c.targets, Names.isIdentifier t.toList = true) :
    (isSymbol .semi [t] = true → endsOpen stmts = false) ∧
      Harness.statements.parse (text ++ continuation sharing c) =
        if endsOpen stmts then .error ⟨false, .unterminated⟩
        else .ok (stmts ++ continuationStmts sharing c) := by
  have hspells : Spells (text ++ continuation sharing c).toList
      (us ++ continuationTokens sharing c) := by
    rw [String.toList_append]
    exact htext.append (spells_continuation sharing hc)
  have hdepth : max 10 d + 1 ≤ depthFor [.group .brace (us ++ continuationTokens sharing c)] := by
    obtain ⟨n, more, hmore⟩ := exists_continuationTokens sharing c
    rw [hmore]
    simp only [depthFor, Token.sizes, Token.size, Token.sizes_append] at hd ⊢
    omega
  obtain ⟨hsemi, heq⟩ := Grammar.stmts_append ht hus hreads (readsFrom_continuation sharing c)
    (continuationTokens_start sharing c).1 (length_continuationStmts_le sharing c) _ hdepth
  refine ⟨hsemi, parse_of_spells hspells ?_⟩
  rw [heq]
  split <;> rfl

/-- The statements of a continuation are a block. -/
theorem isBlock_continuation (sharing : ContextSharing) (c : Continuation) :
    IsBlock (continuationTokens sharing c) (continuationStmts sharing c) :=
  isBlock_of_stmtsIn (readsFrom_continuation sharing c 10 (Nat.le_refl _))

/-- A script that ends outside comments, before a continuation. -/
theorem parse_asStatement_of_closes (hcloses : Closes (trimEnd script.toList) L) (hL : Nests L ts)
    (hreads : Reads (Rules.ofDepth (depthFor [.group .brace ts])).stmts ts block [])
    (sharing : ContextSharing) (hc : ∀ t ∈ c.targets, Names.isIdentifier t.toList = true) :
    Harness.statements.parse (asStatement script ++ continuation sharing c) =
      if addsSemicolon (trimEnd script.toList) then
        .ok (terminate block ++ continuationStmts sharing c)
      else if endsOpen block then .error ⟨false, .unterminated⟩
      else .ok (block ++ continuationStmts sharing c) := by
  have hscript := spells_asStatement hcloses hL
  cases hadds : addsSemicolon (trimEnd script.toList) with
  | true =>
    rw [hadds] at hscript
    have hdepth : depthFor [.group .brace ts] ≤ depthFor [.group .brace (ts ++ [semicolon])] := by
      simp only [depthFor, Token.sizes, Token.size, Token.sizes_append]
      omega
    obtain ⟨hclosed, heq⟩ := parse_append_continuation hscript rfl (.semi false _)
      hreads.terminate hdepth hc
    rw [heq, hclosed rfl]
    rfl
  | false =>
    rw [hadds, if_neg Bool.false_ne_true, List.append_nil] at hscript
    obtain ⟨e, hlast, he⟩ : ∃ e, (trimEnd script.toList).getLast? = some e ∧ isStop e = true := by
      cases hlast : (trimEnd script.toList).getLast? with
      | none => simp [addsSemicolon, hlast] at hadds
      | some e => exact ⟨e, rfl, by simpa [addsSemicolon, hlast] using hadds⟩
    obtain ⟨n, more, hmore⟩ := exists_continuationTokens sharing c
    obtain ⟨u, t, hts, ht⟩ := hcloses.divides hL hlast he n more
    rw [← hmore] at ht
    exact (parse_append_continuation hscript hts ht hreads (Nat.le_refl _) hc).2

/-- A script that ends in a comment, before a continuation: its last statement
needs no semicolon. -/
theorem parse_asStatement_of_trails (htrails : Trails (trimEnd script.toList) L) (hL : Nests L ts)
    (hreads : Reads (Rules.ofDepth (depthFor [.group .brace ts])).stmts ts block [])
    (sharing : ContextSharing) (hc : ∀ t ∈ c.targets, Names.isIdentifier t.toList = true)
    (hclosed : endsOpen block = false) :
    Harness.statements.parse (asStatement script ++ continuation sharing c) =
      .ok (block ++ continuationStmts sharing c) := by
  have hscript := spells_asStatement_of_trails htrails hL
  have hblock : IsBlock ts block := ⟨_, hreads⟩
  rcases eq_or_ne ts [] with rfl | hne
  · -- There is only a comment, and the continuation stands alone.
    obtain rfl : block = [] := by
      cases hreads
      rfl
    have hspells := hscript.append (spells_continuation sharing hc)
    rw [← String.toList_append, List.nil_append] at hspells
    refine parse_of_spells hspells ?_
    exact (isBlock_continuation sharing c).reads (by
      simp only [depthFor, Token.sizes, Token.size]
      omega)
  · obtain ⟨n, more, hmore⟩ := exists_continuationTokens sharing c
    obtain ⟨u, t, hts, ht⟩ := hblock.exists_isStop hne hclosed
    have hdivides : Divides t (continuationTokens sharing c) := hmore ▸ .of_isStop ht n more
    obtain ⟨-, heq⟩ := parse_append_continuation hscript hts hdivides hreads (Nat.le_refl _) hc
    rw [heq, hclosed]
    rfl

/-- Such a script is never read with its last statement ended: there is one
semicolon too few. -/
theorem parse_asStatement_ne_of_trails (htrails : Trails (trimEnd script.toList) L)
    (hL : Nests L ts) (hblock : IsBlock ts block) (sharing : ContextSharing)
    (hc : ∀ t ∈ c.targets, Names.isIdentifier t.toList = true) :
    Harness.statements.parse (asStatement script ++ continuation sharing c) ≠
      .ok (terminate block ++ continuationStmts sharing c) := by
  intro hparse
  have hspells := (spells_asStatement_of_trails htrails hL).append (spells_continuation sharing hc)
  rw [← String.toList_append] at hspells
  have hcount := (isBlock_of_parse hspells hparse).countP_isSemi
  rw [List.countP_append, List.countP_append, countP_endsInSemi_terminate, hblock.countP_isSemi,
    (isBlock_continuation sharing c).countP_isSemi] at hcount
  omega

/-- **A script before a continuation**: where a semicolon is put behind it, the
last statement of the script is ended by it. Where none is put, the statements
are read as they are, unless the last one needs a semicolon; then the text is
refused for want of one. A script that ends in a comment has no semicolon put
behind it that is read: its statements are read as they are if the last one
needs none, and otherwise it is not ended. -/
theorem parse_asStatement (h : parseBlock ("\x7b" ++ script ++ "\n\x7d") = .ok block)
    (sharing : ContextSharing) (hc : ∀ t ∈ c.targets, Names.isIdentifier t.toList = true) :
    (endsInLine (trimEnd script.toList) = false →
      Harness.statements.parse (asStatement script ++ continuation sharing c) =
        if addsSemicolon (trimEnd script.toList) then
          .ok (terminate block ++ continuationStmts sharing c)
        else if endsOpen block then .error ⟨false, .unterminated⟩
        else .ok (block ++ continuationStmts sharing c)) ∧
    (endsInLine (trimEnd script.toList) = true →
      if endsOpen block then
        Harness.statements.parse (asStatement script ++ continuation sharing c) ≠
          .ok (terminate block ++ continuationStmts sharing c)
      else
        Harness.statements.parse (asStatement script ++ continuation sharing c) =
          .ok (block ++ continuationStmts sharing c)) := by
  obtain ⟨L, ts, hL, hreads, hcloses | htrails⟩ := Harness.ends_of_parseBlock_lines h
  · refine ⟨fun _ => parse_asStatement_of_closes hcloses hL hreads sharing hc, fun hline => ?_⟩
    rw [hcloses.endsInLine] at hline
    cases hline
  · refine ⟨fun hline => ?_, fun _ => ?_⟩
    · rw [htrails.runsOn.endsInLine] at hline
      cases hline
    · split
      · exact parse_asStatement_ne_of_trails htrails hL ⟨_, hreads⟩ sharing hc
      · rename_i hclosed
        exact parse_asStatement_of_trails htrails hL hreads sharing hc (Bool.eq_false_iff.2 hclosed)

theorem parse_asStatement_log :
    (∃ block, parseBlock ("\x7b" ++ "log(x)" ++ "\n\x7d") = .ok block ∧
      Harness.statements.parse (asStatement "log(x)" ++ continuation .shared (.next "Done")) =
        .ok (terminate block ++ continuationStmts .shared (.next "Done"))) ∧
    ∃ block, parseBlock ("\x7b" ++ "f(); // g" ++ "\n\x7d") = .ok block ∧
      Harness.statements.parse (asStatement "f(); // g" ++ continuation .shared (.next "Done")) =
        .ok (block ++ continuationStmts .shared (.next "Done")) := by
  have hcall : (parseBlock ("\x7b" ++ "log(x)" ++ "\n\x7d")).isOk = true := by decide +kernel
  have hcomment : (parseBlock ("\x7b" ++ "f(); // g" ++ "\n\x7d")).toOption.map endsOpen =
      some false := by decide +kernel
  constructor
  · rcases h : parseBlock ("\x7b" ++ "log(x)" ++ "\n\x7d") with e | block
    · rw [h] at hcall
      cases hcall
    · have hparse := (parse_asStatement (c := .next "Done") h .shared (by decide +kernel)).1
        (by decide +kernel)
      rw [if_pos (by decide +kernel)] at hparse
      exact ⟨block, rfl, hparse⟩
  · rcases h : parseBlock ("\x7b" ++ "f(); // g" ++ "\n\x7d") with e | block
    · rw [h] at hcomment
      cases hcomment
    · rw [h] at hcomment
      have hparse := (parse_asStatement (c := .next "Done") h .shared (by decide +kernel)).2
        (by decide +kernel)
      rw [Option.some.inj hcomment] at hparse
      exact ⟨block, rfl, hparse⟩

/-- An assignment of a record ends in a brace and needs a semicolon; a comment
behind a call takes the semicolon that is put there. -/
theorem not_accepts_asStatement_record :
    (parseBlock ("\x7b" ++ "x = S \x7b a: 1 \x7d" ++ "\n\x7d")).isOk = true ∧
      Harness.statements.accepts (asStatement "x = S \x7b a: 1 \x7d" ++
        continuation .shared .halt) = false ∧
      (parseBlock ("\x7b" ++ "f() // done" ++ "\n\x7d")).isOk = true ∧
      Harness.statements.accepts (asStatement "f() // done" ++ continuation .shared .halt) = false := by
  decide +kernel

end Layout

end ProcessCompiler
