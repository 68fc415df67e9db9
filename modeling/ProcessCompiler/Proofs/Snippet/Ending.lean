import ProcessCompiler.Proofs.Grammar.Division
import ProcessCompiler.Proofs.Scan.Truncation
import ProcessCompiler.Proofs.Snippet.Boundary
/-!
# The end of an invocation

Whether a task's text is cut is a matter of the tokens of its body: it is
exactly if they end in an expression that stands at their start or behind a
semicolon. Main statement: `isSome_split_iff_endsInExpr`. Where the text ends
inside a comment it has closed its block itself, and then only a semicolon in
that comment can cut it.
-/

namespace ProcessCompiler

open Grammar Scan Lexeme Text

namespace Grammar

variable {ts : List Token} {t : List Char} {e : Expr}

/-- The tokens end in an expression, which stands at their start or behind a
semicolon and is not the test of a pattern. -/
def EndsInExpr (ts : List Token) : Prop :=
  ∃ front run e, ts = front ++ run ∧ (front = [] ∨ endsInSemi front = true) ∧ IsExpr run e ∧
    e.isLetting = false

theorem parseExpr_iff (h : tokenize t = some ts) :
    parseExpr (String.ofList t) = .ok e ↔ IsExpr ts e := by
  constructor
  · intro hparse
    obtain ⟨us, hus, hreads⟩ := reads_of_parseAll hparse
    rw [String.toList_ofList, h] at hus
    obtain rfl := Option.some.inj hus
    exact ⟨_, hreads⟩
  · intro hexpr
    have htokens : tokenize (String.ofList t).toList = some ts := by rw [String.toList_ofList, h]
    refine parseAll_of_reads htokens (hexpr.reads ?_)
    rw [depthFor]
    omega

/-- A semicolon among nested lexemes. -/
theorem Lexeme.Nests.exists_semi {L M : List Lexeme} {joint : Bool} {us : List Token}
    (h : Nests (L ++ .leaf (.punct ';' joint) :: M) ts) (hL : Nests L us) :
    ∃ more, ts = us ++ .leaf (.punct ';' joint) :: more ∧ Nests M more := by
  obtain ⟨more, rfl, hmore⟩ := h.exists_behind hL
  cases hmore with
  | leaf hmore => exact ⟨_, rfl, hmore⟩

end Grammar

namespace Harness

/-- A text that ends outside comments is accepted if its tokens are a block. -/
theorem accepts_of_isBlock {text : String} {L : List Lexeme} {ts : List Token} {block : List Stmt}
    (hcloses : Closes text.toList L) (hL : Nests L ts) (h : IsBlock ts block) :
    statements.accepts text = true := by
  have hwrap : Scans (text.toList ++ braceEnd) (L ++ [.closing .brace]) [] :=
    Scans.trans (hcloses.append braceEnd border_braceEnd fun _ => by simp [braceEnd])
      (.blank rfl (.step rfl rfl .done))
  have htokens : tokenize (statements.wrap text).toList = some [.group .brace ts] := by
    rw [toList_wrap_statements]
    exact tokenize_of_lexemes ((scans_brace _).trans hwrap).lexemes (.group hL .nil)
  refine accepts_iff.2 ⟨block, parseAll_of_reads htokens (.within (h.reads ?_))⟩
  simp [depthFor, Token.sizes, Token.size]
  omega

end Harness

namespace Invocation

variable {text : String} {t b : List Char} {ts : List Token} {block : List Stmt}

theorem isTail_iff (h : tokenize t = some ts) :
    isTail t = true ↔ ∃ e, IsExpr ts e ∧ e.isLetting = false := by
  unfold isTail
  constructor
  · intro htail
    split at htail
    · rename_i e hparse
      exact ⟨e, (parseExpr_iff h).1 hparse, by simpa using htail⟩
    · cases htail
  · rintro ⟨e, hexpr, hletting⟩
    rw [(parseExpr_iff h).2 hexpr]
    simp [hletting]

/-- What is read as an expression has tokens. -/
theorem exists_tokenize_of_isTail (h : isTail t = true) : ∃ ts, tokenize t = some ts := by
  obtain ⟨e, hparse⟩ := exists_parseExpr_of_isTail h
  obtain ⟨ts, hts, -⟩ := reads_of_parseAll hparse
  rw [String.toList_ofList] at hts
  exact ⟨ts, hts⟩

theorem isSome_split_iff (text : String) : (split text).isSome = true ↔
    isTail (body text.toList) = true ∨ ∃ k : Semicolon (body text.toList), k.Works := by
  unfold split
  dsimp only
  split_ifs with hempty htail
  · rw [List.isEmpty_iff] at hempty
    rw [hempty, isTail_nil]
    simp only [Option.isSome_none, Bool.false_eq_true, false_or, false_iff, not_exists]
    intro k
    exact absurd k.text_eq (by simp)
  · simp [htail]
  · rw [isSome_findSome?_cuts_iff]
    simp [htail]

/-- The two parts of a text that is cut at a semicolon that works. -/
theorem Semicolon.Works.parts {k : Semicolon (body text.toList)} (h : k.Works) :
    Parts text k.invocation := by
  obtain ⟨hne, htail, haccepts⟩ := h
  obtain ⟨lead, trail, hlead, htext⟩ := exists_append_body text.toList
  obtain ⟨w, hw, hafter⟩ := k.exists_blank hne
  refine ⟨exists_parseExpr_of_isTail htail, ?_, lead, w, trail, hlead, hw, ?_⟩
  · rintro p hp
    obtain rfl := Option.some.inj hp
    refine ⟨?_, haccepts⟩
    rw [String.toList_ofList, k.trim_front]
    exact List.getLast?_concat
  · have hbody : body text.toList = k.front ++ (w ++ trim k.after) := by
      rw [← hafter, ← k.text_eq_append]
    calc text.toList = lead ++ (body text.toList ++ trail) := htext
      _ = lead ++ (k.front ++ (w ++ trim k.after) ++ trail) :=
        congrArg (fun b => lead ++ (b ++ trail)) hbody
      _ = _ := by simp [invocation, k.trim_front]

/-! ## Texts that end outside comments -/

/-- The tokens of a text that has lexemes, and no mark of the byte order. -/
theorem exists_nests_of_tokenize (h : tokenize t = some ts) (hmark : ∀ x, t ≠ '\uFEFF' :: x) :
    ∃ L, lexemes t = some L ∧ Nests L ts :=
  (lexemes_of_tokenize h).resolve_left fun ⟨x, hx⟩ => hmark x hx

/-- The body of a text with lexemes does not begin with the mark. -/
theorem body_ne_orderMark (h : Harness.statements.parse text = .ok block) (x : List Char) :
    body text.toList ≠ '\uFEFF' :: x := by
  intro hbody
  obtain ⟨L, hL⟩ := Harness.exists_lexemes_of_parse_statements h
  obtain ⟨lead, trail, hlead, htext⟩ := exists_append_body text.toList
  rw [hbody] at htext
  rw [htext, List.cons_append, (orderMark_behind_blanks hlead _).2] at hL
  cases hL

/-- A semicolon that works and stands outside comments divides the tokens of the
body. -/
theorem Semicolon.Works.tokenize_body {k : Semicolon (body text.toList)} (h : k.Works)
    (haccepts : Harness.statements.accepts text = true) (hend : endsInLine k.front = false) :
    ∃ before run joint, tokenize (trim k.after) = some run ∧
      tokenize (body text.toList) = some (before ++ .leaf (.punct ';' joint) :: run) := by
  have hparts := h.parts
  obtain ⟨hne, htail, hfront⟩ := h
  rw [k.trim_front] at hfront
  obtain ⟨front, hparse⟩ := Harness.accepts_iff.1 hfront
  have hlist : (String.ofList k.front).toList = k.front := String.toList_ofList
  obtain ⟨L, us, hcloses, hL, -⟩ :=
    Harness.closes_of_parse_statements hparse (by rw [hlist]; exact hend)
  rw [hlist] at hcloses
  -- Before the semicolon the text is scanned as it is alone.
  obtain ⟨K, hK, rfl⟩ := hcloses.of_semi
  obtain ⟨before, hbefore⟩ : ∃ before, Nests K before := by
    obtain ⟨before, hus⟩ := List.getLast?_eq_some_iff.1 (hL.getLast?_leaf List.getLast?_concat)
    rw [hus] at hL
    obtain ⟨K', M, hKM, hK', hM⟩ := hL.exists_append
    cases hM with
    | leaf hM =>
      cases hM
      exact ⟨before, by rwa [List.append_cancel_right hKM]⟩
  obtain ⟨run, hrun⟩ := exists_tokenize_of_isTail htail
  have hmark : ∀ x, trim k.after ≠ '\uFEFF' :: x := by
    intro x hx
    refine hparts.tail_ne_orderMark haccepts ?_ x ?_
    · rintro p hp
      obtain rfl := Option.some.inj hp
      rw [String.toList_ofList, k.trim_front]
      exact hend
    · exact String.toList_ofList.trans hx
  obtain ⟨M, hM, hMrun⟩ := exists_nests_of_tokenize hrun hmark
  obtain ⟨w, hw, hafter⟩ := k.exists_blank hne
  have hscans : lexemes k.after = some M := by
    rw [hafter, show _ = _ from scans_blanks hw _, hM]
    rfl
  have hlexemes : lexemes (body text.toList) = some (K ++ .leaf (.punct ';' (joins k.after)) :: M) := by
    refine (congrArg lexemes k.text_eq).trans ?_
    rw [hK.append _ (border_semi _) fun _ => by simp, show _ = _ from scans_semi _, hscans]
    rfl
  exact ⟨before, run, joins k.after, hrun, tokenize_of_lexemes hlexemes (hbefore.append (.leaf hMrun))⟩

/-- Statements that end in a comment close their block before it, so no text
that goes on behind them matches. -/
theorem count_of_open_front {before rest : List Char} {L : List Lexeme}
    (h : Harness.statements.parse (String.ofList (before ++ [';'])) = .ok block)
    (hend : endsInLine (before ++ [';']) = true)
    (hL : lexemes (before ++ ';' :: rest) = some L) :
    ∃ K N, L = K ++ N ∧ K.count (.closing .brace) = K.count (.opening .brace) + 1 := by
  have hlist : (String.ofList (before ++ [';'])).toList = before ++ [';'] := String.toList_ofList
  obtain ⟨M, hM, -, -, hcount⟩ := Harness.runsOn_of_parse_statements h (by rw [hlist]; exact hend)
  rw [hlist] at hM
  obtain ⟨K, hK⟩ := exists_lexemes_of_semi hM
  have hopen : endsInLine before = true := by
    rcases closes_or_runsOn hK with hcloses | hruns
    · rw [hcloses.semicolon.endsInLine] at hend
      cases hend
    · exact hruns.endsInLine
  obtain ⟨M₁, N₁, hN₁, rfl, hM₁⟩ :=
    exists_of_endsInLine hK hopen (border_semi []) (fun _ => by simp) hM
  obtain ⟨M₂, N₂, -, rfl, hM₂⟩ :=
    exists_of_endsInLine hK hopen (border_semi rest) (fun _ => by simp) hL
  obtain rfl : [] = N₁ := Option.some.inj hN₁
  obtain ⟨hopening, hclosing⟩ := count_eq_of_brackets (hM₂.trans hM₁.symm) .brace
  rw [List.append_nil] at hcount
  exact ⟨M₂, N₂, rfl, by rw [hopening, hclosing, hcount]⟩

/-- A text of which nothing is left but blanks has no lexemes. -/
theorem lexemes_of_trim (h : trim t = []) : lexemes t = some [] := by
  obtain ⟨lead, hlead, ht⟩ := exists_append_trimStart t
  obtain ⟨trail, htrail, hstart⟩ := exists_append_dropEndWhile isBlank (trimStart t)
  rw [show dropEndWhile isBlank (trimStart t) = [] from h, List.nil_append] at hstart
  rw [ht, hstart, show _ = _ from scans_blanks hlead _]
  have hnil := scans_blanks htrail []
  rw [List.append_nil] at hnil
  rw [hnil.lexemes]
  rfl

/-- A semicolon before an expression that ends the tokens of the body works. -/
theorem exists_works_of_isExpr {before run : List Token} {joint : Bool} {e : Expr}
    (h : Harness.statements.parse text = .ok block) (hend : endsInLine text.toList = false)
    (htokens : tokenize (body text.toList) = some (before ++ .leaf (.punct ';' joint) :: run))
    (hrun : IsExpr run e) (hletting : e.isLetting = false) :
    ∃ k : Semicolon (body text.toList), k.Works := by
  obtain ⟨L, hL, hnests⟩ := exists_nests_of_tokenize htokens (body_ne_orderMark h)
  obtain ⟨K, M, rfl, hK, hM⟩ := hnests.exists_append
  cases hM with
  | @leaf _ M _ hM =>
    obtain ⟨x, z, hbody, hcloses, hz⟩ := exists_cut hL
    let k : Semicolon (body text.toList) := ⟨x, z, hbody⟩
    have hne : trim z ≠ [] := by
      intro hnil
      rw [lexemes_of_trim hnil] at hz
      obtain rfl := Option.some.inj hz
      cases hM
      exact hrun.ne_nil rfl
    obtain ⟨w, hw, hafter⟩ := k.exists_blank hne
    have htail : tokenize (trim z) = some run := by
      rw [show z = w ++ trim z from hafter, show _ = _ from scans_blanks hw _] at hz
      exact tokenize_of_lexemes (by simpa using hz) hM
    refine ⟨k, hne, (isTail_iff htail).2 ⟨e, hrun, hletting⟩, ?_⟩
    rw [k.trim_front]
    -- The statements of the whole text are divided at the semicolon.
    obtain ⟨L, us, htext, hL, hreads⟩ := Harness.closes_of_parse_statements h hend
    obtain ⟨lead, trail, hlead, heq⟩ := exists_append_body text.toList
    have hlex := htext.lexemes
    rw [heq, show _ = _ from scans_blanks hlead _, hbody, List.append_assoc, List.cons_append,
      hcloses.append _ (border_semi _) fun _ => by simp, show _ = _ from scans_semi _] at hlex
    obtain ⟨N, hN, rfl⟩ : ∃ N, lexemes (z ++ trail) = some N ∧
        L = K ++ .leaf (.punct ';' (joins (z ++ trail))) :: N := by
      rcases hN : lexemes (z ++ trail) with _ | N
      · rw [hN] at hlex
        cases hlex
      · rw [hN] at hlex
        exact ⟨N, rfl, (Option.some.inj hlex).symm⟩
    obtain ⟨more, rfl, -⟩ := hL.exists_semi hK
    obtain ⟨front, -, -, hfront, -⟩ := IsBlock.divide ⟨_, hreads⟩ false
    refine Harness.accepts_of_isBlock (L := K ++ [.leaf (.punct ';' false)]) ?_
      (hK.append (.leaf .nil)) hfront
    rw [String.toList_ofList]
    exact hcloses.semicolon

/-- **A text that ends outside comments is cut exactly if the tokens of its body
end in an expression.** -/
theorem isSome_split_iff_endsInExpr (h : Harness.statements.parse text = .ok block)
    (hend : endsInLine text.toList = false) :
    (split text).isSome = true ↔
      ∃ ts, tokenize (body text.toList) = some ts ∧ EndsInExpr ts := by
  rw [isSome_split_iff]
  constructor
  · rintro (htail | ⟨k, hworks⟩)
    · obtain ⟨ts, hts⟩ := exists_tokenize_of_isTail htail
      obtain ⟨e, he, hletting⟩ := (isTail_iff hts).1 htail
      exact ⟨ts, hts, [], ts, e, rfl, .inl rfl, he, hletting⟩
    · cases hfront : endsInLine k.front with
      | false =>
        obtain ⟨before, run, joint, hrun, hbody⟩ :=
          hworks.tokenize_body (Harness.accepts_iff.2 ⟨block, h⟩) hfront
        obtain ⟨e, he, hletting⟩ := (isTail_iff hrun).1 hworks.2.1
        refine ⟨_, hbody, before ++ [.leaf (.punct ';' joint)], run, e, by simp, .inr ?_, he, hletting⟩
        exact endsInSemi_iff.2 ⟨before, joint, rfl⟩
      | true =>
        -- The front would close the block of the whole text.
        obtain ⟨L, us, hcloses, hL, -⟩ := Harness.closes_of_parse_statements h hend
        obtain ⟨lead, trail, hlead, htext⟩ := exists_append_body text.toList
        obtain ⟨front, hparse⟩ := Harness.accepts_iff.1 hworks.2.2
        rw [k.trim_front] at hparse
        have hlex : lexemes (k.before ++ ';' :: (k.after ++ trail)) = some L := by
          have hlex := hcloses.lexemes
          rw [htext, show _ = _ from scans_blanks hlead _] at hlex
          rw [← List.cons_append, ← List.append_assoc, ← k.text_eq]
          simpa using hlex
        obtain ⟨K, N, rfl, hcount⟩ := count_of_open_front hparse hfront hlex
        have hle := hL.count_closing_le .brace
        omega
  · rintro ⟨ts, hts, front, run, e, rfl, hfront, he, hletting⟩
    rcases hfront with rfl | hfront
    · exact .inl ((isTail_iff hts).2 ⟨e, he, hletting⟩)
    · obtain ⟨before, joint, rfl⟩ := endsInSemi_iff.1 hfront
      rw [List.append_assoc] at hts
      exact .inr (exists_works_of_isExpr h hend hts he hletting)

end Invocation

end ProcessCompiler
