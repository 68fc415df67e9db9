import ProcessCompiler.Proofs.Grammar.Reading
import ProcessCompiler.Proofs.Scan.Spelling
import ProcessCompiler.Snippet.Harness
/-!
# Texts inside their harness

A text that is one expression on its own, and is read inside the parentheses
of its harness, is that expression there as well: it can neither close the
harness nor open another one. What could still go wrong is that the text does
not end where it seems to, because a comment of its last line takes the code
of the harness, or that it begins with a mark that is dropped only at the
start of a text. Neither is then read at all.
-/

namespace ProcessCompiler

open Grammar Scan Lexeme

namespace Grammar

variable {α : Type} {rule : Rules → Parse α} {text : String} {a : α} {ts : List Token}
  {L : List Lexeme}

/-! ## Reading whole texts -/

theorem parseAll_of_tokenize_none (h : tokenize text.toList = none) :
    parseAll rule text = .error ⟨false, .unreadable⟩ := by
  simp [parseAll, h]

theorem parseAll_of_reads (h : tokenize text.toList = some ts)
    (hreads : Reads (rule (.ofDepth (depthFor ts))) ts a []) : parseAll rule text = .ok a := by
  simp only [parseAll, h]
  rw [show rule (.ofDepth (depthFor ts)) ⟨ts, none⟩ = _ from hreads]

theorem parseAll_of_error {e : SyntaxError} (h : tokenize text.toList = some ts)
    (herror : rule (.ofDepth (depthFor ts)) ⟨ts, none⟩ = .error e) :
    parseAll rule text = .error e := by
  simp only [parseAll, h, herror]

/-- What is read from a text is read from its tokens, to their end. -/
theorem reads_of_parseAll (h : parseAll rule text = .ok a) :
    ∃ ts, tokenize text.toList = some ts ∧ Reads (rule (.ofDepth (depthFor ts))) ts a [] := by
  unfold parseAll at h
  rcases htokens : tokenize text.toList with _ | ts
  · rw [htokens] at h
    cases h
  · rw [htokens] at h
    refine ⟨ts, rfl, ?_⟩
    unfold Reads
    rcases hrule : rule (.ofDepth (depthFor ts)) ⟨ts, none⟩ with e | ⟨a', ⟨_ | ⟨t, rest⟩, _ | d⟩⟩ <;>
      simp only [hrule, reduceCtorEq, Except.ok.injEq] at h
    rw [h]

/-- Expressions are read alike at every depth from that of their tokens on. -/
theorem readsFrom_of_parseExpr {e : Expr} (h : parseExpr text = .ok e) :
    ∃ ts, tokenize text.toList = some ts ∧ ts ≠ [] ∧
      ReadsFrom (depthFor ts) (·.expr true) ts e [] := by
  obtain ⟨ts, htokens, hreads⟩ := reads_of_parseAll h
  refine ⟨ts, htokens, ?_, fun n hn => ?_⟩
  · rintro rfl
    cases hreads
  · exact ((Rules.agree_ofDepth hn).expr .closed never ts true).ok hreads

/-! ## Brackets that do not match -/

/-- A text whose brackets of one kind do not close as often as they open makes
no tokens. -/
theorem tokenize_of_count {t : List Char} (h : lexemes t = some L) {d : Delimiter}
    (hd : L.count (.opening d) ≠ L.count (.closing d)) : tokenize t = none := by
  rw [tokenize, dropOrderMark_of_lexemes h, h]
  refine Option.eq_none_iff_forall_ne_some.2 fun ts hts => hd ?_
  exact (nest_eq_some_iff.1 hts).count_eq d

/-! ## Texts in the middle of others -/

/-- The text means the same among other code as on its own: it does not begin
with the mark of the byte order, and does not end inside a comment. -/
def isSelfContained (t : List Char) : Bool := t.head? != some '\uFEFF' && !endsInLine t

section Between

variable {t x B : List Char} {K M N : List Lexeme}

/-- A text that makes tokens in parentheses, if it is self-contained. -/
theorem lexemes_between (hx : Scans x K ('(' :: (t ++ ')' :: B))) (hB : Scans B M [])
    (ht : tokenize t = some ts) (hts : ts ≠ []) (hself : isSelfContained t = true) :
    ∃ L, Nests L ts ∧
      lexemes x = some (K ++ (.opening .paren :: (L ++ [.closing .paren]) ++ M)) := by
  simp only [isSelfContained, Bool.and_eq_true, bne_iff_ne, Bool.not_eq_true'] at hself
  rcases lexemes_of_tokenize ht with ⟨x, rfl⟩ | ⟨L, hlex, hL⟩
  · exact absurd rfl hself.1
  · have hparen := scans_paren (closes_of_lexemes hlex hself.2) hL hts B
    exact ⟨L, hL, (hx.trans (hparen.trans hB)).lexemes⟩

/-- In parentheses it makes no tokens if it is not: its comment takes the rest
of the line, and the code around it closes no more parentheses than it opens. -/
theorem tokenize_between_eq_none (hx : Scans ('\x7b' :: x) K ('(' :: (t ++ ')' :: B)))
    (hB : '\r' ∉ B.takeWhile (· != '\n')) (hN : Scans (afterLine B) N [])
    (hcount : (K ++ N).count (.closing .paren) ≤ (K ++ N).count (.opening .paren))
    (ht : tokenize t = some ts) (hts : ts ≠ []) (hself : isSelfContained t = false) :
    tokenize ('\x7b' :: x) = none := by
  rcases lexemes_of_tokenize ht with ⟨y, rfl⟩ | ⟨L, hlex, hL⟩
  · have hopen : Scans ('(' :: '\uFEFF' :: (y ++ ')' :: B)) [.opening .paren]
        ('\uFEFF' :: (y ++ ')' :: B)) := .step rfl rfl .done
    have hnone := hx.trans hopen
    rw [Scans, lexemes_orderMark] at hnone
    rw [tokenize, dropOrderMark, if_neg (by decide)]
    exact congrArg (Option.bind · nest) hnone
  · have hmark : (t.head? != some '\uFEFF') = true := by
      refine bne_iff_ne.2 fun hhead => ?_
      obtain ⟨y, rfl⟩ := List.head?_eq_some_iff.1 hhead
      rw [lexemes_orderMark] at hlex
      cases hlex
    have hend : endsInLine t = true := by simpa [isSelfContained, hmark] using hself
    obtain ⟨M, hM, hopen⟩ := scans_paren_of_runsOn hlex (runsOn_of_lexemes hlex hend) hL hts hB
    refine tokenize_of_count ((hx.trans (hopen.trans hN)).lexemes) (d := .paren) ?_
    have hbalanced := hL.count_eq .paren
    obtain ⟨hopening, hclosing⟩ := count_eq_of_brackets hM .paren
    simp only [List.count_append, List.count_cons, beq_self_eq_true, if_true, reduceCtorEq,
      beq_iff_eq, if_false, hopening, hclosing, hbalanced] at hcount ⊢
    omega

end Between

end Grammar

namespace Harness

variable {text : String} {e : Expr} {ts : List Token} {block : List Stmt}

/-- How a harness puts the text of an expression in parentheses: the code on
both sides with its lexemes, the tokens of the whole, and the statements that
are read from it. -/
structure Frame (h : Harness) where
  before : List Char
  behind : List Char
  opened : List Lexeme
  closed : List Lexeme
  tokens : List Token → List Token
  stmts : Expr → List Stmt
  ne_statements : h ≠ statements
  toList_wrap : ∀ text : String, (h.wrap text).toList =
    '\x7b' :: (before ++ '(' :: (text.toList ++ ')' :: behind))
  scans_before : ∀ r, Scans ('\x7b' :: (before ++ '(' :: r)) opened ('(' :: r)
  scans_behind : Scans behind closed []
  balanced : opened.count (.opening .paren) = opened.count (.closing .paren)
  one_line : '\n' ∉ behind ∧ '\r' ∉ behind
  nests : ∀ {L ts}, Nests L ts →
    Nests (opened ++ (.opening .paren :: (L ++ [.closing .paren]) ++ closed)) (tokens ts)
  depth : ∀ ts, depthFor ts + 4 ≤ depthFor (tokens ts)
  reads : ∀ {d ts e}, ReadsFrom d (·.expr true) ts e [] → ts ≠ [] → 8 ≤ d →
    ReadsFrom (d + 4) plainBody (tokens ts) (stmts e) []

namespace Frame

variable {h : Harness}

theorem parse_eq (F : Frame h) (text : String) :
    h.parse text = (parseExpr text).bind fun _ => parseBlock (h.wrap text) := by
  simp only [parse, if_pos F.ne_statements]
  cases parseExpr text <;> rfl

/-- The code around a self-contained expression is read as its statements. -/
theorem parseBlock_of_parseExpr (F : Frame h) (he : parseExpr text = .ok e) :
    parseBlock (h.wrap text) =
      if isSelfContained text.toList then .ok (F.stmts e) else .error ⟨false, .unreadable⟩ := by
  obtain ⟨ts, htokens, hts, hreads⟩ := readsFrom_of_parseExpr he
  split_ifs with hself
  · obtain ⟨L, hL, hlex⟩ := lexemes_between (F.scans_before _) F.scans_behind htokens hts hself
    have hwrap : tokenize (h.wrap text).toList = some (F.tokens ts) := by
      rw [F.toList_wrap]
      exact tokenize_of_lexemes hlex (F.nests hL)
    have hdepth : 8 ≤ depthFor ts := by
      unfold depthFor
      omega
    exact parseAll_of_reads hwrap (F.reads hreads hts hdepth _ (F.depth ts))
  · refine parseAll_of_tokenize_none ?_
    have hline : afterLine F.behind = [] :=
      List.dropWhile_eq_nil_iff.2 fun c hc => bne_iff_ne.2 fun h => F.one_line.1 (h ▸ hc)
    rw [F.toList_wrap]
    refine tokenize_between_eq_none (N := []) (F.scans_before _)
      (fun h => F.one_line.2 (List.takeWhile_subset _ h)) (by rw [hline]; exact .done) ?_ htokens hts
      (Bool.eq_false_iff.2 hself)
    rw [List.append_nil, F.balanced]

/-- **A text fits exactly if it is a self-contained expression**, and is that
expression inside the harness. -/
theorem parse_eq_ok_iff (F : Frame h) : h.parse text = .ok block ↔
    isSelfContained text.toList = true ∧ ∃ e, parseExpr text = .ok e ∧ block = F.stmts e := by
  rw [F.parse_eq]
  rcases he : parseExpr text with c | e
  · simp [Except.bind]
  · simp only [Except.bind, F.parseBlock_of_parseExpr he, Except.ok.injEq, exists_eq_left']
    split_ifs with hself
    · simp [hself, eq_comm]
    · simp [hself]

end Frame

/-! ## Conditions -/

/-- The statement that the harness of a condition guards. -/
def mark : Stmt := .expr [] (.assign (.name "x") (.literal ⟨.number, ['1']⟩)) true

/-- The tokens of that statement. -/
def markTokens : List Token :=
  [.leaf (.ident "x"), .leaf (.punct '=' false), .leaf (.literal ⟨.number, ['1']⟩),
   .leaf (.punct ';' false)]

theorem readsFrom_mark : ReadsFrom 8 (·.stmts) markTokens [mark] [] := by
  intro n hn
  obtain ⟨k, rfl⟩ := Nat.exists_eq_add_of_le' hn
  rfl

/-- The harness around the tokens of an expression. -/
theorem readsFrom_condition {d : ℕ} (h : ReadsFrom d (·.expr true) ts e []) (hts : ts ≠ [])
    (hd : 8 ≤ d) : ReadsFrom (d + 4) plainBody
      [.group .brace [.leaf (.keyword .if_), .group .paren ts, .group .brace markTokens]]
      [.expr [] (.branch (.paren e) [mark] none) false] [] := by
  have hparen : ReadsFrom (d + 1) (·.unary false) [.group .paren ts, .group .brace markTokens]
      (.paren e) [.group .brace markTokens] :=
    .paren h hts (.mono (.trailers_end rfl) (by omega))
  have hbranch := ReadsFrom.branch (hparen.expr rfl) (readsFrom_mark.mono (by omega))
  have hstmt : ReadsFrom (d + 3) stmt
      [.leaf (.keyword .if_), .group .paren ts, .group .brace markTokens]
      (.expr [] (.branch (.paren e) [mark] none) false) [] := fun n hn =>
    reads_stmt_keyword (.inl rfl) (reads_exprStmt_end nofun rfl (hbranch n hn))
  have hstmts := (ReadsFrom.stmtsIn_last rfl hstmt 0).stmts (Nat.le_add_left _ _)
  exact fun n hn => .within (hstmts n hn)

/-- The harness of a condition puts it between `if` and a block. -/
def conditionFrame : Frame condition where
  before := " if ".toList
  behind := " \x7b x = 1; \x7d \x7d".toList
  opened := [.opening .brace, .leaf (.keyword .if_)]
  closed := [.opening .brace, .leaf (.ident "x"), .leaf (.punct '=' false),
    .leaf (.literal ⟨.number, ['1']⟩), .leaf (.punct ';' false), .closing .brace, .closing .brace]
  tokens ts := [.group .brace [.leaf (.keyword .if_), .group .paren ts, .group .brace markTokens]]
  stmts e := [.expr [] (.branch (.paren e) [mark] none) false]
  ne_statements := nofun
  toList_wrap text := by simp [wrap, opening, closing]
  scans_before r := .step rfl rfl (.step rfl rfl (.blank rfl .done))
  scans_behind := rfl
  balanced := rfl
  one_line := by decide
  nests hL := by
    have hmark : Nests _ markTokens := .leaf (.leaf (.leaf (.leaf .nil)))
    have hall : Nests _ [.group .brace [.leaf (.keyword .if_), .group .paren _,
        .group .brace markTokens]] := .group (.leaf (.group hL (.group hmark .nil))) .nil
    simpa using hall
  depth ts := by
    simp only [depthFor, Token.sizes, Token.size]
    omega
  reads := readsFrom_condition

/-! ## Assignments -/

theorem readsFrom_assignment {d : ℕ} (h : ReadsFrom d (·.expr true) ts e []) (hts : ts ≠ [])
    (hd : 8 ≤ d) : ReadsFrom (d + 4) plainBody
      [.group .brace [.leaf (.ident "x"), .leaf (.punct '=' false), .group .paren ts,
        .leaf (.punct ';' false)]]
      [.expr [] (.assign (.name "x") (.paren e)) true] [] := by
  have hparen : ReadsFrom (d + 1) (·.unary true) [.group .paren ts, .leaf (.punct ';' false)]
      (.paren e) [.leaf (.punct ';' false)] :=
    .paren h hts (.mono (.trailers_end rfl) (by omega))
  have hassign : ReadsFrom (d + 2) (·.climb (.name "x") true .jump) _
      (.assign (.name "x") (.paren e)) [.leaf (.punct ';' false)] := hparen.assign rfl rfl
  have hname : ReadsFrom 2 (·.unary true) (.leaf (.ident "x") :: .leaf (.punct '=' false) :: _)
      (.name "x") (.leaf (.punct '=' false) :: [.group .paren ts, .leaf (.punct ';' false)]) :=
    .name ⟨rfl, rfl, rfl, rfl, rfl⟩ (.next (r := fun R => trailersRule R (.name "x")) (d := 0)
      (fun _ _ => rfl) fun _ => rfl)
  have hearly : ReadsFrom (d + 3) (·.early) (.leaf (.ident "x") :: .leaf (.punct '=' false) :: _)
      (.assign (.name "x") (.paren e)) [.leaf (.punct ';' false)] :=
    .next (r := earlyRule) (fun n hn => reads_earlyRule_operand rfl (hname n (by omega)) rfl
      (hassign n hn)) fun _ => rfl
  have hstmts := (ReadsFrom.stmtsIn_last rfl (hearly.stmt_name ⟨rfl, rfl, rfl, rfl, rfl⟩ nofun) 0).stmts
    (Nat.le_add_left _ _)
  exact fun n hn => .within (hstmts n hn)

/-- The harness of an assignment puts its right-hand side before a semicolon. -/
def assignmentFrame : Frame assignment where
  before := " x = ".toList
  behind := "; \x7d".toList
  opened := [.opening .brace, .leaf (.ident "x"), .leaf (.punct '=' false)]
  closed := [.leaf (.punct ';' false), .closing .brace]
  tokens ts := [.group .brace [.leaf (.ident "x"), .leaf (.punct '=' false), .group .paren ts,
    .leaf (.punct ';' false)]]
  stmts e := [.expr [] (.assign (.name "x") (.paren e)) true]
  ne_statements := nofun
  toList_wrap text := by simp [wrap, opening, closing]
  scans_before r := .step rfl rfl (.step rfl rfl (.step rfl rfl (.blank rfl .done)))
  scans_behind := rfl
  balanced := rfl
  one_line := by decide
  nests hL := by
    have hall : Nests _ [.group .brace [.leaf (.ident "x"), .leaf (.punct '=' false),
        .group .paren _, .leaf (.punct ';' false)]] := .group (.leaf (.leaf (.group hL
      (.leaf .nil)))) .nil
    simpa using hall
  depth ts := by
    simp only [depthFor, Token.sizes, Token.size]
    omega
  reads := readsFrom_assignment

/-! ## Main statement -/

/-- **A condition or the right-hand side of an assignment cannot escape.** Such a
text fits into its harness exactly if it is self-contained and one expression on
its own, and the block then is the harness around that very expression: a branch
on it without an alternative, or one assignment of it. -/
theorem parse_harness_iff (text : String) (block : List Stmt) :
    (condition.parse text = .ok block ↔ isSelfContained text.toList = true ∧
      ∃ e, parseExpr text = .ok e ∧
        block = [.expr [] (.branch (.paren e)
          [.expr [] (.assign (.name "x") (.literal ⟨.number, ['1']⟩)) true] none) false]) ∧
    (assignment.parse text = .ok block ↔ isSelfContained text.toList = true ∧
      ∃ e, parseExpr text = .ok e ∧
        block = [.expr [] (.assign (.name "x") (.paren e)) true]) :=
  ⟨conditionFrame.parse_eq_ok_iff, assignmentFrame.parse_eq_ok_iff⟩

end Harness

end ProcessCompiler
