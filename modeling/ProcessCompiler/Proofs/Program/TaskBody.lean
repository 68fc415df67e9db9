import ProcessCompiler.Proofs.Grammar.Settling
import ProcessCompiler.Proofs.Program.Awaiting
import ProcessCompiler.Proofs.Snippet.Splitting
/-!
# Bodies of tasks

The body of a task's procedure is the text of the task, cut in two and put into
other code: statements, the statement that awaits the tail, and a continuation.
The text was read in braces on one line; here each part ends a line of its own
or stands in parentheses. Main statement: the body is read as what it is made
of, unless one of the parts ends inside a comment, and then it is not read at
all.
-/

namespace ProcessCompiler

open Grammar Scan Lexeme Text

namespace Grammar

variable {t : Token} {us u X : List Token} {front after : List Stmt} {D m n : ℕ} {joint : Bool}

/-- Statements before others in a block, at every depth that is enough for
both. -/
theorem stmts_append (ht : Divides t X) (hus : us = u ++ [t])
    (hfront : Reads (Rules.ofDepth n).stmts us front [])
    (hX : ReadsFrom D (stmtsIn · m) X after []) (hne : X ≠ []) (hm : m ≤ X.length) :
    ∀ k, max D n + 1 ≤ k →
      (isSymbol .semi [t] = true → endsOpen front = false) ∧
        (Rules.ofDepth k).stmts ⟨us ++ X, none⟩ =
          if endsOpen front then .error ⟨false, .unterminated⟩
          else .ok (front ++ after, ⟨[], none⟩) := by
  intro k hk
  obtain ⟨k, rfl⟩ := Nat.exists_eq_add_of_le' (Nat.le_trans (Nat.le_add_left 1 _) hk)
  have hself := Rules.agree_ofDepth (Nat.le_refl k)
  have hbefore : stmtsIn (.ofDepth k) (us.length + 1) ⟨us, none⟩ = .ok (front, ⟨[], none⟩) :=
    ((Rules.agree_ofDepth (show n ≤ k + 1 by omega)).stmts never us).ok hfront
  have hafter : stmtsIn (.ofDepth k) X.length ⟨X, none⟩ = .ok (after, ⟨[], none⟩) :=
    (stmtsIn_agree (Q := never) hself hm).ok (hX k (by omega))
  -- The rounds of both parts are as many as those of the whole, so an error is the same one.
  have hfuel : us.length + 1 + X.length = (us ++ X).length + 1 := by
    rw [List.length_append]
    omega
  show _ ∧ stmtsIn (.ofDepth k) ((us ++ X).length + 1) ⟨us ++ X, none⟩ = _
  rw [← hfuel]
  rw [hus] at hbefore ⊢
  rw [List.append_assoc]
  exact stmtsIn_append hself hself hne ht hbefore hafter

/-- Statements that end in a semicolon, before others in a block. -/
theorem ReadsFrom.stmts_append (hus : us = u ++ [.leaf (.punct ';' joint)])
    (hfront : Reads (Rules.ofDepth n).stmts us front [])
    (hX : ReadsFrom D (stmtsIn · m) X after []) (hne : X ≠ []) (hm : m ≤ X.length) :
    ReadsFrom (max D n + 1) (·.stmts) (us ++ X) (front ++ after) [] := by
  intro k hk
  obtain ⟨hclosed, heq⟩ := Grammar.stmts_append (.semi joint X) hus hfront hX hne hm k hk
  rw [hclosed rfl] at heq
  exact heq

end Grammar

namespace Invocation

/-- The statements before the awaited expression, as they are read on their
own. -/
def Front (i : Invocation) (front : List Stmt) : Prop :=
  match i.prelude? with
  | none => front = []
  | some p => Harness.statements.parse p = .ok front

end Invocation

namespace Layout

variable {text key p : String} {i : Invocation} {route : Option String} {c : Continuation}
  {sharing : ContextSharing} {kind : ElementKind} {nodeId : String}

/-! ## The front -/

/-- Statements that end in a semicolon are rendered as a line. -/
theorem toList_preludeCode (h : p.toList.getLast? = some ';') :
    (preludeCode (some p)).toList = p.toList ++ ['\n'] := by
  have htrim := trimEnd_of_getLast? h rfl
  simp [preludeCode, asStatement, htrim, h]

theorem scans_preludeCode {x : List Char} {K : List Lexeme} (h : p.toList.getLast? = some ';')
    (hscans : Scans (p.toList ++ '\n' :: x) K ('\n' :: x)) :
    Scans ((preludeCode (some p)).toList ++ x) K x := by
  have hline := hscans.trans (.blank rfl .done)
  rw [toList_preludeCode h]
  simpa using hline

/-- A front that ends outside comments is scanned to its tokens and read as its
statements, whatever stands behind it. -/
theorem exists_front (h : Invocation.Parts text i)
    (hend : ∀ p ∈ i.prelude?, endsInLine p.toList = false) :
    ∃ front us K, i.Front front ∧ Nests K us ∧
      (∀ x, Scans ((preludeCode i.prelude?).toList ++ x) K x) ∧
      ∀ {D m X after}, ReadsFrom D (stmtsIn · m) X after [] → X ≠ [] → m ≤ X.length →
        ReadsFrom (max D (depthFor [.group .brace us]) + 1) (·.stmts) (us ++ X) (front ++ after) [] := by
  unfold Invocation.Front
  rcases hp : i.prelude? with _ | p
  · refine ⟨[], [], [], rfl, .nil, fun x => .done, fun hX _ hm => ?_⟩
    exact (hX.stmts (by omega)).mono (by omega)
  · obtain ⟨hsemi, haccepts⟩ := h.front p hp
    obtain ⟨front, hfront⟩ := Harness.accepts_iff.1 haccepts
    obtain ⟨K, us, hcloses, hK, hreads⟩ := Harness.closes_of_parse_statements hfront (hend p hp)
    refine ⟨front, us, K, hfront, hK, fun x => ?_, fun hX hne hm => ?_⟩
    · exact scans_preludeCode hsemi (hcloses.append _ (border_line x) fun _ => nofun)
    · obtain ⟨before, rfl⟩ := hcloses.semi hsemi
      obtain ⟨u, hu⟩ := List.getLast?_eq_some_iff.1 (hK.getLast?_leaf List.getLast?_concat)
      exact .stmts_append hu hreads hX hne hm

/-- Parentheses match in a front; a front that ends inside a comment closes one
brace too many. -/
theorem exists_scans_front (h : Invocation.Parts text i) (x : List Char) :
    ∃ K, Scans ((preludeCode i.prelude?).toList ++ x) K x ∧
      K.count (.closing .paren) = K.count (.opening .paren) ∧
      K.count (.closing .brace) = K.count (.opening .brace) +
        if i.prelude?.any (fun p => endsInLine p.toList) then 1 else 0 := by
  rcases hp : i.prelude? with _ | p
  · exact ⟨[], .done, rfl, rfl⟩
  · obtain ⟨hsemi, haccepts⟩ := h.front p hp
    obtain ⟨front, hfront⟩ := Harness.accepts_iff.1 haccepts
    cases hend : endsInLine p.toList with
    | false =>
      obtain ⟨K, us, hcloses, hK, -⟩ := Harness.closes_of_parse_statements hfront hend
      have hscans := hcloses.append ('\n' :: x) (border_line x) fun _ => nofun
      exact ⟨K, scans_preludeCode hsemi hscans, (hK.count_eq _).symm, by simp [hend, hK.count_eq]⟩
    | true =>
      obtain ⟨L, -, hruns, hparen, hbrace⟩ := Harness.runsOn_of_parse_statements hfront hend
      obtain ⟨K, hK, hscans⟩ := hruns.append ('\n' :: x) (border_line x) (fun _ => nofun) (by simp)
      refine ⟨K, scans_preludeCode hsemi hscans, ?_, ?_⟩
      · obtain ⟨hopening, hclosing⟩ := count_eq_of_brackets hK .paren
        omega
      · obtain ⟨hopening, hclosing⟩ := count_eq_of_brackets hK .brace
        simp only [Option.any_some, hend, if_true]
        omega

/-! ## The body -/

/-- The body of a task's procedure. -/
def taskBody (kind : ElementKind) (nodeId : String) (i : Invocation) (key : String)
    (route : Option String) (sharing : ContextSharing) (c : Continuation) : String :=
  action kind nodeId (.invoke i.prelude? i.tail key route) ++ continuation sharing c

section Body

variable {before behind : List Char} {opened closed left K C : List Lexeme} {ts : List Token}

/-- The body in braces, with the tail in parentheses. -/
theorem toList_wrap_taskBody (A : Awaits key route before behind opened closed left) :
    (Harness.statements.wrap (taskBody kind nodeId i key route sharing c)).toList =
      '\x7b' :: ' ' :: ((preludeCode i.prelude?).toList ++ (before ++ '(' :: (i.tail.toList ++
        ')' :: (behind ++ ((continuation sharing c).toList ++ braceEnd))))) := by
  rw [Harness.toList_wrap_statements, taskBody, String.toList_append, A.toList_action]
  simp

/-- The body up to the tail. -/
theorem scans_taskBody (A : Awaits key route before behind opened closed left) {x : List Char}
    (hK : Scans ((preludeCode i.prelude?).toList ++ (before ++ '(' :: x)) K (before ++ '(' :: x)) :
    Scans ('\x7b' :: ' ' :: ((preludeCode i.prelude?).toList ++ (before ++ '(' :: x)))
      (.opening .brace :: (K ++ opened)) ('(' :: x) :=
  (Harness.scans_brace _).trans (hK.trans (A.scans_before x))

theorem scans_braceEnd : Scans braceEnd [.closing .brace] [] := .blank rfl (.step rfl rfl .done)

/-- The statement that awaits is read before the continuation. -/
theorem readsFrom_awaitThen {d : ℕ} {e : Expr} (key : String) (route : Option String)
    (sharing : ContextSharing) (c : Continuation) (h : ReadsFrom d (·.expr true) ts e []) (hts : ts ≠ [])
    (hd : 16 ≤ d) :
    ReadsFrom (d + 6) (stmtsIn · ((continuationStmts sharing c).length + 1))
      (awaitTokens key ts route ++ continuationTokens sharing c)
      (awaitStmt key e route :: continuationStmts sharing c) [] := by
  obtain ⟨hne, hplain⟩ := continuationTokens_start sharing c
  have hstart : startsPlain (awaitTokens key ts route ++ continuationTokens sharing c) = true := by
    cases route <;> rfl
  exact .stmtsIn_cons hstart (readsFrom_await key route h hts hd hplain) hne (awaitStmt_closed _ _ _)
    ((readsFrom_continuation sharing c).mono (by omega))

theorem sizes_awaitTokens (key : String) (ts : List Token) (route : Option String) :
    Token.sizes ts + 4 ≤ Token.sizes (awaitTokens key ts route) := by
  cases route <;> simp only [awaitTokens, storeTokens, Token.sizes, Token.size, List.cons_append] <;>
    omega

/-- **The body of parts that end outside comments** is read as their statements
and those of the continuation. -/
theorem parse_taskBody_of_closed (h : Invocation.Parts text i)
    (haccepts : Harness.statements.accepts text = true) (hopen : i.isOpen = false)
    (hroute : ∀ r ∈ route, Names.isIdentifier r.toList = true)
    (hc : ∀ t ∈ c.targets, Names.isIdentifier t.toList = true) :
    ∃ front e, i.Front front ∧ parseExpr i.tail = .ok e ∧
      Harness.statements.parse (taskBody kind nodeId i key route sharing c) =
        .ok (front ++ awaitStmt key e route :: continuationStmts sharing c) := by
  obtain ⟨hend, hfrontEnd⟩ := Invocation.isOpen_eq_false_iff.1 hopen
  obtain ⟨e, he⟩ := h.tail
  obtain ⟨ts, htokens, hts, hreads⟩ := readsFrom_of_parseExpr he
  have hself : isSelfContained i.tail.toList = true := by
    have hmark : i.tail.toList.head? ≠ some '\uFEFF' := fun hhead => by
      obtain ⟨x, hx⟩ := List.head?_eq_some_iff.1 hhead
      exact h.tail_ne_orderMark haccepts hfrontEnd x hx
    simp [isSelfContained, hend, hmark]
  obtain ⟨front, us, K, hfront, hK, hscans, hall⟩ := exists_front h hfrontEnd
  obtain ⟨before, behind, opened, closed, left, A⟩ := exists_awaits key hroute
  obtain ⟨C, hC, hcont⟩ := spells_continuation sharing hc
  have hbehind : Scans (behind ++ ((continuation sharing c).toList ++ braceEnd))
      (closed ++ (C ++ [.closing .brace])) [] :=
    (A.scans_behind _).trans ((hcont _).trans scans_braceEnd)
  obtain ⟨L, hL, hlex⟩ := lexemes_between (scans_taskBody A (hscans _)) hbehind htokens hts hself
  have hnests : Nests (.opening .brace :: (K ++ opened) ++ (.opening .paren :: (L ++ [.closing .paren]) ++
      (closed ++ (C ++ [.closing .brace]))))
      [.group .brace (us ++ (awaitTokens key ts route ++ continuationTokens sharing c))] := by
    have hgroup : Nests _ [.group .brace _] := .group (hK.append ((A.nests hL).append hC)) .nil
    simpa using hgroup
  have htext : tokenize (Harness.statements.wrap (taskBody kind nodeId i key route sharing c)).toList =
      some [.group .brace (us ++ (awaitTokens key ts route ++ continuationTokens sharing c))] := by
    rw [toList_wrap_taskBody A]
    exact tokenize_of_lexemes hlex hnests
  have hdepth : 16 ≤ depthFor ts := Nat.le_add_left _ _
  have hstmts := hall (readsFrom_awaitThen key route sharing c hreads hts hdepth)
    (List.append_ne_nil_of_right_ne_nil _ (continuationTokens_start sharing c).1) (by
      have hle := length_continuationStmts_le sharing c
      have hpos : 1 ≤ (awaitTokens key ts route).length := by cases route <;> exact Nat.succ_pos _
      rw [List.length_append]
      omega)
  refine ⟨front, e, hfront, he, parseAll_of_reads htext (.within (hstmts _ ?_))⟩
  have hsizes := sizes_awaitTokens key ts route
  simp only [depthFor, Token.sizes, Token.size, Token.sizes_append]
  omega

/-- **The body of parts of which one ends inside a comment** is not read, though
each part is on its own. -/
theorem parse_taskBody_of_open (h : Invocation.Parts text i) (hopen : i.isOpen = true)
    (hroute : ∀ r ∈ route, Names.isIdentifier r.toList = true)
    (hc : ∀ t ∈ c.targets, Names.isIdentifier t.toList = true) :
    ∃ front e, i.Front front ∧ parseExpr i.tail = .ok e ∧
      Harness.statements.parse (taskBody kind nodeId i key route sharing c) =
        .error ⟨false, .unreadable⟩ := by
  obtain ⟨front, hfront⟩ : ∃ front, i.Front front := by
    unfold Invocation.Front
    rcases hp : i.prelude? with _ | p
    · exact ⟨[], rfl⟩
    · exact Harness.accepts_iff.1 (h.front p hp).2
  obtain ⟨e, he⟩ := h.tail
  obtain ⟨ts, htokens, hts, -⟩ := readsFrom_of_parseExpr he
  obtain ⟨before, behind, opened, closed, left, A⟩ := exists_awaits key hroute
  obtain ⟨C, hC, hcont⟩ := spells_continuation sharing hc
  obtain ⟨K, hscans, hparen, hbrace⟩ := exists_scans_front h (before ++ '(' :: (i.tail.toList ++
    ')' :: (behind ++ ((continuation sharing c).toList ++ braceEnd))))
  have hcontParen := hC.count_eq .paren
  have hcontBrace := hC.count_eq .brace
  refine ⟨front, e, hfront, he, parseAll_of_tokenize_none ?_⟩
  rw [toList_wrap_taskBody A]
  cases hself : isSelfContained i.tail.toList with
  | false =>
    -- The tail takes its closing parenthesis, or cannot stand behind other code.
    have hleft : Scans (afterLine (behind ++ ((continuation sharing c).toList ++ braceEnd)))
        (left ++ (C ++ [.closing .brace])) [] :=
      (A.scans_left _).trans ((hcont _).trans scans_braceEnd)
    have hparens := A.parens
    refine tokenize_between_eq_none (scans_taskBody A hscans) (A.no_return _) hleft ?_ htokens hts hself
    simp [List.count_append] at hparens ⊢
    omega
  | true =>
    -- The tail is well, so it is the front that closes the block.
    have hend : endsInLine i.tail.toList = false := by
      simp only [isSelfContained, Bool.and_eq_true, Bool.not_eq_true'] at hself
      exact hself.2
    have hfront : i.prelude?.any (fun p => endsInLine p.toList) = true := by
      simpa [Invocation.isOpen, hend] using hopen
    have hbehind : Scans (behind ++ ((continuation sharing c).toList ++ braceEnd))
        (closed ++ (C ++ [.closing .brace])) [] :=
      (A.scans_behind _).trans ((hcont _).trans scans_braceEnd)
    obtain ⟨L, hL, hlex⟩ := lexemes_between (scans_taskBody A hscans) hbehind htokens hts hself
    have hawaitBrace := (A.nests hL).count_eq .brace
    refine tokenize_of_count hlex (d := .brace) ?_
    rw [hfront] at hbrace
    simp [List.count_append] at hawaitBrace hbrace ⊢
    omega

end Body

/-- **An accepted task is rendered to a body that can be read**, with its own
statements first, then the one that awaits its tail, then the continuation,
exactly if neither part of its text ends inside a comment. -/
theorem parse_taskBody (haccepts : Harness.statements.accepts text = true)
    (hsplit : Invocation.split text = some i) (kind : ElementKind) (nodeId key : String)
    (hroute : ∀ r ∈ route, Names.isIdentifier r.toList = true) (sharing : ContextSharing)
    (hc : ∀ t ∈ c.targets, Names.isIdentifier t.toList = true) :
    ∃ front e, i.Front front ∧ parseExpr i.tail = .ok e ∧
      Harness.statements.parse (action kind nodeId (.invoke i.prelude? i.tail key route) ++
          continuation sharing c) =
        if i.isOpen then .error ⟨false, .unreadable⟩
        else .ok (front ++ awaitStmt key e route :: continuationStmts sharing c) := by
  have hparts := Invocation.parts_of_split hsplit
  cases hopen : i.isOpen with
  | false => exact parse_taskBody_of_closed hparts haccepts hopen hroute hc
  | true => exact parse_taskBody_of_open hparts hopen hroute hc

theorem parse_taskBody_routed :
    Harness.statements.accepts "log(x); call(y())" = true ∧
    Invocation.split "log(x); call(y())" = some ⟨some "log(x);", "call(y())"⟩ ∧
    ∃ front e, Harness.statements.parse "log(x);" = .ok front ∧ parseExpr "call(y())" = .ok e ∧
      Harness.statements.parse (action .task "T" (.invoke (some "log(x);") "call(y())" "total"
          (some "Failed")) ++ continuation .shared (.fork ["Done", "Report"])) =
        .ok (front ++ awaitStmt "total" e (some "Failed") ::
          continuationStmts .shared (.fork ["Done", "Report"])) := by
  have haccepts : Harness.statements.accepts "log(x); call(y())" = true := by decide +kernel
  have hsplit : Invocation.split "log(x); call(y())" = some ⟨some "log(x);", "call(y())"⟩ := by
    decide +kernel
  have hopen : Invocation.isOpen ⟨some "log(x);", "call(y())"⟩ = false := by decide +kernel
  obtain ⟨front, e, hfront, he, hbody⟩ := parse_taskBody haccepts hsplit .task "T" "total"
    (show ∀ r ∈ some "Failed", Names.isIdentifier r.toList = true by rintro r ⟨⟩; decide +kernel) .shared
    (show ∀ t ∈ (Continuation.fork ["Done", "Report"]).targets, Names.isIdentifier t.toList = true by
      decide +kernel)
  rw [hopen] at hbody
  exact ⟨haccepts, hsplit, front, e, hfront, he, hbody⟩

/-- The text closes the block of its harness and takes the harness's own brace
into a comment, so it is accepted; in the body that comment ends with its
line. -/
theorem accepts_taskBody_closing :
    Harness.statements.accepts "x; \x7d // ; y" = true ∧
    Invocation.split "x; \x7d // ; y" = some ⟨some "x; \x7d // ;", "y"⟩ ∧
    Harness.statements.accepts (action .task "T" (.invoke (some "x; \x7d // ;") "y" "T" none) ++
      continuation .shared .halt) = false := by
  decide +kernel

end Layout

end ProcessCompiler
