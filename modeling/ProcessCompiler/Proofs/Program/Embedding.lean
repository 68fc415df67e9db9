import ProcessCompiler.Proofs.Program.TaskBody
/-!
# Conditions and values in their procedures

A gateway leaves its procedure unless its condition holds, and a message event
sends its value. Both texts were read in the parentheses of a harness, and both
stand in parentheses again in the body of their procedure, in other code. Main
statement: the body is read, and its first statement is the branch on the
negated condition or the call that sends the value, with the expression that
the text is on its own.
-/

namespace ProcessCompiler

open Grammar Scan Lexeme Text

namespace Layout

variable {otherwise : Option String} {rest : List Token}

/-! ## Leaving a procedure -/

/-- The tokens that leave a procedure. -/
def exitTokens : Option String → List Token
  | some target => .leaf (.keyword .return_) :: (leaveTokens target ++ [.leaf (.punct ';' false)])
  | none => .leaf (.keyword .return_) :: (haltTokens ++ [.leaf (.punct ';' false)])

/-- What a procedure returns when it is left early. -/
def exitValue : Option String → Expr
  | some target => leaveExpr target
  | none => .call (.name "Ok") [.tuple []]

/-- The statement that leaves a procedure. -/
def exitStmt (otherwise : Option String) : Stmt :=
  .expr [] (.jump .return_ none (some (exitValue otherwise))) true

theorem spells_exitLine (h : ∀ r ∈ otherwise, Names.isIdentifier r.toList = true) :
    Spells (exit otherwise ++ "\n").toList (exitTokens otherwise) := by
  cases otherwise with
  | some target => exact spells_exit (h target rfl)
  | none =>
    have hline : ∀ x, Scans ("return Ok(());\n".toList ++ x)
        [.leaf (.keyword .return_), .leaf (.ident "Ok"), .opening .paren, .opening .paren,
          .closing .paren, .closing .paren, .leaf (.punct ';' false)] x := fun x =>
      .step rfl rfl (.step rfl rfl (.step rfl rfl (.step rfl rfl (.step rfl rfl (.step rfl rfl
        (.step rfl rfl (.blank rfl .done)))))))
    exact ⟨_, .leaf (.leaf (.group (.group .nil .nil) (.leaf .nil))), hline⟩

/-- The value of a branch that ends here. -/
theorem readsFrom_haltValue (hrest : endsExpr rest = true) :
    ReadsFrom 6 (·.unary true) (haltTokens ++ rest) (.call (.name "Ok") [.tuple []]) rest := by
  have hunit : ReadsFrom 3 (·.expr true) [.group .paren []] (.tuple []) [] :=
    .expr (.unit (.trailers_end rfl)) rfl
  have hcall : ReadsFrom 4 (·.trailers (.name "Ok")) (.group .paren [.group .paren []] :: rest)
      (.call (.name "Ok") [.tuple []]) rest :=
    .call (.argument hunit (List.cons_ne_nil _ _)) (.mono (.trailers_end hrest) (by decide))
  exact .mono (.name ⟨rfl, rfl, rfl, rfl, rfl⟩ hcall) (by decide)

theorem readsFrom_exit (otherwise : Option String) :
    ReadsFrom 10 (·.stmts) (exitTokens otherwise) [exitStmt otherwise] [] := by
  have hreturn : ∀ {n mid value}, ReadsFrom 6 (·.unary true)
      (.leaf (.ident n) :: mid ++ [.leaf (.punct ';' false)]) value [.leaf (.punct ';' false)] →
      ReadsFrom 10 (·.stmts)
        (.leaf (.keyword .return_) :: (.leaf (.ident n) :: mid ++ [.leaf (.punct ';' false)]))
        [.expr [] (.jump .return_ none (some value)) true] [] := by
    intro n mid value hvalue
    have hearly := ReadsFrom.return_ (hvalue.expr rfl) rfl
    have hstmt : ReadsFrom 9 stmt _ (.expr [] (.jump .return_ none (some value)) true) [] :=
      fun k hk => reads_stmt_keyword (.inr (.inr rfl)) (reads_exprStmt_semi nofun (hearly k hk))
    exact .stmts (.stmtsIn_last rfl hstmt 0) (Nat.le_add_left _ _)
  cases otherwise with
  | some target => exact hreturn (readsFrom_leave target rfl)
  | none => exact hreturn (readsFrom_haltValue rfl)

end Layout

namespace Grammar

variable {d : ℕ} {structs : Bool} {joint : Bool} {e condition : Expr} {ts rest body : List Token}
  {stmts : List Stmt}

/-- A negated operand. -/
theorem ReadsFrom.invert (h : ReadsFrom d (·.unary structs) ts e rest) :
    ReadsFrom (d + 1) (·.unary structs) (.leaf (.punct '!' joint) :: ts) (.unary .invert e) rest := by
  refine next (r := fun R => unaryRule R structs) (fun k hk => ?_) fun _ => rfl
  refine (reads_outerAttributes rfl).bind (.tokens (.neg Bool.false_ne_true (.neg Bool.false_ne_true
    (.pos rfl (.bind rfl ((h k hk).bind (.pure _)))))))

/-- A branch without an alternative, before a name. -/
theorem ReadsFrom.branch_name {n : String}
    (hcondition : ReadsFrom d (·.expr false) ts condition
      (.group .brace body :: .leaf (.ident n) :: rest))
    (hbody : ReadsFrom d (·.stmts) body stmts []) :
    ReadsFrom (d + 1) (·.early) (.leaf (.keyword .if_) :: ts) (.branch condition stmts none)
      (.leaf (.ident n) :: rest) :=
  next (r := earlyRule) (fun k hk => reads_earlyRule_block rfl (.tokens (.pos rfl (.tokens
    (.bind rfl ((hcondition k hk).bind ((hbody k hk).within.bind (.bind rfl (.pure _))))))))
    rfl rfl rfl) fun _ => rfl

end Grammar

namespace Layout

variable {text : String} {otherwise : Option String} {rest ts : List Token} {e : Expr} {d : ℕ}
  {c : Continuation}

/-! ## The code around a text -/

/-- How an action puts a text in parentheses: the code on both sides with its
lexemes, and the tokens and the statement of the whole. The statement is read
before any code that begins with a name. -/
structure Around (a : String → Action) where
  before : List Char
  behind : List Char
  opened : List Lexeme
  closed : List Lexeme
  tokens : List Token → List Token
  first : Expr → Stmt
  toList_action : ∀ kind nodeId text, (action kind nodeId (a text)).toList =
    before ++ '(' :: (text.toList ++ ')' :: behind)
  scans_before : ∀ r, Scans (before ++ '(' :: r) opened ('(' :: r)
  scans_behind : ∀ r, Scans (behind ++ r) closed r
  nests : ∀ {L ts}, Nests L ts →
    Nests (opened ++ (.opening .paren :: (L ++ [.closing .paren]) ++ closed)) (tokens ts)
  sizes : ∀ ts, Token.sizes ts + 4 ≤ Token.sizes (tokens ts)
  starts : ∀ ts rest, startsPlain (tokens ts ++ rest) = true
  ends : ∀ e, (first e).Closed
  reads : ∀ {d ts e n rest}, ReadsFrom d (·.expr true) ts e [] → ts ≠ [] → 16 ≤ d →
    ReadsFrom (d + 6) stmt (tokens ts ++ .leaf (.ident n) :: rest) (first e)
      (.leaf (.ident n) :: rest)

/-- A continuation begins with a name. -/
theorem exists_continuationTokens (sharing : ContextSharing) (c : Continuation) :
    ∃ n more, continuationTokens sharing c = .leaf (.ident n) :: more := by
  rcases c with _ | _ | ⟨_ | ⟨t, targets⟩⟩ <;> exact ⟨_, _, rfl⟩

namespace Around

variable {a : String → Action}

/-- The statement with the text is read before the continuation. -/
theorem readsFrom_body (A : Around a) (sharing : ContextSharing) (c : Continuation)
    (h : ReadsFrom d (·.expr true) ts e []) (hts : ts ≠ []) (hd : 16 ≤ d) :
    ReadsFrom (d + 7) (·.stmts) (A.tokens ts ++ continuationTokens sharing c)
      (A.first e :: continuationStmts sharing c) [] := by
  have hcont := (readsFrom_continuation sharing c).mono (show 10 ≤ d + 6 by omega)
  have hlength := length_continuationStmts_le sharing c
  obtain ⟨n, more, hmore⟩ := exists_continuationTokens sharing c
  rw [hmore] at hcont hlength ⊢
  have hall := ReadsFrom.stmtsIn_cons (A.starts ts _) (A.reads h hts hd) (List.cons_ne_nil _ _)
    (A.ends e) hcont
  refine hall.stmts ?_
  rw [List.length_append]
  omega

/-- **A self-contained expression is read in the body of its procedure** as it is
on its own. -/
theorem parse_body (A : Around a) (kind : ElementKind) (nodeId : String) (sharing : ContextSharing)
    (he : parseExpr text = .ok e) (hself : isSelfContained text.toList = true)
    (hc : ∀ t ∈ c.targets, Names.isIdentifier t.toList = true) :
    Harness.statements.parse (action kind nodeId (a text) ++ continuation sharing c) =
      .ok (A.first e :: continuationStmts sharing c) := by
  obtain ⟨ts, htokens, hts, hreads⟩ := readsFrom_of_parseExpr he
  obtain ⟨C, hC, hcont⟩ := spells_continuation sharing hc
  -- The body in braces, cut where the text begins and where it ends.
  have htext : (Harness.statements.wrap (action kind nodeId (a text) ++
      continuation sharing c)).toList = '\x7b' :: ' ' :: (A.before ++ '(' :: (text.toList ++ ')' ::
        (A.behind ++ ((continuation sharing c).toList ++ braceEnd)))) := by
    rw [Harness.toList_wrap_statements, String.toList_append, A.toList_action]
    simp only [List.append_assoc, List.cons_append]
  have hbefore := (Harness.scans_brace _).trans (A.scans_before (text.toList ++ ')' ::
    (A.behind ++ ((continuation sharing c).toList ++ braceEnd))))
  have hbehind : Scans (A.behind ++ ((continuation sharing c).toList ++ braceEnd))
      (A.closed ++ (C ++ [.closing .brace])) [] :=
    (A.scans_behind _).trans ((hcont _).trans scans_braceEnd)
  obtain ⟨L, hL, hlex⟩ := lexemes_between hbefore hbehind htokens hts hself
  have hnests : Nests ([.opening .brace] ++ A.opened ++ (.opening .paren :: (L ++ [.closing .paren]) ++
      (A.closed ++ (C ++ [.closing .brace]))))
      [.group .brace (A.tokens ts ++ continuationTokens sharing c)] := by
    have hgroup : Nests _ [.group .brace _] := .group ((A.nests hL).append hC) .nil
    simpa using hgroup
  have hwrap : tokenize (Harness.statements.wrap (action kind nodeId (a text) ++
      continuation sharing c)).toList =
        some [.group .brace (A.tokens ts ++ continuationTokens sharing c)] := by
    rw [htext]
    exact tokenize_of_lexemes hlex hnests
  have hdepth : 16 ≤ depthFor ts := Nat.le_add_left _ _
  refine parseAll_of_reads hwrap (.within (A.readsFrom_body sharing c hreads hts hdepth _ ?_))
  have hsizes := A.sizes ts
  simp only [depthFor, Token.sizes, Token.size, Token.sizes_append]
  omega

end Around

/-! ## Guards -/

/-- The statement that leaves a procedure unless a condition holds. -/
def guardStmt (otherwise : Option String) (e : Expr) : Stmt :=
  .expr [] (.branch (.unary .invert (.paren e)) [exitStmt otherwise] none) false

theorem readsFrom_guard (otherwise : Option String) {n : String}
    (h : ReadsFrom d (·.expr true) ts e []) (hts : ts ≠ []) (hd : 16 ≤ d) :
    ReadsFrom (d + 6) stmt (.leaf (.keyword .if_) :: .leaf (.punct '!' false) :: .group .paren ts ::
        .group .brace (exitTokens otherwise) :: .leaf (.ident n) :: rest)
      (guardStmt otherwise e) (.leaf (.ident n) :: rest) := by
  have hparen : ReadsFrom (d + 1) (·.unary false) (.group .paren ts :: _) (.paren e)
      (.group .brace (exitTokens otherwise) :: .leaf (.ident n) :: rest) :=
    .paren h hts (.mono (.trailers_end rfl) (by omega))
  have hinvert : ReadsFrom (d + 2) (·.unary false) (.leaf (.punct '!' false) :: _) _ _ := hparen.invert
  have hbody := (readsFrom_exit otherwise).mono (show 10 ≤ d + 3 by omega)
  have hbranch := ReadsFrom.branch_name (hinvert.expr rfl) hbody
  refine .mono (fun k hk => ?_) (show d + 4 ≤ d + 6 by omega)
  exact reads_stmt_keyword (.inl rfl) (reads_exprStmt_end nofun rfl (hbranch k hk))

/-- The code around the condition of a gateway. -/
theorem exists_around_guard (h : ∀ r ∈ otherwise, Names.isIdentifier r.toList = true) :
    ∃ A : Around (.guard · otherwise), A.first = guardStmt otherwise := by
  have hline : Spells "\n".toList [] := spells_blanks (by decide)
  have hbody : Spells ("\n".toList ++ (step.toList ++ (exit otherwise ++ "\n").toList))
      (exitTokens otherwise) := hline.append (spells_step.append (spells_exitLine h))
  obtain ⟨M, hM, hscans⟩ := hbody.braces
  refine ⟨{
    before := "if !".toList
    behind := ' ' :: '\x7b' :: ("\n".toList ++ (step.toList ++ (exit otherwise ++ "\n").toList) ++
      ['\x7d']) ++ ['\n']
    opened := [.leaf (.keyword .if_), .leaf (.punct '!' false)]
    closed := M
    tokens := fun ts => [.leaf (.keyword .if_), .leaf (.punct '!' false), .group .paren ts,
      .group .brace (exitTokens otherwise)]
    first := guardStmt otherwise
    toList_action := ?_
    scans_before := fun r => .step rfl rfl (.step rfl rfl .done)
    scans_behind := ?_
    nests := ?_
    sizes := ?_
    starts := fun _ _ => rfl
    ends := fun _ => rfl
    reads := readsFrom_guard otherwise }, rfl⟩
  · intro kind nodeId text
    have haction : action kind nodeId (.guard text otherwise) =
        "if !(" ++ text ++ ") " ++ openBrace ++ "\n" ++ step ++ exit otherwise ++ "\n" ++
          closeBrace ++ "\n" := rfl
    simp only [haction, openBrace, closeBrace, String.toList_append, List.append_assoc,
      List.cons_append]
    rfl
  · intro r
    have hclose := (hscans ('\n' :: r)).trans (.blank rfl .done)
    rw [List.append_nil] at hclose
    simpa using Scans.blank (c := ' ') rfl hclose
  · intro L ts hL
    have hall : Nests _ [.leaf (.keyword .if_), .leaf (.punct '!' false), .group .paren ts,
        .group .brace (exitTokens otherwise)] := .leaf (.leaf (.group hL hM))
    simpa using hall
  · intro ts
    simp only [Token.sizes, Token.size]
    omega

/-! ## Sent values -/

/-- The statement that sends a value: `put(e).await?;`. -/
def emitStmt (e : Expr) : Stmt := .expr [] (.propagate (.await (.call (.name "put") [e]))) true

/-- The code around the value of a message event. -/
def aroundEmit : Around .emit where
  before := "put".toList
  behind := ".await?;\n".toList
  opened := [.leaf (.ident "put")]
  closed := [.leaf (.punct '.' false), .leaf (.keyword .await_), .leaf (.punct '?' false),
    .leaf (.punct ';' false)]
  tokens ts := [.leaf (.ident "put"), .group .paren ts, .leaf (.punct '.' false),
    .leaf (.keyword .await_), .leaf (.punct '?' false), .leaf (.punct ';' false)]
  first := emitStmt
  toList_action kind nodeId text := by
    have haction : action kind nodeId (.emit text) = "put(" ++ text ++ ").await?;\n" := rfl
    simp only [haction, String.toList_append, List.append_assoc]
    rfl
  scans_before r := .step rfl rfl .done
  scans_behind r := .step rfl rfl (.step rfl rfl (.step rfl rfl (.step rfl rfl (.blank rfl .done))))
  nests {L ts} hL := by
    have hall : Nests _ [.leaf (.ident "put"), .group .paren ts, .leaf (.punct '.' false),
        .leaf (.keyword .await_), .leaf (.punct '?' false), .leaf (.punct ';' false)] :=
      .leaf (.group hL (.leaf (.leaf (.leaf (.leaf .nil)))))
    simpa using hall
  sizes ts := by
    simp only [Token.sizes, Token.size]
    omega
  starts _ _ := rfl
  ends _ := rfl
  reads {d ts e n rest} h hts hd := by
    have hawait : ReadsFrom d (·.trailers (.call (.name "put") [e]))
        (.leaf (.punct '.' false) :: .leaf (.keyword .await_) :: .leaf (.punct '?' false) ::
          .leaf (.punct ';' false) :: .leaf (.ident n) :: rest)
        (.propagate (.await (.call (.name "put") [e])))
        (.leaf (.punct ';' false) :: .leaf (.ident n) :: rest) :=
      .mono (.await rfl (.propagate rfl (.trailers_end rfl))) (by omega)
    have hput : ReadsFrom (d + 2) (·.unary true) _ (.propagate (.await (.call (.name "put") [e]))) _ :=
      .name ⟨rfl, rfl, rfl, rfl, rfl⟩ (.call (.argument h hts) hawait)
    exact .mono (.stmt_name ⟨rfl, rfl, rfl, rfl, rfl⟩ (.early rfl hput rfl rfl) nofun) (by omega)

/-! ## Main statement -/

theorem exists_parse_guard (kind : ElementKind) (nodeId : String) (sharing : ContextSharing)
    (haccepts : Harness.condition.accepts text = true)
    (hother : ∀ r ∈ otherwise, Names.isIdentifier r.toList = true)
    (hc : ∀ t ∈ c.targets, Names.isIdentifier t.toList = true) :
    ∃ e, parseExpr text = .ok e ∧
      Harness.statements.parse (action kind nodeId (.guard text otherwise) ++
          continuation sharing c) =
        .ok (guardStmt otherwise e :: continuationStmts sharing c) := by
  obtain ⟨block, hblock⟩ := Harness.accepts_iff.1 haccepts
  obtain ⟨hself, e, he, -⟩ := Harness.conditionFrame.parse_eq_ok_iff.1 hblock
  obtain ⟨A, hA⟩ := exists_around_guard hother
  have hbody := A.parse_body kind nodeId sharing he hself hc
  rw [hA] at hbody
  exact ⟨e, he, hbody⟩

theorem exists_parse_emit (kind : ElementKind) (nodeId : String) (sharing : ContextSharing)
    (haccepts : Harness.assignment.accepts text = true)
    (hc : ∀ t ∈ c.targets, Names.isIdentifier t.toList = true) :
    ∃ e, parseExpr text = .ok e ∧
      Harness.statements.parse (action kind nodeId (.emit text) ++ continuation sharing c) =
        .ok (emitStmt e :: continuationStmts sharing c) := by
  obtain ⟨block, hblock⟩ := Harness.accepts_iff.1 haccepts
  obtain ⟨hself, e, he, -⟩ := Harness.assignmentFrame.parse_eq_ok_iff.1 hblock
  exact ⟨e, he, aroundEmit.parse_body kind nodeId sharing he hself hc⟩

/-- **What was accepted in a harness is read in its procedure**: a condition as
the negated condition of the branch that leaves the procedure, and a value as
the argument of the call that sends it. Either is the expression that the text
is on its own, and the continuation follows it. -/
theorem parse_body_of_accepts (text : String) (kind : ElementKind) (nodeId : String)
    (sharing : ContextSharing) (hc : ∀ t ∈ c.targets, Names.isIdentifier t.toList = true) :
    (Harness.condition.accepts text = true → ∀ otherwise : Option String,
      (∀ r ∈ otherwise, Names.isIdentifier r.toList = true) → ∃ e, parseExpr text = .ok e ∧
        Harness.statements.parse (action kind nodeId (.guard text otherwise) ++
            continuation sharing c) =
          .ok (.expr [] (.branch (.unary .invert (.paren e)) [exitStmt otherwise] none) false ::
            continuationStmts sharing c)) ∧
    (Harness.assignment.accepts text = true → ∃ e, parseExpr text = .ok e ∧
        Harness.statements.parse (action kind nodeId (.emit text) ++ continuation sharing c) =
          .ok (.expr [] (.propagate (.await (.call (.name "put") [e]))) true ::
            continuationStmts sharing c)) := by
  constructor
  · intro haccepts otherwise hother
    exact exists_parse_guard kind nodeId sharing haccepts hother hc
  · intro haccepts
    exact exists_parse_emit kind nodeId sharing haccepts hc

/-- A gateway whose condition has a comment in it, before two branches, and a
message end whose value has one. -/
theorem parse_body_of_accepts_gateway :
    Harness.condition.accepts "a /* or */ || b" = true ∧
    (∃ e, parseExpr "a /* or */ || b" = .ok e ∧
      Harness.statements.parse (action .exclusiveGateway "G" (.guard "a /* or */ || b" (some "Rest")) ++
          continuation .isolated (.fork ["Left", "Right"])) =
        .ok (.expr [] (.branch (.unary .invert (.paren e)) [exitStmt (some "Rest")] none) false ::
          continuationStmts .isolated (.fork ["Left", "Right"]))) ∧
    Harness.assignment.accepts "paid(/* all */ x)" = true ∧
    ∃ e, parseExpr "paid(/* all */ x)" = .ok e ∧
      Harness.statements.parse (action .endEvent "E" (.emit "paid(/* all */ x)") ++
          continuation .shared .halt) =
        .ok (.expr [] (.propagate (.await (.call (.name "put") [e]))) true ::
          continuationStmts .shared .halt) := by
  have haccepts : Harness.condition.accepts "a /* or */ || b" = true := by decide +kernel
  have htargets : ∀ t ∈ (Continuation.fork ["Left", "Right"]).targets,
      Names.isIdentifier t.toList = true := by decide +kernel
  have hother : ∀ r ∈ some "Rest", Names.isIdentifier r.toList = true := by
    rintro r ⟨⟩
    decide +kernel
  have hvalue : Harness.assignment.accepts "paid(/* all */ x)" = true := by decide +kernel
  have hnone : ∀ t ∈ Continuation.halt.targets, Names.isIdentifier t.toList = true := nofun
  refine ⟨haccepts, ?_, hvalue, ?_⟩
  · exact (parse_body_of_accepts "a /* or */ || b" .exclusiveGateway "G" .isolated htargets).1 haccepts
      (some "Rest") hother
  · exact (parse_body_of_accepts "paid(/* all */ x)" .endEvent "E" .shared hnone).2 hvalue

end Layout

end ProcessCompiler
