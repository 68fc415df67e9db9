import ProcessCompiler.Proofs.Program.Phrases
/-!
# Statements that await

A task awaits the value of an expression in one statement: it keeps the value
and passes an error on, or it selects between the value and the error, keeps
either, and leaves for the error route. `Awaiting` gathers what is known of the
code around the expression, whose text stands in parentheses: the lexemes on
both sides, what is left of them if the text takes the rest of its line, and
the statement that is read from the whole.
-/

namespace ProcessCompiler

open Grammar Scan Lexeme Text

namespace Layout

variable {key route : String} {rest ts : List Token} {e : Expr} {d : ℕ}

/-! ## The two statements -/

/-- Keeping a value that has a name. -/
def keepTokens (key v : String) : List Token := storeTokens key [.leaf (.ident v)]

/-- The tokens between a pattern and the code of its case. -/
def arrowTokens : List Token := [.leaf (.punct '=' true), .leaf (.punct '>' false)]

/-- The tokens that keep an error and leave for the error route. -/
def failTokens (key route : String) : List Token :=
  keepTokens key "error" ++ .leaf (.punct ';' false) ::
    .leaf (.keyword .return_) :: (leaveTokens route ++ [.leaf (.punct ';' false)])

/-- The tokens of the two cases of an awaited value. -/
def caseTokens (key route : String) : List Token :=
  ReadsFrom.callPattern "Ok" "value" ++ (arrowTokens ++ (keepTokens key "value" ++
    .leaf (.punct ',' false) :: (ReadsFrom.callPattern "Err" "error" ++ (arrowTokens ++
      [.group .brace (failTokens key route)]))))

/-- The tokens of the statement that awaits an expression. -/
def awaitTokens (key : String) (ts : List Token) : Option String → List Token
  | none => storeTokens key [.group .paren ts, .leaf (.punct '.' false), .leaf (.keyword .await_),
      .leaf (.punct '?' false)] ++ [.leaf (.punct ';' false)]
  | some route => [.leaf (.keyword .match_), .group .paren ts, .leaf (.punct '.' false),
      .leaf (.keyword .await_), .group .brace (caseTokens key route)]

/-- Keeping an error and leaving for the error route. -/
def failStmts (key route : String) : List Stmt :=
  [.expr [] (storeExpr key (.name "error")) true,
   .expr [] (.jump .return_ none (some (leaveExpr route))) true]

/-- The statement that awaits an expression: `context.set(key, (e).await?);`, or
a selection between the value and the error that leaves for the error route. -/
def awaitStmt (key : String) (e : Expr) : Option String → Stmt
  | none => .expr [] (storeExpr key (.propagate (.await (.paren e)))) true
  | some route => .expr [] (.select (.await (.paren e))
      [.mk (ReadsFrom.callPattern "Ok" "value") none (storeExpr key (.name "value")),
       .mk (ReadsFrom.callPattern "Err" "error") none (.block .plain none (failStmts key route))])
      false

theorem awaitStmt_closed (key : String) (e : Expr) (route : Option String) :
    (awaitStmt key e route).Closed := by
  cases route <;> rfl

/-! ## Scanning -/

theorem spells_keep (key : String) {v : String} (hv : Names.isIdentifier v.toList = true) :
    Spells (store key v).toList (keepTokens key v) := by
  have hname : ∀ r, Scans (v.toList ++ ')' :: r) [.leaf (.ident v)] (')' :: r) := fun r => by
    have hscans := scans_name hv (show Border (')' :: r) from ⟨rfl, rfl, rfl⟩)
    rwa [String.ofList_toList] at hscans
  exact ⟨_, nests_store (.leaf .nil), scans_store hname⟩

theorem spells_step : Spells step.toList [] := spells_blanks (by decide)

/-- A semicolon at the end of a line. -/
theorem spells_semi : Spells ";\n".toList [.leaf (.punct ';' false)] :=
  ⟨_, .leaf .nil, fun _ => .step rfl rfl (.blank rfl .done)⟩

/-- Leaving for another procedure. -/
theorem spells_exit (h : Names.isIdentifier route.toList = true) :
    Spells (exit (some route) ++ "\n").toList
      (.leaf (.keyword .return_) :: (leaveTokens route ++ [.leaf (.punct ';' false)])) := by
  refine ⟨_, .leaf ((nests_leave route).append (.leaf .nil)), fun rest => ?_⟩
  have hcall : ∀ x, Scans ('(' :: ("context).await;\n".toList ++ x))
      [.opening .paren, .leaf (.ident "context"), .closing .paren, .leaf (.punct '.' false),
        .leaf (.keyword .await_), .leaf (.punct ';' false)] x := fun x =>
    .step rfl rfl (.step rfl rfl (.step rfl rfl (.step rfl rfl (.step rfl rfl (.step rfl rfl
      (.blank rfl .done))))))
  have hreturn : Scans ("return ".toList ++ (route.toList ++ ("(context).await;\n".toList ++ rest)))
      [.leaf (.keyword .return_)] (route.toList ++ ("(context).await;\n".toList ++ rest)) :=
    .step rfl rfl (.blank rfl .done)
  have hall := hreturn.trans ((scans_target h _).trans (hcall rest))
  simpa [exit] using hall

/-- The code of what an error leads to. -/
def failCode (key route : String) : String :=
  openBrace ++ "\n" ++ step ++ step ++ store key "error" ++ ";\n" ++ step ++ step ++
    exit (some route) ++ "\n" ++ step ++ closeBrace

theorem spells_fail (key : String) (h : Names.isIdentifier route.toList = true) :
    Spells (failCode key route).toList [.group .brace (failTokens key route)] := by
  have hkeep := spells_keep key (v := "error") rfl
  have hline : Spells "\n".toList [] := spells_blanks (by decide)
  have hlead := hline.append (spells_step.append spells_step)
  have hall := (hlead.append (hkeep.append (spells_semi.append (spells_step.append
    (spells_step.append ((spells_exit h).append spells_step)))))).braces
  simpa [failCode, failTokens, openBrace, closeBrace] using hall

/-- The code of the two cases of an awaited value, from the end of the line that
awaits it on. -/
def caseCode (key route : String) : String :=
  "\n" ++ step ++ "Ok(value) => " ++ store key "value" ++ ",\n" ++ step ++ "Err(error) => " ++
    failCode key route ++ "\n"

theorem spells_cases (key : String) (h : Names.isIdentifier route.toList = true) :
    Spells (caseCode key route).toList (caseTokens key route) := by
  have hline : Spells "\n".toList [] := spells_blanks (by decide)
  have hvalue : Spells "Ok(value) => ".toList (ReadsFrom.callPattern "Ok" "value" ++ arrowTokens) :=
    ⟨_, .leaf (.group (.leaf .nil) (.leaf (.leaf .nil))), fun _ => .step rfl rfl (.step rfl rfl
      (.step rfl rfl (.step rfl rfl (.step rfl rfl (.step rfl rfl (.blank rfl .done))))))⟩
  have herror : Spells "Err(error) => ".toList (ReadsFrom.callPattern "Err" "error" ++ arrowTokens) :=
    ⟨_, .leaf (.group (.leaf .nil) (.leaf (.leaf .nil))), fun _ => .step rfl rfl (.step rfl rfl
      (.step rfl rfl (.step rfl rfl (.step rfl rfl (.step rfl rfl (.blank rfl .done))))))⟩
  have hcomma : Spells ",\n".toList [.leaf (.punct ',' false)] :=
    ⟨_, .leaf .nil, fun _ => .step rfl rfl (.blank rfl .done)⟩
  have hkeep := spells_keep key (v := "value") rfl
  have hall := hline.append (spells_step.append (hvalue.append (hkeep.append (hcomma.append
    (spells_step.append (herror.append ((spells_fail key h).append hline)))))))
  simpa [caseCode, caseTokens] using hall

/-- The code before and behind the expression that a task awaits, with its
lexemes. `left` is what is scanned behind the expression if the rest of its
line is lost. -/
structure Awaits (key : String) (route : Option String) (before behind : List Char)
    (opened closed left : List Lexeme) : Prop where
  toList_action : ∀ kind nodeId front tail,
    (action kind nodeId (.invoke front tail key route)).toList =
      (preludeCode front).toList ++ (before ++ '(' :: (tail.toList ++ ')' :: behind))
  scans_before : ∀ r, Scans (before ++ '(' :: r) opened ('(' :: r)
  scans_behind : ∀ r, Scans (behind ++ r) closed r
  scans_left : ∀ r, Scans (afterLine (behind ++ r)) left r
  no_return : ∀ r, '\r' ∉ (behind ++ r).takeWhile (· != '\n')
  nests : ∀ {L ts}, Nests L ts →
    Nests (opened ++ (.opening .paren :: (L ++ [.closing .paren]) ++ closed)) (awaitTokens key ts route)
  parens : (opened ++ left).count (.closing .paren) ≤ (opened ++ left).count (.opening .paren)

theorem awaits_storing (key : String) :
    Awaits key none ("context.set(".toList ++ ((quoted key).toList ++ ", ".toList)) ".await?);\n".toList
      (storeOpened key) [.leaf (.punct '.' false), .leaf (.keyword .await_), .leaf (.punct '?' false),
        .closing .paren, .leaf (.punct ';' false)] [] where
  toList_action kind nodeId front tail := by
    have haction : action kind nodeId (.invoke front tail key none) =
        preludeCode front ++ store key ("(" ++ tail ++ ").await?") ++ ";\n" := rfl
    simp only [haction, String.toList_append, toList_store, List.append_assoc]
    rfl
  scans_before r := by
    simpa using scans_storeOpened key ('(' :: r)
  scans_behind r := .step rfl rfl (.step rfl rfl (.step rfl rfl (.step rfl rfl (.step rfl rfl
    (.blank rfl .done)))))
  scans_left r := by
    have hline : afterLine (".await?);\n".toList ++ r) = '\n' :: r := by simp [afterLine]
    rw [hline]
    exact .blank rfl .done
  no_return r := by simp
  nests hL := by
    have hvalue : Nests _ [.group .paren _, .leaf (.punct '.' false), .leaf (.keyword .await_),
        .leaf (.punct '?' false)] := .group hL (.leaf (.leaf (.leaf .nil)))
    have hall : Nests _ (awaitTokens key _ none) := (nests_store hvalue).append (.leaf .nil)
    simpa using hall
  parens := by simp [storeOpened]

theorem action_selecting (kind : ElementKind) (nodeId : String) (front : Option String)
    (tail key route : String) : action kind nodeId (.invoke front tail key (some route)) =
      preludeCode front ++ "match (" ++ tail ++ ").await " ++ openBrace ++ caseCode key route ++
        closeBrace ++ "\n" := by
  have haction : action kind nodeId (.invoke front tail key (some route)) =
      preludeCode front ++ "match (" ++ tail ++ ").await " ++ openBrace ++ "\n" ++
      step ++ "Ok(value) => " ++ store key "value" ++ ",\n" ++
      step ++ "Err(error) => " ++ openBrace ++ "\n" ++
      step ++ step ++ store key "error" ++ ";\n" ++
      step ++ step ++ exit (some route) ++ "\n" ++
      step ++ closeBrace ++ "\n" ++ closeBrace ++ "\n" := rfl
  simp only [haction, caseCode, failCode, String.append_assoc]

theorem exists_awaits_selecting (key : String) (h : Names.isIdentifier route.toList = true) :
    ∃ closed left, Awaits key (some route) "match ".toList
      (".await ".toList ++ '\x7b' :: ((caseCode key route).toList ++ "\x7d\n".toList))
      [.leaf (.keyword .match_)] closed left := by
  obtain ⟨C, hC, hscans⟩ := spells_cases key h
  have hclose : ∀ r, Scans ('\x7d' :: '\n' :: r) [.closing .brace] r := fun r =>
    .step rfl rfl (.blank rfl .done)
  have hcases : ∀ r, Scans ((caseCode key route).toList ++ '\x7d' :: '\n' :: r)
      (C ++ [.closing .brace]) r := fun r => (hscans _).trans (hclose r)
  have hopen : ∀ x, Scans (".await ".toList ++ '\x7b' :: x)
      [.leaf (.punct '.' false), .leaf (.keyword .await_), .opening .brace] x := fun x =>
    .step rfl rfl (.step rfl rfl (.step rfl rfl .done))
  -- The line that awaits ends where the code of the cases begins.
  have hline : ∀ r, afterLine (".await ".toList ++ '\x7b' :: ((caseCode key route).toList ++ r)) =
      (caseCode key route).toList ++ r := fun r => by simp [afterLine, caseCode]
  refine ⟨.leaf (.punct '.' false) :: .leaf (.keyword .await_) :: .opening .brace ::
    (C ++ [.closing .brace]), C ++ [.closing .brace], fun kind nodeId front tail => ?_, fun r => ?_, fun r => ?_,
    fun r => ?_, fun r => by simp [caseCode], fun hL => ?_, ?_⟩
  · simp [action_selecting, openBrace, closeBrace]
  · exact .step rfl rfl (.blank rfl .done)
  · simpa using (hopen _).trans (hcases r)
  · have hleft := hcases r
    rw [← hline] at hleft
    simpa using hleft
  · have hall : Nests _ (awaitTokens key _ (some route)) :=
      .leaf (.group hL (.leaf (.leaf (.group hC .nil))))
    simpa using hall
  · simp [hC.count_eq .paren]

/-- **The code around an awaited expression**, with or without an error route. -/
theorem exists_awaits (key : String) {route : Option String}
    (h : ∀ r ∈ route, Names.isIdentifier r.toList = true) :
    ∃ before behind opened closed left, Awaits key route before behind opened closed left := by
  cases route with
  | none => exact ⟨_, _, _, _, _, awaits_storing key⟩
  | some route =>
    obtain ⟨closed, left, hawaits⟩ := exists_awaits_selecting key (h route rfl)
    exact ⟨_, _, _, closed, left, hawaits⟩

/-! ## Reading -/

theorem readsFrom_keep (key v : String) (hrest : endsExpr rest = true) :
    ReadsFrom 6 (·.early) (keepTokens key v ++ rest) (storeExpr key (.name v)) rest := by
  have hname : ReadsFrom 3 (·.expr true) [.leaf (.ident v)] (.name v) [] :=
    .expr (.name ⟨rfl, rfl, rfl, rfl, rfl⟩ (.trailers_end rfl)) rfl
  have hstore : ReadsFrom 5 (·.unary true) (keepTokens key v ++ rest) (storeExpr key (.name v)) rest :=
    readsFrom_store hname (List.cons_ne_nil _ _) (Nat.le_refl 3) hrest
  exact .early rfl hstore rfl hrest

/-- What an error leads to is read as two statements. -/
theorem readsFrom_fail (key route : String) :
    ReadsFrom 10 (·.stmts) (failTokens key route) (failStmts key route) [] := by
  have hkeep : ReadsFrom 9 stmt (failTokens key route) (.expr [] (storeExpr key (.name "error")) true)
      (.leaf (.keyword .return_) :: (leaveTokens route ++ [.leaf (.punct ';' false)])) :=
    .mono (.stmt_name ⟨rfl, rfl, rfl, rfl, rfl⟩ (readsFrom_keep key "error" rfl) nofun) (by decide)
  have hleave : ReadsFrom 9 (·.early)
      (.leaf (.keyword .return_) :: (leaveTokens route ++ [.leaf (.punct ';' false)]))
      (.jump .return_ none (some (leaveExpr route))) [.leaf (.punct ';' false)] :=
    .return_ (.expr (readsFrom_leave route rfl) rfl) rfl
  have hreturn : ReadsFrom 9 stmt
      (.leaf (.keyword .return_) :: (leaveTokens route ++ [.leaf (.punct ';' false)]))
      (.expr [] (.jump .return_ none (some (leaveExpr route))) true) [] := fun n hn =>
    reads_stmt_keyword (.inr (.inr rfl)) (reads_exprStmt_semi nofun (hleave n hn))
  exact .stmts (.stmtsIn_cons rfl hkeep (List.cons_ne_nil _ _) rfl (.stmtsIn_last rfl hreturn 0))
    (Nat.succ_le_succ (Nat.succ_pos _))

/-- **The code that awaits an expression is read as one statement.** -/
theorem readsFrom_await (key : String) (route : Option String) (h : ReadsFrom d (·.expr true) ts e [])
    (hts : ts ≠ []) (hd : 16 ≤ d) (hrest : startsPlain rest = true) :
    ReadsFrom (d + 6) stmt (awaitTokens key ts route ++ rest) (awaitStmt key e route) rest := by
  cases route with
  | none =>
    have hvalue : ReadsFrom (d + 2) (·.expr true) [.group .paren ts, .leaf (.punct '.' false),
        .leaf (.keyword .await_), .leaf (.punct '?' false)] (.propagate (.await (.paren e))) [] :=
      .expr (.paren h hts (.mono (.await rfl (.propagate rfl (.trailers_end rfl))) (by omega))) rfl
    have hstore : ReadsFrom (d + 4) (·.unary true) (storeTokens key _ ++ _)
        (storeExpr key (.propagate (.await (.paren e)))) (.leaf (.punct ';' false) :: rest) :=
      readsFrom_store hvalue (List.cons_ne_nil _ _) (by omega) rfl
    exact .mono (.stmt_name ⟨rfl, rfl, rfl, rfl, rfl⟩ (.early rfl hstore rfl rfl)
      fun _ h => by cases h) (by omega)
  | some route =>
    have hno := isSymbol_of_startsPlain hrest
    have hscrutinee : ReadsFrom (d + 2) (·.expr false) _ (.await (.paren e))
        (.group .brace (caseTokens key route) :: rest) :=
      .expr (.paren h hts (.mono (.await rfl (.trailers_end rfl)) (by omega))) rfl
    have hvalue : ReadsFrom (d + 2) arm (caseTokens key route) _ _ :=
      .arm_call (by omega) (.mono (readsFrom_keep key "value" rfl) (by omega)) (.inl ⟨rfl, _, rfl⟩)
    have herror : ReadsFrom (d + 2) arm (ReadsFrom.callPattern "Err" "error" ++ (arrowTokens ++
        [.group .brace (failTokens key route)])) _ [] :=
      .arm_call (by omega) (.mono (.block (readsFrom_fail key route) rfl) (by omega))
        (.inr ⟨rfl, rfl, rfl⟩)
    have hselect := ReadsFrom.select hscrutinee rfl hvalue (List.cons_ne_nil _ _) herror
      (by simp [isLoneDot, hno]) (hno _)
    refine .mono (fun n hn => ?_) (show d + 3 ≤ d + 6 by omega)
    exact reads_stmt_keyword (.inr (.inl rfl)) (reads_exprStmt_end (fun _ h => by cases h) (hno _)
      (hselect n hn))

end Layout

end ProcessCompiler
