import ProcessCompiler.Program.Layout
import ProcessCompiler.Proofs.Grammar.Reading
import ProcessCompiler.Proofs.Scan.Spelling
/-!
# Phrases of procedures

The pieces of code that the bodies of procedures are put together from: a
value is kept in the context, another procedure is awaited, branches are
spawned. For each piece the file gives its tokens and the tree that is read
from them, and says that its text scans to these tokens and is read as that
tree, wherever it stands.
-/

namespace ProcessCompiler

open Grammar Scan Lexeme Text

namespace Layout

variable {key target : String} {x : List Char} {V : List Lexeme} {vs rest : List Token}
  {v : Expr} {d : ℕ}

/-! ## Keeping a value -/

/-- A text as a literal. -/
def keyLiteral (key : String) : Literal := ⟨.string, (quoted key).toList⟩

/-- The lexemes of the code that keeps a value, up to the value. -/
def storeOpened (key : String) : List Lexeme :=
  [.leaf (.ident "context"), .leaf (.punct '.' false), .leaf (.ident "set"), .opening .paren,
   .leaf (.literal (keyLiteral key)), .leaf (.punct ',' false)]

/-- The tokens of the code that keeps a value. -/
def storeTokens (key : String) (value : List Token) : List Token :=
  [.leaf (.ident "context"), .leaf (.punct '.' false), .leaf (.ident "set"),
   .group .paren (.leaf (.literal (keyLiteral key)) :: .leaf (.punct ',' false) :: value)]

/-- The code that keeps a value. -/
def storeExpr (key : String) (value : Expr) : Expr :=
  .methodCall (.name "context") "set" none [.literal (keyLiteral key), value]

theorem toList_store (key value : String) : (store key value).toList =
    "context.set(".toList ++ ((quoted key).toList ++ (", ".toList ++ (value.toList ++ [')']))) := by
  have hstore : store key value = "context.set(" ++ quoted key ++ ", " ++ value ++ ")" := rfl
  rw [hstore]
  simp only [String.toList_append, List.append_assoc]
  rfl

theorem scans_storeOpened (key : String) (x : List Char) :
    Scans ("context.set(".toList ++ ((quoted key).toList ++ (", ".toList ++ x)))
      (storeOpened key) x := by
  have hkey : Scans ((quoted key).toList ++ ',' :: ' ' :: x) [.leaf (.literal (keyLiteral key))]
      (',' :: ' ' :: x) := scans_quoted key rfl
  have hcomma : Scans (',' :: ' ' :: x) [.leaf (.punct ',' false)] x :=
    .step rfl rfl (.blank rfl .done)
  have hopen : Scans ("context.set(".toList ++ ((quoted key).toList ++ ',' :: ' ' :: x))
      [.leaf (.ident "context"), .leaf (.punct '.' false), .leaf (.ident "set"), .opening .paren]
      ((quoted key).toList ++ ',' :: ' ' :: x) := by
    have hquote : (quoted key).toList = '"' :: (key.toList.flatMap escaped ++ ['"']) := by
      simp [Text.quoted]
    rw [hquote]
    exact .step rfl rfl (.step rfl rfl (.step rfl rfl (.step rfl rfl .done)))
  exact hopen.trans (hkey.trans hcomma)

theorem scans_store {value : String} (hvalue : ∀ r, Scans (value.toList ++ ')' :: r) V (')' :: r))
    (x : List Char) :
    Scans ((store key value).toList ++ x) (storeOpened key ++ (V ++ [.closing .paren])) x := by
  have hclose : Scans (')' :: x) [.closing .paren] x := .step rfl rfl .done
  have hall := (scans_storeOpened key _).trans ((hvalue x).trans hclose)
  rw [toList_store]
  simpa using hall

theorem nests_store (h : Nests V vs) :
    Nests (storeOpened key ++ (V ++ [.closing .paren])) (storeTokens key vs) :=
  .leaf (.leaf (.leaf (.group (.leaf (.leaf h)) .nil)))

theorem readsFrom_store (h : ReadsFrom d (·.expr true) vs v []) (hvs : vs ≠ []) (hd : 3 ≤ d)
    (hrest : endsExpr rest = true) :
    ReadsFrom (d + 2) (·.unary true) (storeTokens key vs ++ rest) (storeExpr key v) rest := by
  have hkey : ReadsFrom d (·.expr true)
      (.leaf (.literal (keyLiteral key)) :: .leaf (.punct ',' false) :: vs)
      (.literal (keyLiteral key)) (.leaf (.punct ',' false) :: vs) :=
    .mono (.expr (.literal (.trailers_end rfl)) rfl) hd
  have hset : ReadsFrom (d + 1) (·.trailers (.name "context"))
      (.leaf (.punct '.' false) :: .leaf (.ident "set") :: .group .paren _ :: rest)
      (storeExpr key v) rest :=
    .methodCall rfl (.arguments hkey h (List.cons_ne_nil _ _) hvs)
      (.mono (.trailers_end hrest) (by omega))
  exact .name ⟨rfl, rfl, rfl, rfl, rfl⟩ hset

/-! ## Awaiting another procedure -/

/-- The tokens of a call with the context. -/
def callTokens (target : String) : List Token :=
  [.leaf (.ident target), .group .paren [.leaf (.ident "context")]]

/-- The tokens that await another procedure. -/
def leaveTokens (target : String) : List Token :=
  callTokens target ++ [.leaf (.punct '.' false), .leaf (.keyword .await_)]

/-- Awaiting another procedure. -/
def leaveExpr (target : String) : Expr := .await (.call (.name target) [.name "context"])

/-- A procedure's name before a parenthesis. -/
theorem scans_target (h : Names.isIdentifier target.toList = true) (x : List Char) :
    Scans (target.toList ++ '(' :: x) [.leaf (.ident target)] ('(' :: x) := by
  have hname := scans_name h (border_paren x)
  rwa [String.ofList_toList] at hname

theorem scans_leave (h : Names.isIdentifier target.toList = true) (hx : Border x) :
    Scans (target.toList ++ ("(context).await".toList ++ x))
      [.leaf (.ident target), .opening .paren, .leaf (.ident "context"), .closing .paren,
        .leaf (.punct '.' false), .leaf (.keyword .await_)] x := by
  have hcloses : Closes "(context).await".toList
      [.opening .paren, .leaf (.ident "context"), .closing .paren, .leaf (.punct '.' false),
        .leaf (.keyword .await_)] := closes_of_lexemes rfl rfl
  exact (scans_target h _).trans (hcloses.append x hx nofun)

theorem nests_leave (target : String) :
    Nests [.leaf (.ident target), .opening .paren, .leaf (.ident "context"), .closing .paren,
      .leaf (.punct '.' false), .leaf (.keyword .await_)] (leaveTokens target) :=
  .leaf (.group (.leaf .nil) (.leaf (.leaf .nil)))

theorem readsFrom_leave (target : String) (hrest : endsExpr rest = true) :
    ReadsFrom 6 (·.unary true) (leaveTokens target ++ rest) (leaveExpr target) rest := by
  have hcontext : ReadsFrom 3 (·.expr true) [.leaf (.ident "context")] (.name "context") [] :=
    .expr (.name ⟨rfl, rfl, rfl, rfl, rfl⟩ (.trailers_end rfl)) rfl
  have hawait : ReadsFrom 3 (·.trailers (.call (.name target) [.name "context"]))
      (.leaf (.punct '.' false) :: .leaf (.keyword .await_) :: rest) (leaveExpr target) rest :=
    .mono (.await rfl (.trailers_end hrest)) (by decide)
  have hcall : ReadsFrom 4 (·.trailers (.name target)) (.group .paren [.leaf (.ident "context")] :: _)
      (leaveExpr target) rest :=
    .call (.argument hcontext (List.cons_ne_nil _ _)) hawait
  exact .mono (.name ⟨rfl, rfl, rfl, rfl, rfl⟩ hcall) (by decide)

/-! ## Continuations -/

/-- The tokens that end a branch. -/
def haltTokens : List Token := [.leaf (.ident "Ok"), .group .paren [.group .paren []]]

/-- The value that ends a branch. -/
def haltStmt : Stmt := .expr [] (.call (.name "Ok") [.tuple []]) false

/-- What makes the context of a forked branch. -/
def branchMethod : ContextSharing → String
  | .shared => "clone"
  | .isolated => "fork"

/-- The tokens of the context of a forked branch. -/
def branchTokens (sharing : ContextSharing) : List Token :=
  [.leaf (.ident "context"), .leaf (.punct '.' false), .leaf (.ident (branchMethod sharing)),
   .group .paren []]

/-- The tokens that spawn a branch. -/
def spawnTokens (sharing : ContextSharing) (target : String) : List Token :=
  [.leaf (.ident "spawn"),
   .group .paren [.leaf (.ident target), .group .paren (branchTokens sharing)],
   .leaf (.punct ';' false)]

/-- Spawning a branch. -/
def spawnStmt (sharing : ContextSharing) (target : String) : Stmt :=
  .expr [] (.call (.name "spawn") [.call (.name target)
    [.methodCall (.name "context") (branchMethod sharing) none []]]) true

/-- The tokens of a continuation. -/
def continuationTokens (sharing : ContextSharing) : Continuation → List Token
  | .halt => haltTokens
  | .next target => leaveTokens target
  | .fork targets => targets.flatMap (spawnTokens sharing) ++ haltTokens

/-- The statements of a continuation. -/
def continuationStmts (sharing : ContextSharing) : Continuation → List Stmt
  | .halt => [haltStmt]
  | .next target => [.expr [] (leaveExpr target) false]
  | .fork targets => targets.map (spawnStmt sharing) ++ [haltStmt]

theorem spells_halt : Spells "Ok(())\n".toList haltTokens :=
  ⟨_, .leaf (.group (.group .nil .nil) .nil), fun _ => .step rfl rfl (.step rfl rfl (.step rfl rfl
    (.step rfl rfl (.step rfl rfl (.blank rfl .done)))))⟩

theorem spells_leave (h : Names.isIdentifier target.toList = true) :
    Spells (target ++ "(context).await\n").toList (leaveTokens target) := by
  refine ⟨_, nests_leave target, fun rest => ?_⟩
  have hleave := (scans_leave h (border_line rest)).trans (.blank rfl .done)
  simpa using hleave

theorem spells_spawn (sharing : ContextSharing) (h : Names.isIdentifier target.toList = true) :
    Spells ("spawn(" ++ target ++ "(" ++ branchContext sharing ++ "));\n").toList
      (spawnTokens sharing target) := by
  refine ⟨_, .leaf (.group (.leaf (.group (.leaf (.leaf (.leaf (.group .nil .nil)))) .nil))
    (.leaf .nil)), fun rest => ?_⟩
  have htarget : Scan.lexemes target.toList = some [.leaf (.ident target)] := by
    have hname : Scans (target.toList ++ []) _ [] := scans_name h ⟨rfl, rfl, rfl⟩
    rw [List.append_nil, String.ofList_toList] at hname
    exact hname.lexemes
  have hopen : ∀ y, Scans ("spawn".toList ++ '(' :: (target.toList ++ '(' :: y))
      [.leaf (.ident "spawn"), .opening .paren, .leaf (.ident target)] ('(' :: y) := fun y =>
    .step rfl rfl ((scans_open htarget (.leaf .nil) (List.cons_ne_nil _ _) (border_paren y)).trans
      (scans_target h y))
  have hbranch : Scans ('(' :: ((branchContext sharing).toList ++ ("));\n".toList ++ rest)))
      [.opening .paren, .leaf (.ident "context"), .leaf (.punct '.' false),
        .leaf (.ident (branchMethod sharing)), .opening .paren, .closing .paren, .closing .paren,
        .closing .paren, .leaf (.punct ';' false)] rest := by
    cases sharing <;> exact .step rfl rfl (.step rfl rfl (.step rfl rfl (.step rfl rfl (.step rfl rfl
      (.step rfl rfl (.step rfl rfl (.step rfl rfl (.step rfl rfl (.blank rfl .done)))))))))
  have hall := (hopen _).trans hbranch
  simpa using hall

/-- **A continuation spells its tokens**, if its targets are names. -/
theorem spells_continuation (sharing : ContextSharing) {c : Continuation}
    (h : ∀ t ∈ c.targets, Names.isIdentifier t.toList = true) :
    Spells (continuation sharing c).toList (continuationTokens sharing c) := by
  cases c with
  | halt => exact spells_halt
  | next target => exact spells_leave (h target List.mem_cons_self)
  | fork targets =>
    have htargets : ∀ t ∈ targets, Names.isIdentifier t.toList = true := h
    clear h
    unfold continuation continuationTokens
    rw [String.toList_append]
    refine Spells.append ?_ spells_halt
    induction targets with
    | nil => exact ⟨[], .nil, fun _ => .done⟩
    | cons t targets ih =>
      rw [List.map_cons, String.join_cons, String.toList_append, List.flatMap_cons]
      exact (spells_spawn sharing (htargets t List.mem_cons_self)).append
        (ih fun u hu => htargets u (List.mem_cons_of_mem _ hu))

theorem readsFrom_halt : ReadsFrom 7 stmt haltTokens haltStmt [] := by
  have hunit : ReadsFrom 3 (·.expr true) [.group .paren []] (.tuple []) [] :=
    .expr (.unit (.trailers_end rfl)) rfl
  have hcall : ReadsFrom 4 (·.trailers (.name "Ok")) [.group .paren [.group .paren []]]
      (.call (.name "Ok") [.tuple []]) [] :=
    .call (.argument hunit (List.cons_ne_nil _ _)) (.mono (.trailers_end rfl) (by decide))
  have hname : ReadsFrom 6 (·.unary true) haltTokens (.call (.name "Ok") [.tuple []]) [] :=
    .mono (.name ⟨rfl, rfl, rfl, rfl, rfl⟩ hcall) (by decide)
  exact .stmt_name_end ⟨rfl, rfl, rfl, rfl, rfl⟩ (.early rfl hname rfl rfl) rfl nofun

theorem readsFrom_leaveStmt (target : String) :
    ReadsFrom 7 stmt (leaveTokens target) (.expr [] (leaveExpr target) false) [] := by
  have hleave : ReadsFrom 6 (·.unary true) (leaveTokens target) (leaveExpr target) [] :=
    readsFrom_leave target rfl
  exact .stmt_name_end ⟨rfl, rfl, rfl, rfl, rfl⟩ (.early rfl hleave rfl rfl) rfl nofun

theorem readsFrom_spawn (sharing : ContextSharing) (target : String) (rest : List Token) :
    ReadsFrom 10 stmt (spawnTokens sharing target ++ rest) (spawnStmt sharing target) rest := by
  have hbranch : ReadsFrom 4 (·.expr true) (branchTokens sharing)
      (.methodCall (.name "context") (branchMethod sharing) none []) [] :=
    .expr (.name ⟨rfl, rfl, rfl, rfl, rfl⟩ (.methodCall rfl .noArguments (.trailers_end rfl))) rfl
  have htarget : ReadsFrom 7 (·.expr true) [.leaf (.ident target), .group .paren (branchTokens sharing)]
      (.call (.name target) [.methodCall (.name "context") (branchMethod sharing) none []]) [] :=
    .expr (.name ⟨rfl, rfl, rfl, rfl, rfl⟩ (.call (.argument hbranch (List.cons_ne_nil _ _))
      (.mono (.trailers_end rfl) (by decide)))) rfl
  have hcall : ReadsFrom 9 (·.unary true) (spawnTokens sharing target ++ rest)
      (.call (.name "spawn") [.call (.name target)
        [.methodCall (.name "context") (branchMethod sharing) none []]])
      (.leaf (.punct ';' false) :: rest) :=
    .name ⟨rfl, rfl, rfl, rfl, rfl⟩ (.call (.argument htarget (List.cons_ne_nil _ _))
      (.mono (.trailers_end rfl) (by decide)))
  exact .stmt_name ⟨rfl, rfl, rfl, rfl, rfl⟩ (.early rfl hcall rfl rfl) nofun

/-- A continuation begins with a name, and has no more statements than tokens. -/
theorem continuationTokens_start (sharing : ContextSharing) (c : Continuation) :
    continuationTokens sharing c ≠ [] ∧ startsPlain (continuationTokens sharing c) = true := by
  rcases c with _ | _ | ⟨_ | ⟨t, targets⟩⟩ <;> exact ⟨List.cons_ne_nil _ _, rfl⟩

theorem length_continuationStmts_le (sharing : ContextSharing) (c : Continuation) :
    (continuationStmts sharing c).length ≤ (continuationTokens sharing c).length := by
  rcases c with _ | _ | targets
  · exact Nat.le_succ 1
  · exact Nat.le_add_left _ _
  · have htokens : (targets.flatMap (spawnTokens sharing)).length = targets.length * 3 := by
      simp [List.length_flatMap, spawnTokens]
    simp only [continuationStmts, continuationTokens, List.length_append, htokens, List.length_map]
    show targets.length + 1 ≤ targets.length * 3 + 2
    omega

/-- **A continuation is read as its statements**, to the end of the block. -/
theorem readsFrom_continuation (sharing : ContextSharing) (c : Continuation) :
    ReadsFrom 10 (stmtsIn · (continuationStmts sharing c).length) (continuationTokens sharing c)
      (continuationStmts sharing c) [] := by
  have hhalt : ReadsFrom 10 (stmtsIn · 1) haltTokens [haltStmt] [] :=
    .stmtsIn_last rfl (readsFrom_halt.mono (by decide)) 0
  rcases c with _ | target | targets
  · exact hhalt
  · exact .stmtsIn_last rfl ((readsFrom_leaveStmt target).mono (by decide)) 0
  · induction targets with
    | nil => exact hhalt
    | cons t targets ih =>
      have hmore := (continuationTokens_start sharing (.fork targets)).1
      simp only [continuationTokens, continuationStmts, List.flatMap_cons, List.map_cons,
        List.cons_append, List.length_cons, List.append_assoc] at ih hmore ⊢
      exact .stmtsIn_cons rfl (readsFrom_spawn sharing t _) hmore rfl ih

end Layout

end ProcessCompiler
