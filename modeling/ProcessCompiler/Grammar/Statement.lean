import ProcessCompiler.Grammar.Expression
import ProcessCompiler.Grammar.Item
/-!
# Statements

A block holds statements: bindings, declarations, macro calls and
expressions. An expression that does not end with a block of its own needs
a semicolon behind it, unless it is the last one.
-/

namespace ProcessCompiler

namespace Grammar

open Parse

variable (R : Rules)

/-- A declaration begins here. -/
def startsItem (ts : List Token) : Bool :=
  let two := ts.drop 1
  let three := ts.drop 2
  isKeyword .pub_ ts || (isKeyword .crate_ ts && !isSymbol .colon2 two) ||
    isKeywordOf [.extern_, .use_] ts ||
    (isKeyword .static_ ts && (isKeyword .mut_ two || isIdent two)) ||
    (isKeyword .const_ ts &&
      !(isGroup .brace two || isKeyword .static_ two ||
        (isKeyword .async_ two && !isKeywordOf [.unsafe_, .extern_, .fn_] three) ||
        isKeyword .move_ two || isSymbol .bar two)) ||
    (isKeyword .unsafe_ ts && !isGroup .brace two) ||
    (isKeyword .async_ ts && isKeywordOf [.unsafe_, .extern_, .fn_] two) ||
    isKeywordOf [.fn_, .mod_, .type_, .struct_, .enum_] ts ||
    (isWord "union" ts && isIdent two) || (isWord "auto" ts && isKeyword .trait_ two) ||
    isKeyword .trait_ ts ||
    (isWord "default" ts && (isKeyword .unsafe_ two || isKeyword .impl_ two)) ||
    isKeywordOf [.impl_, .macro_] ts

/-- The call of a macro with braces, as a statement. -/
def macroStmt (attributes : List Token) : Parse Stmt := do
  let p ← plainPath
  let m ← macroTail p
  return .macroCall attributes m (← symbol? .semi)

/-- A binding, with its type, its value and the block for a value that does
not fit. -/
def bindingStmt (attributes : List Token) : Parse Stmt := do
  keyword .let_
  let pattern ← span R.pattern
  let type ← if ← symbol? .colon then some <$> span (R.type true) else pure none
  if ← symbol? .eq then
    let value ← R.expr true
    let otherwise ← if !value.endsInBrace && isKeyword .else_ (← tokens) then do
        keyword .else_
        some <$> plainBody R
      else pure none
    symbol .semi
    return .binding attributes pattern type (some value) otherwise
  else
    symbol .semi
    return .binding attributes pattern type none none

/-- An expression as a statement. A macro call with a semicolon or with
braces is a statement of its own kind. -/
def exprStmt (attributes : List Token) : Parse Stmt := do
  let e ← R.early
  let terminated ← symbol? .semi
  match e.bare with
  | .macroCall m =>
    if terminated || m.delimiter = .brace then return .macroCall attributes m terminated
    else return .expr attributes e terminated
  | _ => return .expr attributes e terminated

/-- A statement. -/
def stmt : Parse Stmt := do
  let attributes ← outerAttributes R
  let ts ← tokens
  let afterPath := (← lookAhead plainPath).map (·.2)
  let called := afterPath.filter (isSymbol .bang)
  let two := (called.map (·.drop 1)).getD []
  let three := two.drop 1
  if called.isSome && isGroup .brace two && !isLoneDot three && !isSymbol .question three then
    macroStmt attributes
  else if isKeyword .let_ ts then bindingStmt R attributes
  else if startsItem ts || (called.isSome && (isIdent two || isKeyword .try_ two)) then
    return .item (← itemFrom R)
  else exprStmt R attributes

/-- The semicolons that stand on their own, as empty statements. -/
def emptyStmts : Parse (List Stmt) :=
  repeatWhile (isSymbol .semi) do
    symbol .semi
    return .empty

/-- The statements of a block. -/
def stmtsIn : Nat → Parse (List Stmt)
  | 0 => fail .tooDeep
  | n + 1 => do
    let empties ← emptyStmts
    if (← tokens).isEmpty then return empties
    let s ← stmt R
    if (← tokens).isEmpty then return empties ++ [s]
    else if s.needsSemicolon then failHere .unterminated
    else return empties ++ s :: (← stmtsIn n)

/-- The statements of a block. -/
def stmtsRule : Parse (List Stmt) := do
  stmtsIn R ((← tokens).length + 1)

/-! ### The grammar -/

/-- The rules over those for the phrases one level further in. -/
def Rules.next (R : Rules) : Rules where
  expr := exprRule R
  unary := unaryRule R
  climb := climbRule R
  trailers := trailersRule R
  early := earlyRule R
  type := typeRule R
  bound := boundRule R
  binder := binderRule R
  pattern := patternRule R
  stmts := stmtsRule R
  item := itemRule R
  useTree := useTreeRule R
  namedFields := namedFieldsRule R

/-- The rules for phrases nested to a given depth. -/
def Rules.ofDepth : Nat → Rules
  | 0 => .none
  | n + 1 => (Rules.ofDepth n).next

/-- The depth that no phrase of a text exceeds: every token opens at most
two levels. -/
def depthFor (ts : List Token) : Nat := 2 * Token.sizes ts + 16

/-- Read all tokens of a text by a rule. Tokens left over inside brackets
are reported before those left over at the end. -/
def parseAll {α : Type} (rule : Rules → Parse α) (text : String) : Except SyntaxError α :=
  match tokenize text.toList with
  | none => .error ⟨false, .unreadable⟩
  | some ts =>
    match rule (Rules.ofDepth (depthFor ts)) ⟨ts, none⟩ with
    | .error e => .error e
    | .ok (a, s) =>
      match s.leftover, s.tokens with
      | some d, _ => .error ⟨false, .leftover (some d)⟩
      | none, _ :: _ => .error ⟨false, .leftover none⟩
      | none, [] => .ok a

/-- Read a text as one expression. -/
def parseExpr (text : String) : Except SyntaxError Expr := parseAll (·.expr true) text

/-- Read a text as one block, and give its statements. -/
def parseBlock (text : String) : Except SyntaxError (List Stmt) := parseAll plainBody text

end Grammar

end ProcessCompiler
