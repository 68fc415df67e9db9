import ProcessCompiler.Grammar.Tree
import ProcessCompiler.Grammar.Fault
/-!
# Parsers

A parser reads tokens from the front of a list and gives a value and the
rest, or a syntax error. Tokens left over inside brackets are no error at
once: the first such pair is remembered, and reported only if nothing else
is wrong with the text. Tests on the tokens ahead are plain functions on
token lists.
-/

namespace ProcessCompiler

namespace Grammar

/-! ### Tests on the tokens ahead -/

/-- The list begins with the given punctuation, all but the last joined to
the next. -/
def startsPunct : List Char → List Token → Bool
  | [], _ => true
  | [c], .leaf (.punct c' _) :: _ => c == c'
  | c :: cs, .leaf (.punct c' joint) :: rest => c == c' && joint && startsPunct cs rest
  | _, _ => false

/-- The list begins with a symbol. -/
def isSymbol (y : Symbol) (ts : List Token) : Bool := startsPunct y.chars ts

/-- The list begins with a reserved word. -/
def isKeyword (k : Keyword) : List Token → Bool
  | .leaf (.keyword k') :: _ => k == k'
  | _ => false

/-- The list begins with one of some reserved words. -/
def isKeywordOf (ks : List Keyword) (ts : List Token) : Bool := ks.any (isKeyword · ts)

/-- The list begins with the given identifier. -/
def isWord (w : String) : List Token → Bool
  | .leaf (.ident n) :: _ => n == w
  | _ => false

/-- The list begins with an identifier. -/
def isIdent : List Token → Bool
  | .leaf (.ident _) :: _ => true
  | _ => false

/-- The list begins with an identifier or a reserved word. -/
def isAnyWord : List Token → Bool
  | .leaf (.ident _) :: _ => true
  | .leaf (.keyword _) :: _ => true
  | _ => false

/-- The list begins with the given brackets. -/
def isGroup (d : Delimiter) : List Token → Bool
  | .group d' _ :: _ => d == d'
  | _ => false

/-- The list begins with some brackets. -/
def isAnyGroup : List Token → Bool
  | .group _ _ :: _ => true
  | _ => false

/-- The list begins with a lifetime. -/
def isLifetime : List Token → Bool
  | .leaf (.lifetime _) :: _ => true
  | _ => false

/-- The list begins with a number. -/
def isNumber : List Token → Bool
  | .leaf (.literal ⟨.number, _⟩) :: _ => true
  | _ => false

/-- The list begins with a literal, which may be a truth value or a number
with a sign. -/
def isLiteral : List Token → Bool
  | .leaf (.literal _) :: _ => true
  | .leaf (.keyword .true_) :: _ => true
  | .leaf (.keyword .false_) :: _ => true
  | .leaf (.punct '-' _) :: rest => isNumber rest
  | _ => false

/-- The list begins with a string literal. -/
def isString : List Token → Bool
  | .leaf (.literal ⟨.string, _⟩) :: _ => true
  | _ => false

/-- The list begins with a `.` that is no range. -/
def isLoneDot (ts : List Token) : Bool := isSymbol .dot ts && !isSymbol .dot2 ts

/-- The list begins with a `:` that is no `::`. -/
def isLoneColon (ts : List Token) : Bool := isSymbol .colon ts && !isSymbol .colon2 ts

/-- The list begins with a word that may begin a path: an identifier or one
of the words that stand for a place. -/
def isPathWord (ts : List Token) : Bool :=
  isIdent ts || isKeywordOf [.super_, .self_, .upperSelf, .crate_] ts

/-! ### The monad -/

/-- The tokens at hand, and the first brackets that kept tokens unread. -/
structure Stream where
  tokens : List Token
  leftover : Option Delimiter

/-- A reader of tokens. -/
abbrev Parse (α : Type) := StateT Stream (Except SyntaxError) α

namespace Parse

variable {α β : Type}

/-- The tokens ahead. -/
def tokens : Parse (List Token) := fun s => .ok (s.tokens, s)

/-- Fail, whatever is ahead. -/
def fail (c : Cause) : Parse α := fun _ => .error ⟨false, c⟩

/-- Fail at this place. -/
def failHere (c : Cause) : Parse α := fun s => .error ⟨s.tokens.isEmpty, c⟩

/-- Fail at this place for want of one of some phrases. -/
def expect (what : List Expectation) : Parse α := failHere (.expected what)

/-- Pass over some tokens. -/
def skip (n : Nat) : Parse Unit := fun s => .ok ((), { s with tokens := s.tokens.drop n })

/-- Read a symbol. Its absence is reported without a word on the end of the
tokens. -/
def symbol (y : Symbol) : Parse Unit := do
  if isSymbol y (← tokens) then skip y.chars.length else fail (.expected [.symbol y])

/-- Read a symbol if it is there, and say so. -/
def symbol? (y : Symbol) : Parse Bool := do
  if isSymbol y (← tokens) then
    skip y.chars.length
    return true
  else return false

/-- Read a reserved word. -/
def keyword (k : Keyword) : Parse Unit := do
  if isKeyword k (← tokens) then skip 1 else expect [.keyword k]

/-- Read a reserved word if it is there, and say so. -/
def keyword? (k : Keyword) : Parse Bool := do
  if isKeyword k (← tokens) then
    skip 1
    return true
  else return false

/-- Read an identifier. -/
def ident : Parse String := do
  match ← tokens with
  | .leaf (.ident n) :: _ =>
    skip 1
    return n
  | .leaf (.keyword k) :: _ => failHere (.reserved k)
  | _ => expect [.identifier]

/-- Read an identifier or a reserved word. -/
def anyWord : Parse String := do
  match ← tokens with
  | .leaf (.ident n) :: _ =>
    skip 1
    return n
  | .leaf (.keyword k) :: _ =>
    skip 1
    return k.text
  | _ => expect [.anyWord]

/-- Read a lifetime. -/
def lifetime : Parse String := do
  match ← tokens with
  | .leaf (.lifetime n) :: _ =>
    skip 1
    return n
  | _ => expect [.lifetime]

/-- Read a lifetime if one is there. -/
def lifetime? : Parse (Option String) := do
  match ← tokens with
  | .leaf (.lifetime n) :: _ =>
    skip 1
    return some n
  | _ => return none

/-- Read a literal that `isLiteral` has seen. -/
def literal : Parse Unit := do
  match ← tokens with
  | .leaf (.punct _ _) :: _ => skip 2
  | _ => skip 1

/-- Read brackets of one kind, and what is between them by `p`. -/
def within (d : Delimiter) (p : Parse α) : Parse α := fun s =>
  match s.tokens with
  | .group d' inner :: rest =>
    if d == d' then
      match p ⟨inner, s.leftover⟩ with
      | .ok (a, s') =>
        .ok (a, ⟨rest, s'.leftover <|> if s'.tokens.isEmpty then none else some d⟩)
      | .error e => .error e
    else expect [.delimiter d] s
  | _ => expect [.delimiter d] s

/-- Read brackets of any kind, and give the tokens between them. -/
def anyGroup : Parse (Delimiter × List Token) := do
  match ← tokens with
  | .group d inner :: _ =>
    skip 1
    return (d, inner)
  | _ => expect [.group]

/-- Read by `p`, and give the tokens that it read. -/
def spanned (p : Parse α) : Parse (α × List Token) := do
  let before ← tokens
  let a ← p
  let after ← tokens
  return (a, before.take (before.length - after.length))

/-- The tokens that `p` reads. -/
def span (p : Parse α) : Parse (List Token) := do
  let (_, ts) ← spanned p
  return ts

/-- Read by `p`; where it refuses, read nothing. -/
def attempt (p : Parse α) : Parse (Option α) := fun s =>
  match p s with
  | .ok (a, s') => .ok (some a, s')
  | .error e => if e.cause = .tooDeep then .error e else .ok (none, s)

/-- What `p` would read, and the tokens after it, with nothing read. -/
def lookAhead (p : Parse α) : Parse (Option (α × List Token)) := fun s =>
  match p s with
  | .ok (a, s') => .ok (some (a, s'.tokens), s)
  | .error e => if e.cause = .tooDeep then .error e else .ok (none, s)

/-! ### Repetition

A repetition reads at least one token in each round, so the number of tokens
ahead bounds its rounds. -/

/-- Rounds of `p` as long as `more` holds of the tokens ahead. -/
def repeatIn (more : List Token → Bool) (p : Parse α) : Nat → Parse (List α)
  | 0 => fail .tooDeep
  | n + 1 => do
    if more (← tokens) then
      let a ← p
      return a :: (← repeatIn more p n)
    else return []

/-- Read by `p` as long as `more` holds of the tokens ahead. -/
def repeatWhile (more : List Token → Bool) (p : Parse α) : Parse (List α) := do
  repeatIn more p ((← tokens).length + 1)

/-- Read by `p` to the end of the tokens. -/
def repeatAll (p : Parse α) : Parse (List α) := repeatWhile (!·.isEmpty) p

/-- Rounds of `p` with `separator` between them, up to a place where `stop`
holds. -/
def separatedIn (stop : List Token → Bool) (separator : Parse Unit) (p : Parse α) :
    Nat → Parse (List α)
  | 0 => fail .tooDeep
  | n + 1 => do
    if stop (← tokens) then return []
    let a ← p
    if stop (← tokens) then return [a]
    separator
    return a :: (← separatedIn stop separator p n)

/-- Read by `p` with `separator` in between, up to a place where `stop`
holds. A separator may stand before that place. -/
def separated (stop : List Token → Bool) (separator : Parse Unit) (p : Parse α) :
    Parse (List α) := do
  separatedIn stop separator p ((← tokens).length + 1)

/-- Read by `p` with commas in between, to the end of the tokens. -/
def commas (p : Parse α) : Parse (List α) := separated (·.isEmpty) (symbol .comma) p

/-- Rounds of `p` as long as `link` follows, none where `stop` holds. -/
def linkedIn (stop : List Token → Bool) (link : Symbol) (p : Parse α) : Nat → Parse (List α)
  | 0 => fail .tooDeep
  | n + 1 => do
    if stop (← tokens) then return []
    let a ← p
    if ← symbol? link then return a :: (← linkedIn stop link p n)
    else return [a]

/-- Read by `p` as long as the symbol `link` follows, and nothing where
`stop` holds. -/
def linked (stop : List Token → Bool) (link : Symbol) (p : Parse α) : Parse (List α) := do
  linkedIn stop link p ((← tokens).length + 1)

end Parse

/-! ### Rules

The phrases of the language contain each other. A grammar is therefore
written over a record of the rules it may use for the phrases inside, and
`Rules.ofDepth` closes the circle for phrases nested to a given depth. -/

/-- What the grammar needs to know of a type. -/
inductive TypeForm where
  /-- A path; `simple` if it is one name that may take a value or bounds. -/
  | path (simple : Bool)
  /-- Bounds without a word before them; `single` if it is one bound. -/
  | bounds (single : Bool)
  | other
deriving DecidableEq, Repr

/-- What the grammar needs to know of a bound. -/
inductive BoundForm where
  | trait
  | lifetime
  | capture
  | constTrait
deriving DecidableEq, Repr

/-- What the grammar needs to know of a pattern. -/
inductive PatternForm where
  | rest
  | openRange
  | other
deriving DecidableEq, Repr

/-- The rules for phrases that occur inside others. -/
structure Rules where
  /-- An expression; the flag allows records, which end where a block could
  begin. -/
  expr : Bool → Parse Expr
  /-- An expression without operators between operands. -/
  unary : Bool → Parse Expr
  /-- The operators behind an operand that bind at least as strongly as
  given. -/
  climb : Expr → Bool → Precedence → Parse Expr
  /-- The calls, fields and indices behind an expression. -/
  trailers : Expr → Parse Expr
  /-- An expression that is over where its block ends. -/
  early : Parse Expr
  /-- A type; the flag allows several bounds. -/
  type : Bool → Parse TypeForm
  /-- A bound; the flags allow a capture list and a constant bound. -/
  bound : Bool → Bool → Parse BoundForm
  /-- The parameters of `for<…>`. -/
  binder : Parse Unit
  /-- A pattern without alternatives. -/
  pattern : Parse PatternForm
  /-- The statements of a block. -/
  stmts : Parse (List Stmt)
  /-- A declaration. -/
  item : Parse Item
  /-- What follows `use`; the flag allows `::` inside braces. -/
  useTree : Bool → Parse Unit
  /-- Fields with names, in braces. -/
  namedFields : Parse Unit

/-- The rules that follow no phrase at all. -/
def Rules.none : Rules where
  expr _ := Parse.fail .tooDeep
  unary _ := Parse.fail .tooDeep
  climb _ _ _ := Parse.fail .tooDeep
  trailers _ := Parse.fail .tooDeep
  early := Parse.fail .tooDeep
  type _ := Parse.fail .tooDeep
  bound _ _ := Parse.fail .tooDeep
  binder := Parse.fail .tooDeep
  pattern := Parse.fail .tooDeep
  stmts := Parse.fail .tooDeep
  item := Parse.fail .tooDeep
  useTree _ := Parse.fail .tooDeep
  namedFields := Parse.fail .tooDeep

end Grammar

end ProcessCompiler
