import ProcessCompiler.Grammar.Generics
import ProcessCompiler.Grammar.Pattern
import ProcessCompiler.Grammar.Scan
/-!
# Expressions

An expression is an operand with operators behind it, read by precedence. An
operand is an atom with calls, fields and indices behind it. A record may
not stand where a block is due, as in the condition of a branch, so most
rules carry a flag that says whether records are allowed.
-/

namespace ProcessCompiler

namespace Grammar

open Parse

variable (R : Rules)

/-! ### Operators -/

/-- The operators between two operands, the longer spellings first. -/
def binaryOps : List (Symbol × BinaryOp) :=
  [(.plusEq, .addAssign), (.minusEq, .subAssign), (.starEq, .mulAssign), (.slashEq, .divAssign),
   (.percentEq, .remAssign), (.caretEq, .bitXorAssign), (.ampEq, .bitAndAssign),
   (.barEq, .bitOrAssign), (.shlEq, .shlAssign), (.shrEq, .shrAssign), (.amp2, .and), (.bar2, .or),
   (.shl, .shl), (.shr, .shr), (.eq2, .eq), (.le, .le), (.ne, .ne), (.ge, .ge), (.plus, .add),
   (.minus, .sub), (.star, .mul), (.slash, .div), (.percent, .rem), (.caret, .bitXor),
   (.amp, .bitAnd), (.bar, .bitOr), (.lt, .lt), (.gt, .gt)]

/-- The operator between two operands at the start of a token list. -/
def binaryOp? (ts : List Token) : Option (Symbol × BinaryOp) :=
  binaryOps.find? fun (y, _) => isSymbol y ts

/-- An assignment: `=`, but neither `==` nor `=>`. -/
def isAssign (ts : List Token) : Bool := isSymbol .eq ts && !isSymbol .fatArrow ts

/-- How strongly the operator ahead binds; the weakest where there is none. -/
def precedenceAhead (ts : List Token) : Precedence :=
  match binaryOp? ts with
  | some (_, op) => op.precedence
  | none =>
    if isAssign ts then .assign
    else if isSymbol .dot2 ts then .range
    else if isKeyword .as_ ts then .cast
    else .jump

/-- Let operators that bind more strongly than the one before an operand
take it first. -/
def takeOperators (structs : Bool) (before : Precedence) : Nat → Expr → Parse Expr
  | 0, _ => fail .tooDeep
  | n + 1, e => do
    let ts ← tokens
    let next := precedenceAhead ts
    if before.rank < next.rank || (next = before && before = .assign) then
      let e' ← R.climb e structs next
      if (← tokens).length < ts.length then takeOperators structs before n e' else return e'
    else return e

/-- The operand on the right of an operator. -/
def rightOperand (structs : Bool) (before : Precedence) : Parse Expr := do
  let e ← R.unary structs
  takeOperators R structs before ((← tokens).length + 1) e

/-- A range without an end may stand before these tokens. -/
def endsOpenRange (structs : Bool) (ts : List Token) : Bool :=
  ts.isEmpty || isSymbol .comma ts || isSymbol .semi ts || isLoneDot ts ||
    isSymbol .question ts || isSymbol .fatArrow ts || (!structs && isGroup .brace ts) ||
    isSymbol .eq ts || isSymbol .plus ts || isSymbol .slash ts || isSymbol .percent ts ||
    isSymbol .caret ts || isSymbol .gt ts || isSymbol .le ts || isSymbol .ne ts ||
    isSymbol .minusEq ts || isSymbol .starEq ts || isSymbol .ampEq ts || isSymbol .barEq ts ||
    isSymbol .shlEq ts || isKeyword .as_ ts

/-- A range from its dots on. -/
def rangeFrom (structs : Bool) (start : Option Expr) : Parse Expr := do
  let closed ← rangeDots false
  if !closed && endsOpenRange structs (← tokens) then return .range start closed none
  else return .range start closed (some (← rightOperand R structs .range))

/-- What may not follow a cast, if it is ahead. -/
def castFollower? (ts : List Token) : Option CastFollower :=
  let two := ts.drop 1
  let three := ts.drop 2
  if isLoneDot ts then
    if isKeyword .await_ two then some .await
    else if isIdent two && (isGroup .paren three || isSymbol .colon2 three) then some .methodCall
    else some .fieldAccess
  else if isSymbol .question ts then some .propagation
  else if isGroup .bracket ts then some .indexing
  else if isGroup .paren ts then some .call
  else none

/-- A cast from its `as` on. -/
def castFrom (e : Expr) : Parse Expr := do
  keyword .as_
  let type ← span (R.type false)
  match castFollower? (← tokens) with
  | some what => failHere (.castFollowedBy what)
  | none => return .cast e type

/-- The operators behind an operand that bind at least as strongly as
`base`. A range takes no operator behind it. -/
def climbRule (lhs : Expr) (structs : Bool) (base : Precedence) : Parse Expr := do
  if lhs.isRange then return lhs
  let ts ← tokens
  match binaryOp? ts with
  | some (y, op) =>
    if op.precedence.rank < base.rank then return lhs
    else if op.precedence = .compare && lhs.isComparison then failHere .chainedComparison
    else
      symbol y
      let right ← rightOperand R structs op.precedence
      R.climb (.binary op lhs right) structs base
  | none =>
    if base.rank ≤ Precedence.assign.rank && isAssign ts then
      symbol .eq
      let right ← rightOperand R structs .assign
      R.climb (.assign lhs right) structs base
    else if base.rank ≤ Precedence.range.rank && isSymbol .dot2 ts then
      let e ← rangeFrom R structs (some lhs)
      R.climb e structs base
    else if base.rank ≤ Precedence.cast.rank && isKeyword .as_ ts then
      let e ← castFrom R lhs
      R.climb e structs base
    else return lhs

/-- An expression. -/
def exprRule (structs : Bool) : Parse Expr := do
  let lhs ← R.unary structs
  R.climb lhs structs .jump

/-! ### Calls, fields and indices -/

/-- The list begins with a decimal, which may have a sign. -/
def decimalText? : List Token → Option (Bool × List Char)
  | .leaf (.literal ⟨.number, text⟩) :: _ => decimal? false text
  | .leaf (.punct '-' _) :: .leaf (.literal ⟨.number, text⟩) :: _ => decimal? true text
  | _ => none
where
  decimal? (negative : Bool) (text : List Char) : Option (Bool × List Char) :=
    match Number.ofText text with
    | .integer .. => none
    | .decimal => some (negative, text)

/-- The positions that a decimal spells when it stands behind a dot. -/
def positionsOf (negative : Bool) : List (List Char) → Parse (List Nat)
  | [] => return []
  | part :: rest => do
    if (Scan.literal part).isNone then fail .unreadable
    let index ← memberIndex negative part
    return index :: (← positionsOf false rest)

/-- The parts of a text between its dots. -/
def splitDots (text : List Char) : List (List Char) :=
  match text with
  | [] => [[]]
  | '.' :: rest => [] :: splitDots rest
  | c :: rest =>
    match splitDots rest with
    | part :: parts => (c :: part) :: parts
    | [] => [[c]]

/-- The fields at the positions of a decimal, and whether a last dot is
still to be followed by a member. -/
def decimalFields (e : Expr) (negative : Bool) (text : List Char) : Parse (Expr × Bool) := do
  let open_ := text.getLast? = some '.'
  let parts := splitDots (if open_ then text.dropLast else text)
  let positions ← positionsOf negative parts
  return (positions.foldl (fun e i => .field e (.position i)) e, open_)

/-- The member behind a dot: a field, a call or a wait. -/
def memberFrom (e : Expr) : Parse Expr := do
  if ← keyword? .await_ then return .await e
  let m ← member
  match m with
  | .position _ => return .field e m
  | .named name =>
    let generics ← if isSymbol .colon2 (← tokens) then
        some <$> span (do
          symbol .colon2
          angleArguments R)
      else pure none
    if generics.isSome || isGroup .paren (← tokens) then
      let arguments ← within .paren (commas (R.expr true))
      return .methodCall e name generics arguments
    else return .field e m

/-- What a dot leads to. -/
def dotFrom (e : Expr) : Parse Expr := do
  symbol .dot
  match decimalText? (← tokens) with
  | some (negative, text) =>
    literal
    let (e, open_) ← decimalFields e negative text
    if open_ then memberFrom R e else return e
  | none => memberFrom R e

/-- The calls, fields and indices behind an expression. -/
def trailersRule (e : Expr) : Parse Expr := do
  let ts ← tokens
  if isGroup .paren ts then
    let arguments ← within .paren (commas (R.expr true))
    R.trailers (.call e arguments)
  else if isLoneDot ts && !e.isRange then
    let e ← dotFrom R e
    R.trailers e
  else if isGroup .bracket ts && !e.isRange then
    let position ← within .bracket (R.expr true)
    R.trailers (.index e position)
  else if isSymbol .question ts && !e.isRange then
    symbol .question
    R.trailers (.propagate e)
  else return e

/-! ### Atoms -/

/-- An expression may begin here. -/
def startsExpr (ts : List Token) : Bool :=
  (isAnyWord ts && !isKeyword .as_ ts) || isAnyGroup ts || isLiteral ts ||
    (isSymbol .bang ts && !isSymbol .ne ts) ||
    (isSymbol .minus ts && !isSymbol .minusEq ts && !isSymbol .arrow ts) ||
    (isSymbol .star ts && !isSymbol .starEq ts) || (isSymbol .bar ts && !isSymbol .barEq ts) ||
    (isSymbol .amp ts && !isSymbol .ampEq ts) || isSymbol .dot2 ts ||
    (isSymbol .lt ts && !isSymbol .le ts && !isSymbol .shlEq ts) || isSymbol .colon2 ts ||
    isLifetime ts || isSymbol .hash ts

/-- A literal as an expression. -/
def literalExpr : Parse Expr := do
  match ← tokens with
  | .leaf (.literal l) :: _ =>
    skip 1
    return .literal l
  | ts =>
    skip 1
    return .bool (isKeyword .true_ ts)

/-- A block with a word before it. -/
def wordedBlock (k : Keyword) (kind : BlockKind) : Parse Expr := do
  keyword k
  return .block kind none (← bracedBody R)

/-- A parameter of a closure. -/
def closureParam : Parse Unit := do
  discard (outerAttributes R)
  discard R.pattern
  if ← symbol? .colon then discard (R.type true)

/-- A closure up to the bar behind its parameters. -/
def closureHead : Parse Unit := do
  discard (binder? R)
  discard (keyword? .const_)
  discard (keyword? .static_)
  discard (keyword? .async_)
  discard (keyword? .move_)
  symbol .bar
  discard (separated (isSymbol .bar) (symbol .comma) (closureParam R))
  symbol .bar

/-- A closure. Where it names the type it returns, its body is a block. -/
def closure (structs : Bool) : Parse Expr := do
  let head ← span (closureHead R)
  if isSymbol .arrow (← tokens) then
    let returns ← span do
      symbol .arrow
      discard (R.type true)
    return .closure (head ++ returns) (.block .plain none (← plainBody R))
  else return .closure head (← R.expr structs)

/-- A closure begins here. -/
def startsClosure (ts : List Token) : Bool :=
  let two := ts.drop 1
  isSymbol .bar ts || isKeyword .move_ ts || (isKeyword .for_ ts && isSymbol .lt two) ||
    (isKeyword .const_ ts && !isGroup .brace two) || isKeyword .static_ ts ||
    (isKeyword .async_ ts && (isSymbol .bar two || isKeyword .move_ two))

/-- A field of a record with its value. -/
def fieldInit : Parse FieldInit := do
  discard (outerAttributes R)
  match ← member with
  | .named name =>
    if ← symbol? .colon then return .mk (.named name) (some (← R.expr true))
    else return .mk (.named name) none
  | .position index =>
    symbol .colon
    return .mk (.position index) (some (← R.expr true))

/-- The fields of a record, and what stands behind `..`. -/
def fieldInits : Nat → Parse (List FieldInit × RecordRest)
  | 0 => fail .tooDeep
  | n + 1 => do
    if (← tokens).isEmpty then return ([], .absent)
    if ← symbol? .dot2 then
      if (← tokens).isEmpty then return ([], .bare)
      else return ([], .base (← R.expr true))
    let f ← fieldInit R
    if (← tokens).isEmpty then return ([f], .absent)
    symbol .comma
    let (fields, rest) ← fieldInits n
    return (f :: fields, rest)

/-- An expression that begins with a path. -/
def pathExpr (structs : Bool) : Parse Expr := do
  let p ← path R true
  let ts ← tokens
  if p.qualifier.isNone && startsBang ts && p.isPlain then return .macroCall (← macroTail p)
  else if structs && isGroup .brace ts then
    let (fields, rest) ← within .brace do
      fieldInits R ((← tokens).length + 1)
    return .record p fields rest
  else return .path p

/-- The elements behind the first one, each after a comma. -/
def moreElements : Nat → Parse (List Expr)
  | 0 => fail .tooDeep
  | n + 1 => do
    if (← tokens).isEmpty then return []
    symbol .comma
    if (← tokens).isEmpty then return []
    let e ← R.expr true
    return e :: (← moreElements n)

/-- An expression in parentheses, or a tuple. -/
def parenExpr : Parse Expr :=
  within .paren do
    if (← tokens).isEmpty then return .tuple []
    let first ← R.expr true
    let ts ← tokens
    if ts.isEmpty then return .paren first
    else return .tuple (first :: (← moreElements R (ts.length + 1)))

/-- A list of elements, or one element and a count. -/
def arrayExpr : Parse Expr :=
  within .bracket do
    if (← tokens).isEmpty then return .array []
    let first ← R.expr true
    let ts ← tokens
    if ts.isEmpty || isSymbol .comma ts then
      return .array (first :: (← moreElements R (ts.length + 1)))
    else if isSymbol .semi ts then
      symbol .semi
      return .repeated first (← R.expr true)
    else expect [.symbol .comma, .symbol .semi]

/-- A jump's value, if one is there. -/
def jumpValue? : Parse (Option Expr) := do
  if startsExpr (← tokens) then some <$> R.expr true else return none

/-- A `break`, with its label and value. -/
def breakExpr (structs : Bool) : Parse Expr := do
  keyword .break_
  let ts ← tokens
  if isLifetime ts && isSymbol .colon (ts.drop 1) then
    discard (R.expr true)
    fail .labelledBreak
  else
    let label ← lifetime?
    let ts ← tokens
    let value ← if structs || !isGroup .brace ts then jumpValue? R else pure none
    return .jump .break_ label value

/-- A test of a value against a pattern. Its value stops before the
operators that join conditions. -/
def lettingExpr (structs : Bool) : Parse Expr := do
  keyword .let_
  let pattern ← span (alternatives R)
  symbol .eq
  let lhs ← R.unary structs
  return .letting pattern (← R.climb lhs structs .compare)

/-- A branch, with the branches behind its `else`. -/
def branchIn : Nat → Parse Expr
  | 0 => fail .tooDeep
  | n + 1 => do
    keyword .if_
    let condition ← R.expr false
    let body ← plainBody R
    if ← keyword? .else_ then
      let ts ← tokens
      if isKeyword .if_ ts then return .branch condition body (some (← branchIn n))
      else if isGroup .brace ts then
        return .branch condition body (some (.block .plain none (← plainBody R)))
      else expect [.keyword .if_, .delimiter .brace]
    else return .branch condition body none

/-- A branch. -/
def branchExpr : Parse Expr := do
  branchIn R ((← tokens).length + 1)

/-- A loop while a condition holds. -/
def whileExpr (label : Option String) : Parse Expr := do
  keyword .while_
  let condition ← R.expr false
  return .whileLoop label condition (← bracedBody R)

/-- A loop over the elements of a value. -/
def forExpr (label : Option String) : Parse Expr := do
  keyword .for_
  let pattern ← span (alternatives R)
  keyword .in_
  let source ← R.expr false
  return .forLoop label pattern source (← bracedBody R)

/-- A loop without a condition. -/
def loopExpr (label : Option String) : Parse Expr := do
  keyword .loop_
  return .loop label (← bracedBody R)

/-- The guard behind a pattern's `if`, if there is one. -/
def guard? : Parse (Option Expr) := do
  if ← keyword? .if_ then some <$> R.expr true else return none

/-- One case of a selection. A comma divides it from the next, unless its
body ends with a block. -/
def arm : Parse Arm := do
  discard (outerAttributes R)
  let pattern ← span (alternatives R)
  let guard ← guard? R
  symbol .fatArrow
  let body ← R.early
  if !body.isBlockLike && !(← tokens).isEmpty then symbol .comma
  else discard (symbol? .comma)
  return .mk pattern guard body

/-- A selection by patterns. -/
def selectExpr : Parse Expr := do
  keyword .match_
  let scrutinee ← R.expr false
  let arms ← within .brace do
    innerAttributes R
    repeatAll (arm R)
  return .select scrutinee arms

/-- A loop or block behind its label. -/
def labelledExpr : Parse Expr := do
  let label ← lifetime
  symbol .colon
  let ts ← tokens
  if isKeyword .while_ ts then whileExpr R (some label)
  else if isKeyword .for_ ts then forExpr R (some label)
  else if isKeyword .loop_ ts then loopExpr R (some label)
  else if isGroup .brace ts then return .block .plain (some label) (← bracedBody R)
  else expect [.loopOrBlock]

/-- A block that is run later. -/
def asyncExpr : Parse Expr := do
  keyword .async_
  let owning ← keyword? .move_
  return .block (.async_ owning) none (← plainBody R)

/-- A block whose failures stay inside it. -/
def tryExpr : Parse Expr := do
  keyword .try_
  return .block .try_ none (← plainBody R)

/-- The expressions that are kept as tokens: a call that replaces the
current one, and a form built into the language. -/
def becomeExpr : Parse Expr := .verbatim <$> span do
  keyword .become_
  R.expr true

/-- A form built into the language, as its tokens. -/
def builtinExpr : Parse Expr := .verbatim <$> span do
  skip 1
  symbol .hash
  discard ident
  if isGroup .paren (← tokens) then skip 1 else expect [.delimiter .paren]

/-- An expression that begins with a path begins here. -/
def startsPathExpr (ts : List Token) : Bool :=
  isPathWord ts || isSymbol .colon2 ts || isSymbol .lt ts ||
    (isKeyword .try_ ts && (isSymbol .bang (ts.drop 1) || isSymbol .colon2 (ts.drop 1)))

/-- An expression without operators, calls, fields or indices. -/
def atom (structs : Bool) : Parse Expr := do
  let ts ← tokens
  let two := ts.drop 1
  let three := ts.drop 2
  if isLiteral ts then literalExpr
  else if isKeyword .async_ ts &&
      (isGroup .brace two || (isKeyword .move_ two && isGroup .brace three)) then asyncExpr R
  else if isKeyword .try_ ts && isGroup .brace two then tryExpr R
  else if startsClosure ts then closure R structs
  else if isWord "builtin" ts && isSymbol .hash two then builtinExpr
  else if startsPathExpr ts then pathExpr R structs
  else if isGroup .paren ts then parenExpr R
  else if isKeyword .break_ ts then breakExpr R structs
  else if isKeyword .continue_ ts then
    keyword .continue_
    return .jump .continue_ (← lifetime?) none
  else if isKeyword .return_ ts then
    keyword .return_
    return .jump .return_ none (← jumpValue? R)
  else if isKeyword .become_ ts then becomeExpr R
  else if isGroup .bracket ts then arrayExpr R
  else if isKeyword .let_ ts then lettingExpr R structs
  else if isKeyword .if_ ts then branchExpr R
  else if isKeyword .while_ ts then whileExpr R none
  else if isKeyword .for_ ts then forExpr R none
  else if isKeyword .loop_ ts then loopExpr R none
  else if isKeyword .match_ ts then selectExpr R
  else if isKeyword .yield_ ts then
    keyword .yield_
    return .jump .yield_ none (← jumpValue? R)
  else if isKeyword .unsafe_ ts then wordedBlock R .unsafe_ .unsafe_
  else if isKeyword .const_ ts then wordedBlock R .const_ .const_
  else if isGroup .brace ts then return .block .plain none (← bracedBody R)
  else if isSymbol .dot2 ts then rangeFrom R structs none
  else if isKeyword .underscore ts then
    skip 1
    return .underscore
  else if isLifetime ts then labelledExpr R
  else expect [.expression]

/-- An expression with the attributes before it, if there are any. -/
def withAttributes (attributes : List Token) (e : Expr) : Expr :=
  if attributes.isEmpty then e else .attributed attributes e

/-- The address of an operand. -/
def borrowExpr (structs : Bool) : Parse Expr := do
  symbol .amp
  let ts ← tokens
  let two := ts.drop 1
  if isWord "raw" ts && isKeywordOf [.mut_, .const_] two then
    skip 2
    let kind := if isKeyword .mut_ two then Borrow.rawMutable else .rawConst
    return .borrow kind (← R.unary structs)
  else
    let mutable ← keyword? .mut_
    return .borrow (if mutable then .mutable else .shared) (← R.unary structs)

/-- An operand, with the operators before it and the calls, fields and
indices behind it. -/
def unaryRule (structs : Bool) : Parse Expr := do
  let attributes ← outerAttributes R
  let ts ← tokens
  if isSymbol .amp ts then return withAttributes attributes (← borrowExpr R structs)
  else if isSymbol .star ts then
    symbol .star
    return withAttributes attributes (.unary .dereference (← R.unary structs))
  else if isSymbol .bang ts then
    symbol .bang
    return withAttributes attributes (.unary .invert (← R.unary structs))
  else if isSymbol .minus ts then
    symbol .minus
    return withAttributes attributes (.unary .negate (← R.unary structs))
  else
    let e ← atom R structs
    let e ← R.trailers e
    if !attributes.isEmpty && e.isRange then fail .attributedRange
    else return withAttributes attributes e

/-- The expressions that may end a statement or a case with their block. -/
def earlyAtom : Parse Expr := do
  let ts ← tokens
  let two := ts.drop 1
  if isKeyword .if_ ts then branchExpr R
  else if isKeyword .while_ ts then whileExpr R none
  else if isKeyword .for_ ts && !isSymbol .lt two then forExpr R none
  else if isKeyword .loop_ ts then loopExpr R none
  else if isKeyword .match_ ts then selectExpr R
  else if isKeyword .try_ ts && isGroup .brace two then tryExpr R
  else if isKeyword .unsafe_ ts then wordedBlock R .unsafe_ .unsafe_
  else if isKeyword .const_ ts && isGroup .brace two then wordedBlock R .const_ .const_
  else if isGroup .brace ts then return .block .plain none (← bracedBody R)
  else if isLifetime ts then labelledExpr R
  else R.unary true

/-- An expression that is over where its block ends, unless `.` or `?`
follows. -/
def earlyRule : Parse Expr := do
  let attributes ← outerAttributes R
  let e ← earlyAtom R
  let ts ← tokens
  if !e.isBlockLike then R.climb (withAttributes attributes e) true .jump
  else if isLoneDot ts || isSymbol .question ts then
    let e ← R.trailers e
    R.climb (withAttributes attributes e) true .jump
  else return withAttributes attributes e

end Grammar

end ProcessCompiler
