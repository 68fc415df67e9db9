import ProcessCompiler.Grammar.Type
import ProcessCompiler.Grammar.Scan.Number
/-!
# Patterns

Patterns are recognised and not kept. The answer tells the rest pattern
`..` and the ranges with an open end from all others.
-/

namespace ProcessCompiler

namespace Grammar

open Parse

variable (R : Rules)

/-- A `|` between alternatives: neither `||` nor `|=`. -/
def isLoneBar (ts : List Token) : Bool :=
  isSymbol .bar ts && !isSymbol .bar2 ts && !isSymbol .barEq ts

/-- The alternatives behind a first pattern. -/
def moreAlternatives : Nat → Parse Unit
  | 0 => fail .tooDeep
  | n + 1 => do
    if isLoneBar (← tokens) then
      symbol .bar
      discard R.pattern
      moreAlternatives n
    else return ()

/-- A pattern with alternatives, the first of which may have a `|` before
it. -/
def alternatives : Parse PatternForm := do
  let leading ← symbol? .bar
  let first ← R.pattern
  let ts ← tokens
  if leading || isLoneBar ts then
    moreAlternatives R (ts.length + 1)
    return .other
  else return first

/-- The position that a number's text spells, behind the given sign. -/
def memberIndex (negative : Bool) (text : List Char) : Parse Nat :=
  match Number.ofText text with
  | .integer value [] =>
    if negative then fail .invalidDigit
    else if value < Nat.pow 2 32 then return value
    else fail .tooLarge
  | .integer _ _ => fail (.expected [.unsuffixedInteger])
  | .decimal => fail (.expected [.integerLiteral])

/-- The list begins with an integer, which may have a sign. -/
def integerText? : List Token → Option (Bool × List Char)
  | .leaf (.literal ⟨.number, text⟩) :: _ => integer? false text
  | .leaf (.punct '-' _) :: .leaf (.literal ⟨.number, text⟩) :: _ => integer? true text
  | _ => none
where
  integer? (negative : Bool) (text : List Char) : Option (Bool × List Char) :=
    match Number.ofText text with
    | .integer .. => some (negative, text)
    | .decimal => none

/-- The name or position of a field. -/
def member : Parse Member := do
  let ts ← tokens
  if isIdent ts then return .named (← ident)
  else
    match integerText? ts with
    | some (negative, text) =>
      let index ← memberIndex negative text
      literal
      return .position index
    | none => expect [.member]

/-- A field of a record pattern. -/
def fieldPattern : Parse Unit := do
  let boxed ← keyword? .box_
  let byRef ← keyword? .ref_
  let mutable ← keyword? .mut_
  if boxed || byRef || mutable then discard ident
  else
    match ← member with
    | .named _ =>
      if ← symbol? .colon then discard (alternatives R)
    | .position _ =>
      symbol .colon
      discard (alternatives R)

/-- The fields of a record pattern. What stands behind `..` is left over. -/
def fieldPatterns : Nat → Parse Unit
  | 0 => fail .tooDeep
  | n + 1 => do
    if (← tokens).isEmpty then return ()
    discard (outerAttributes R)
    if ← symbol? .dot2 then return ()
    fieldPattern R
    if (← tokens).isEmpty then return ()
    symbol .comma
    fieldPatterns n

/-- Patterns with commas in between. -/
def patterns : Parse Unit := discard (commas (alternatives R))

/-- A range's end is left open before these tokens. -/
def endsRange (ts : List Token) : Bool :=
  ts.isEmpty || isSymbol .bar ts || isSymbol .eq ts || isLoneColon ts || isSymbol .comma ts ||
    isSymbol .semi ts || isKeyword .if_ ts

/-- The end of a range, if it is there. -/
def rangeBound? : Parse Bool := do
  let ts ← tokens
  if endsRange ts then return false
  else if isLiteral ts then
    literal
    return true
  else if isPathWord ts || isSymbol .colon2 ts || isSymbol .lt ts then
    discard (path R true)
    return true
  else if isKeyword .const_ ts then
    keyword .const_
    discard (bracedBody R)
    return true
  else
    expect [.literal, .identifier, .symbol .colon2, .symbol .lt, .keyword .self_,
      .keyword .upperSelf, .keyword .super_, .keyword .crate_, .keyword .const_]

/-- The dots of a range; gives whether the end belongs to it. `...` is an
old spelling that patterns still know. -/
def rangeDots (old : Bool) : Parse Bool := do
  let ts ← tokens
  if isSymbol .dot2Eq ts then
    symbol .dot2Eq
    return true
  else if isSymbol .dot3 ts then
    if old then
      symbol .dot3
      return true
    else expect [.symbol .dot2Eq]
  else
    symbol .dot2
    return false

/-- A range behind its start. -/
def rangeTail : Parse PatternForm := do
  let closed ← rangeDots true
  let ended ← rangeBound? R
  if closed && !ended then expect [.upperBound]
  return if ended then .other else .openRange

/-- A pattern that begins with a path. -/
def pathPattern : Parse PatternForm := do
  let p ← path R true
  let ts ← tokens
  if p.qualifier.isNone && startsBang ts && p.isPlain then
    discard (macroTail p)
    return .other
  else if isGroup .brace ts then
    within .brace do
      fieldPatterns R ((← tokens).length + 1)
    return .other
  else if isGroup .paren ts then
    within .paren (patterns R)
    return .other
  else if isSymbol .dot2 ts then rangeTail R
  else return .other

/-- A name that is bound, with the pattern behind its `@`. -/
def namePattern : Parse PatternForm := do
  discard (keyword? .ref_)
  discard (keyword? .mut_)
  if isKeyword .self_ (← tokens) then skip 1 else discard ident
  if ← symbol? .atSign then discard R.pattern
  return .other

/-- A literal, or a range that begins with a literal or a block. -/
def literalPattern : Parse PatternForm := do
  discard (rangeBound? R)
  if isSymbol .dot2 (← tokens) then rangeTail R else return .other

/-- A range without a start, or the rest pattern. -/
def openPattern : Parse PatternForm := do
  let closed ← rangeDots false
  let ended ← rangeBound? R
  if ended then return .openRange
  else if closed then expect [.upperBound]
  else return .rest

/-- Patterns in square brackets, among which a range has both its ends. -/
def slicePattern : Parse PatternForm := do
  discard <| within .bracket <| commas do
    if (← alternatives R) = .openRange then fail .openRangeInSlice
  return .other

/-- The alternatives at the start of a pattern. -/
def patternStarts (range : Bool) : List Expectation :=
  [Expectation.identifier, .symbol .colon2, .symbol .lt, .keyword .underscore, .literal,
   .keyword .const_, .keyword .ref_, .keyword .mut_, .symbol .amp, .delimiter .paren,
   .delimiter .bracket] ++
  (if range then [Expectation.symbol .dot2] else []) ++ [Expectation.keyword .const_]

/-- A pattern that begins with a path begins here. -/
def startsPathPattern (ts : List Token) : Bool :=
  let two := ts.drop 1
  (isIdent ts && (isSymbol .colon2 two || isSymbol .bang two || isGroup .brace two ||
      isGroup .paren two || isSymbol .dot2 two)) ||
    (isKeyword .self_ ts && isSymbol .colon2 two) || isSymbol .colon2 ts || isSymbol .lt ts ||
    isKeywordOf [.upperSelf, .super_, .crate_] ts

/-- A pattern without alternatives. -/
def patternRule : Parse PatternForm := do
  let ts ← tokens
  if startsPathPattern ts then pathPattern R
  else if isKeyword .underscore ts then
    skip 1
    return .other
  else if isKeyword .box_ ts then
    skip 1
    discard R.pattern
    return .other
  else if isSymbol .minus ts || isLiteral ts || isKeyword .const_ ts then literalPattern R
  else if isKeywordOf [.ref_, .mut_, .self_] ts || isIdent ts then namePattern R
  else if isSymbol .amp ts then
    symbol .amp
    discard (keyword? .mut_)
    discard R.pattern
    return .other
  else if isGroup .paren ts then
    within .paren (patterns R)
    return .other
  else if isGroup .bracket ts then slicePattern R
  else if isSymbol .dot2 ts && !isSymbol .dot3 ts then openPattern R
  else expect (patternStarts (!isSymbol .dot2 ts))

end Grammar

end ProcessCompiler
