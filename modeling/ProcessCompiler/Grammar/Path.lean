import ProcessCompiler.Grammar.Attributes
/-!
# Paths and generic arguments

Names joined by `::`. In a type a name may be followed by generic arguments
at once; in an expression only behind a further `::`, since `<` is an
operator there.
-/

namespace ProcessCompiler

namespace Grammar

open Parse

variable (R : Rules)

/-- A constant among generic arguments: a literal, a name or a block. -/
def constValue : Parse Unit := do
  let ts ← tokens
  if isLiteral ts then literal
  else if isIdent ts then skip 1
  else if isGroup .brace ts then discard (bracedBody R)
  else if ts.isEmpty then fail .ended
  else fail (.leftover none)

/-- The bounds behind a generic argument's `:`. -/
def constraintBounds : Parse Unit := do
  let stop ts := isSymbol .comma ts || isSymbol .gt ts
  discard (linked stop .plus (R.bound false true))

/-- One generic argument. -/
def genericArgument : Parse Unit := do
  let ts ← tokens
  if isLifetime ts && !isSymbol .plus (ts.drop 1) then discard lifetime
  else if isLiteral ts || isGroup .brace ts then constValue R
  else
    match ← R.type true with
    | .path true =>
      if ← symbol? .eq then
        let ts ← tokens
        if isLiteral ts || isGroup .brace ts then constValue R else discard (R.type true)
      else if ← symbol? .colon then constraintBounds R
      else return ()
    | _ => return ()

/-- Generic arguments in angle brackets. -/
def angleArguments : Parse Unit := do
  symbol .lt
  discard (separated (isSymbol .gt) (symbol .comma) (genericArgument R))
  symbol .gt

/-- The type behind `->`, if there is one. -/
def returnType (plus : Bool) : Parse Unit := do
  if ← symbol? .arrow then discard (R.type plus)

/-- Generic arguments in parentheses, with the type they return. -/
def parenArguments : Parse Unit := do
  discard (within .paren (commas (R.type true)))
  returnType R false

/-- Generic arguments in angle brackets begin here. In an expression they
need `::` before them. -/
def startsAngle (inExpr : Bool) (ts : List Token) : Bool :=
  (!inExpr && isSymbol .lt ts && !isSymbol .le ts && !isSymbol .shlEq ts) ||
    (isSymbol .colon2 ts && isSymbol .lt (ts.drop 2))

/-- Generic arguments in parentheses begin here. -/
def startsParen (ts : List Token) : Bool :=
  isGroup .paren ts || (isSymbol .colon2 ts && isGroup .paren (ts.drop 2))

/-- One segment of a path. -/
def segment (inExpr : Bool) : Parse Segment := do
  let ts ← tokens
  if isKeywordOf [.super_, .self_, .crate_, .try_] ts then
    return ⟨← anyWord, .absent⟩
  else
    let name ← if isKeyword .upperSelf ts then anyWord else ident
    if startsAngle inExpr (← tokens) then
      let arguments ← span do
        discard (symbol? .colon2)
        angleArguments R
      return ⟨name, .angle arguments⟩
    else return ⟨name, .absent⟩

/-- The segments behind the first one. -/
def moreSegments (inExpr : Bool) : Nat → Parse (List Segment)
  | 0 => fail .tooDeep
  | n + 1 => do
    let ts ← tokens
    if isSymbol .colon2 ts && !isGroup .paren (ts.drop 2) then
      symbol .colon2
      let s ← segment R inExpr
      return s :: (← moreSegments inExpr n)
    else return []

/-- The segments that may still follow a path. -/
def restOfPath (inExpr : Bool) : Parse (List Segment) := do
  moreSegments R inExpr ((← tokens).length + 1)

/-- A path without a qualifier. -/
def unqualifiedPath (inExpr : Bool) : Parse Path := do
  let rooted ← symbol? .colon2
  let first ← segment R inExpr
  let rest ← restOfPath R inExpr
  return ⟨none, rooted, first :: rest⟩

/-- What stands between the angle brackets of a qualified path. -/
def qualifier : Parse Unit := do
  discard (R.type true)
  if ← keyword? .as_ then discard (unqualifiedPath R false)

/-- The segments behind a qualifier, each after `::`. -/
def qualifiedSegments (inExpr : Bool) : Nat → Parse (List Segment)
  | 0 => fail .tooDeep
  | n + 1 => do
    let s ← segment R inExpr
    if ← symbol? .colon2 then return s :: (← qualifiedSegments inExpr n)
    else return [s]

/-- A path, which may have a qualifier. -/
def path (inExpr : Bool) : Parse Path := do
  if isSymbol .lt (← tokens) then
    symbol .lt
    let q ← span (qualifier R)
    symbol .gt
    symbol .colon2
    let segments ← qualifiedSegments R inExpr ((← tokens).length + 1)
    return ⟨some q, false, segments⟩
  else unqualifiedPath R inExpr

/-- A macro call behind its path begins here: `!`, but not `!=`. -/
def startsBang (ts : List Token) : Bool := isSymbol .bang ts && !isSymbol .ne ts

/-- The call of the macro at a path, from its `!` on. -/
def macroTail (p : Path) : Parse MacroCall := do
  symbol .bang
  let (d, arguments) ← anyGroup
  return ⟨p, d, arguments⟩

end Grammar

end ProcessCompiler
