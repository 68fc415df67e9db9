import ProcessCompiler.Grammar.Type
/-!
# Generic parameters

The parameters in angle brackets behind a declared name, the conditions
behind `where`, and the parameters of `for<…>`.
-/

namespace ProcessCompiler

namespace Grammar

open Parse

variable (R : Rules)

/-- Lifetimes joined by `+` behind a lifetime's `:`. -/
def lifetimeBounds (stop : List Token → Bool) : Parse Unit :=
  discard (linked stop .plus lifetime)

/-- A parameter for a lifetime. -/
def lifetimeParam : Parse Unit := do
  discard (outerAttributes R)
  discard lifetime
  if ← symbol? .colon then
    lifetimeBounds fun ts => ts.isEmpty || isSymbol .comma ts || isSymbol .gt ts

/-- A parameter for a type. -/
def typeParam : Parse Unit := do
  discard (outerAttributes R)
  discard ident
  if ← symbol? .colon then
    let stop ts := isSymbol .comma ts || isSymbol .gt ts || isSymbol .eq ts
    discard (linked stop .plus (R.bound false true))
  if ← symbol? .eq then discard (R.type true)

/-- A parameter for a constant. -/
def constParam : Parse Unit := do
  discard (outerAttributes R)
  keyword .const_
  discard ident
  symbol .colon
  discard (R.type true)
  if ← symbol? .eq then constValue R

/-- A parameter among those of `for<…>`. -/
def binderParam : Parse Unit := do
  discard (outerAttributes R)
  let ts ← tokens
  if isIdent ts then typeParam R
  else if isLifetime ts then lifetimeParam R
  else if isKeyword .const_ ts then constParam R
  else expect [.identifier, .lifetime, .keyword .const_]

/-- The parameters of `for<…>`. -/
def binderRule : Parse Unit := do
  keyword .for_
  symbol .lt
  discard (separated (isSymbol .gt) (symbol .comma) (binderParam R))
  symbol .gt

/-- A parameter behind a declared name. -/
def genericParam : Parse Unit := do
  discard (outerAttributes R)
  let ts ← tokens
  if isLifetime ts then lifetimeParam R
  else if isIdent ts then typeParam R
  else if isKeyword .const_ ts then constParam R
  else if isKeyword .underscore ts then skip 1
  else expect [.lifetime, .identifier, .keyword .const_]

/-- The parameters behind a declared name, if there are any. -/
def generics : Parse Unit := do
  if ← symbol? .lt then
    discard (separated (isSymbol .gt) (symbol .comma) (genericParam R))
    symbol .gt

/-- A `<` that begins parameters rather than a qualified path. -/
def startsGenerics (ts : List Token) : Bool :=
  let two := ts.drop 1
  let three := ts.drop 2
  isSymbol .lt ts &&
    (isSymbol .gt two || isSymbol .hash two ||
      ((isLifetime two || isIdent two) &&
        (isSymbol .gt three || isSymbol .comma three || isLoneColon three || isSymbol .eq three)) ||
      isKeyword .const_ two)

/-- A condition behind `where`. -/
def wherePredicate : Parse Unit := do
  let ts ← tokens
  if isLifetime ts && isSymbol .colon (ts.drop 1) then
    discard lifetime
    symbol .colon
    lifetimeBounds fun ts => ts.isEmpty || isGroup .brace ts || isSymbol .comma ts ||
      isSymbol .semi ts || isSymbol .colon ts || isSymbol .eq ts
  else
    discard (binder? R)
    discard (R.type true)
    symbol .colon
    discard (linked endsClause .plus (R.bound false true))
where
  /-- The clause, or one condition of it, ends here. -/
  endsClause (ts : List Token) : Bool :=
    ts.isEmpty || isGroup .brace ts || isSymbol .comma ts || isSymbol .semi ts ||
      isLoneColon ts || isSymbol .eq ts

/-- The conditions behind `where`, if they are there. -/
def whereClause? : Parse Unit := do
  if ← keyword? .where_ then
    if startsGenerics (← tokens) then failHere .whereGenerics
    discard (linked wherePredicate.endsClause .comma (wherePredicate R))

end Grammar

end ProcessCompiler
