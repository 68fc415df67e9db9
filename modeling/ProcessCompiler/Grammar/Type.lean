import ProcessCompiler.Grammar.Path
/-!
# Types and bounds

Types are recognised and not kept. The answers say the little that the
grammar has to know of a type or a bound it has read.
-/

namespace ProcessCompiler

namespace Grammar

open Parse

variable (R : Rules)

/-! ### Bounds -/

/-- A list of captured parameters behind `use`. -/
def captureParams : Nat → Parse Unit
  | 0 => fail .tooDeep
  | n + 1 => do
    let ts ← tokens
    if isLifetime ts || isIdent ts || isKeyword .upperSelf ts then
      skip 1
      let ts ← tokens
      if isSymbol .comma ts then
        symbol .comma
        captureParams n
      else if isSymbol .gt ts then return ()
      else expect [.symbol .comma, .symbol .gt]
    else if isSymbol .gt ts then return ()
    else expect [.lifetime, .identifier, .symbol .gt]

/-- A capture list such as `use<'a, T>`. -/
def capture : Parse Unit := do
  keyword .use_
  symbol .lt
  captureParams ((← tokens).length + 1)
  symbol .gt

/-- The parameters of `for<…>`, if they are there. -/
def binder? : Parse Bool := do
  if isKeyword .for_ (← tokens) then
    R.binder
    return true
  else return false

/-- The last segment of a path has no arguments yet. -/
def endsBare (segments : List Segment) : Bool :=
  segments.getLast?.any (·.arguments.isEmpty)

/-- A trait as a bound. -/
def traitBound (constAllowed : Bool) : Parse BoundForm := do
  let bound ← binder? R
  let ts ← tokens
  let conditional := isGroup .bracket ts
  let unconditional := isKeyword .const_ ts
  if conditional then
    within .bracket (keyword .const_)
    if !constAllowed then fail .conditionalConstElsewhere
  else if unconditional then
    keyword .const_
    if !constAllowed then fail .constElsewhere
  let maybe ← symbol? .question
  let late ← if maybe && !bound then binder? R else pure false
  let p ← unqualifiedPath R false
  if endsBare p.segments && startsParen (← tokens) then
    discard (symbol? .colon2)
    parenArguments R
  if (bound || late) && maybe then fail .binderWithMaybe
  return if conditional || unconditional then .constTrait else .trait

/-- One bound of a type. -/
def boundRule (captureAllowed constAllowed : Bool) : Parse BoundForm := do
  let ts ← tokens
  if isLifetime ts then
    discard lifetime
    return .lifetime
  else if isKeyword .use_ ts then
    capture
    if captureAllowed then return .capture else fail .captureElsewhere
  else if isGroup .paren ts then within .paren (traitBound R constAllowed)
  else traitBound R constAllowed

/-- A further bound may begin here. -/
def startsBound (constAllowed : Bool) (ts : List Token) : Bool :=
  isAnyWord ts || isSymbol .colon2 ts || isSymbol .question ts || isLifetime ts ||
    isGroup .paren ts || (constAllowed && isGroup .bracket ts)

/-- Bounds joined by `+`, a `+` without a bound behind it allowed. -/
def boundsIn (plus captureAllowed constAllowed : Bool) : Nat → Parse (List BoundForm)
  | 0 => fail .tooDeep
  | n + 1 => do
    let b ← R.bound captureAllowed constAllowed
    if plus && isSymbol .plus (← tokens) then
      symbol .plus
      if startsBound constAllowed (← tokens) then
        return b :: (← boundsIn plus captureAllowed constAllowed n)
      else return [b]
    else return [b]

/-- At least one bound; several where `plus` allows it. -/
def bounds (plus captureAllowed constAllowed : Bool) : Parse (List BoundForm) := do
  boundsIn R plus captureAllowed constAllowed ((← tokens).length + 1)

/-- The bounds of an object type, one of which has to be a trait. -/
def objectBounds (plus : Bool) : Parse (List BoundForm) := do
  let bs ← bounds R plus false false
  if bs.contains .trait then return bs else fail .objectWithoutTrait

/-! ### Types -/

/-- A path that is one name, with arguments in angle brackets or none. -/
def isSimple (p : Path) : Bool :=
  match p.segments with
  | [_] => !p.rooted
  | _ => false

/-- A type that begins with a name. -/
def pathType (bound plus : Bool) : Parse TypeForm := do
  let p ← path R false
  let ts ← tokens
  if p.qualifier.isSome then return .other
  else if startsBang ts && p.isPlain then
    discard (macroTail p)
    return .other
  else if plus && isSymbol .plus ts then
    symbol .plus
    if startsBound false (← tokens) then discard (bounds R true false false)
    return .bounds false
  else if bound then return .bounds true
  else return .path (isSimple p)

/-- The bounds joined to a first one by `+`. -/
def joinedBounds : Nat → Parse Unit
  | 0 => fail .tooDeep
  | n + 1 => do
    if ← symbol? .plus then
      discard (R.bound false false)
      joinedBounds n
    else return ()

/-- What may follow the parentheses of a type in parentheses. -/
def parenTypeTail (plus : Bool) (first : TypeForm) : Parse TypeForm := do
  let ts ← tokens
  let joins := match first with
    | .path _ => true
    | .bounds single => single
    | _ => false
  if plus && isSymbol .plus ts && joins then
    joinedBounds R (ts.length + 1)
    return .bounds false
  else return .other

/-- What the parentheses of a type hold. -/
inductive ParenContent where
  | tuple
  | object
  | maybe
  | type (form : TypeForm)

/-- What stands between the parentheses of a type. -/
def parenContent : Parse ParenContent := do
  let ts ← tokens
  if ts.isEmpty then return .tuple
  else if isLifetime ts then
    discard (objectBounds R true)
    return .object
  else if isSymbol .question ts then
    discard (traitBound R false)
    return .maybe
  else
    let first ← R.type true
    if ← symbol? .comma then
      discard (commas (R.type true))
      return .tuple
    else return .type first

/-- A type that begins with a parenthesis. -/
def parenType (plus : Bool) : Parse TypeForm := do
  match ← within .paren (parenContent R) with
  | .tuple => return .other
  | .object => return .other
  | .maybe =>
    joinedBounds R ((← tokens).length + 1)
    return .bounds false
  | .type first => parenTypeTail R plus first

/-- The convention of a call, with its name, if it is there. -/
def callConvention? : Parse Unit := do
  if ← keyword? .extern_ then
    if isString (← tokens) then skip 1

/-- A parameter of a function type that takes any further values. -/
def variadicParam : Parse Unit := do
  let ts ← tokens
  if isIdent ts || isKeyword .underscore ts then
    discard anyWord
    symbol .colon
  symbol .dot3
  discard (symbol? .comma)

/-- A parameter of a function type. -/
def functionTypeParam (first : Bool) : Parse Unit := do
  discard (outerAttributes R)
  let ts ← tokens
  let mutSelf := first && isKeyword .mut_ ts && isKeyword .self_ (ts.drop 1)
  if mutSelf then keyword .mut_
  let ts ← tokens
  let isSelf := first && isKeyword .self_ ts
  let named := (isIdent ts || isKeyword .underscore ts || isSelf) && isLoneColon (ts.drop 1)
  if named then
    discard anyWord
    symbol .colon
  let ts ← tokens
  if first && !(named && isSelf) && isKeyword .mut_ ts && isKeyword .self_ (ts.drop 1) then skip 2
  else if mutSelf && !named then keyword .self_
  else discard (R.type true)

/-- The parameters of a function type. -/
def functionTypeParams : Nat → Bool → Parse Unit
  | 0, _ => fail .tooDeep
  | n + 1, first => do
    if (← tokens).isEmpty then return ()
    discard (outerAttributes R)
    let ts ← tokens
    if isSymbol .dot3 ts || ((isIdent ts || isKeyword .underscore ts) &&
        isSymbol .colon (ts.drop 1) && isSymbol .dot3 (ts.drop 2)) then
      variadicParam
    else
      functionTypeParam R first
      if (← tokens).isEmpty then return ()
      symbol .comma
      functionTypeParams n false

/-- A function type. -/
def functionType : Parse TypeForm := do
  discard (binder? R)
  discard (keyword? .unsafe_)
  callConvention?
  keyword .fn_
  within .paren do
    functionTypeParams R ((← tokens).length + 1) true
  returnType R false
  return .other

/-- A type behind `*`. -/
def pointerType : Parse TypeForm := do
  symbol .star
  let ts ← tokens
  if isKeywordOf [.const_, .mut_] ts then skip 1
  else expect [.keyword .const_, .keyword .mut_]
  discard (R.type false)
  return .other

/-- A type behind `&`. -/
def referenceType : Parse TypeForm := do
  symbol .amp
  discard lifetime?
  discard (keyword? .mut_)
  discard (R.type false)
  return .other

/-- An array or a slice. -/
def bracketType : Parse TypeForm := do
  within .bracket do
    discard (R.type true)
    if ← symbol? .semi then discard (R.expr true)
  return .other

/-- The alternatives at the start of a type. -/
def typeStarts : List Expectation :=
  [.keyword .for_, .delimiter .paren, .keyword .fn_, .keyword .unsafe_, .keyword .extern_,
   .identifier, .symbol .colon2, .symbol .lt, .keyword .dyn_, .delimiter .bracket,
   .symbol .star, .symbol .amp, .symbol .bang, .keyword .impl_, .keyword .underscore, .lifetime]

/-- The alternatives behind the parameters of `for<…>`. -/
def boundTypeStarts : List Expectation :=
  [.identifier, .keyword .fn_, .keyword .unsafe_, .keyword .extern_, .keyword .super_,
   .keyword .self_, .keyword .upperSelf, .keyword .crate_]

/-- A type; `plus` allows several bounds. -/
def typeRule (plus : Bool) : Parse TypeForm := do
  let bound ← binder? R
  let ts ← tokens
  if bound && !(isPathWord ts || isKeywordOf [.fn_, .unsafe_, .extern_] ts) then
    expect boundTypeStarts
  else if isGroup .paren ts then parenType R plus
  else if isKeywordOf [.fn_, .unsafe_, .extern_] ts then functionType R
  else if isPathWord ts || isSymbol .colon2 ts || isSymbol .lt ts then pathType R bound plus
  else if isKeyword .dyn_ ts then
    keyword .dyn_
    discard (symbol? .star)
    discard (objectBounds R plus)
    return .other
  else if isGroup .bracket ts then bracketType R
  else if isSymbol .star ts then pointerType R
  else if isSymbol .amp ts then referenceType R
  else if isSymbol .bang ts then
    symbol .bang
    return .other
  else if isKeyword .impl_ ts then
    keyword .impl_
    let bs ← bounds R plus true true
    if bs.contains .trait || bs.contains .constTrait then return .other
    else fail .implWithoutTrait
  else if isKeyword .underscore ts then
    skip 1
    return .other
  else if isLifetime ts then
    let bs ← objectBounds R true
    return .bounds (bs.length == 1)
  else expect typeStarts

end Grammar

end ProcessCompiler
