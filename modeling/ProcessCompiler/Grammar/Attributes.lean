import ProcessCompiler.Grammar.Parse
/-!
# Attributes

Notes in the form `#[path …]` before a phrase, and `#![path …]` at the start
of the block they are about. With them come the plain paths that name them,
and the blocks that may begin with them.
-/

namespace ProcessCompiler

namespace Grammar

open Parse

variable (R : Rules)

/-- The name of a segment that a plain path may hold. -/
def plainSegment? : List Token → Option String
  | .leaf (.ident n) :: _ => some n
  | .leaf (.keyword k) :: _ =>
    if k = .super_ ∨ k = .self_ ∨ k = .upperSelf ∨ k = .crate_ then some k.text else none
  | _ => none

/-- The segments of a plain path behind its first, each after `::`. -/
def plainSegments : Nat → Parse (List Segment)
  | 0 => fail .tooDeep
  | n + 1 => do
    if ← symbol? .colon2 then
      match plainSegment? (← tokens) with
      | some name =>
        skip 1
        return ⟨name, .absent⟩ :: (← plainSegments n)
      | none => expect [.segment]
    else return []

/-- A path without generic arguments. -/
def plainPath : Parse Path := do
  let rooted ← symbol? .colon2
  match plainSegment? (← tokens) with
  | some name =>
    skip 1
    let rest ← plainSegments ((← tokens).length + 1)
    return ⟨none, rooted, ⟨name, .absent⟩ :: rest⟩
  | none =>
    let _ ← ident
    return ⟨none, rooted, []⟩

/-- The value of an attribute, from its `=` on. -/
def attributeValue : Parse Unit := do
  symbol .eq
  let ts ← tokens
  if isSymbol .hash ts && isGroup .bracket (ts.drop 1) then failHere .attributeInAttribute
  else discard (R.expr true)

/-- What stands between an attribute's brackets. -/
def attributeBody : Parse Unit := do
  if isKeyword .unsafe_ (← tokens) then skip 1 else discard plainPath
  let ts ← tokens
  if isAnyGroup ts then skip 1
  else if isSymbol .eq ts && !isSymbol .eq2 ts && !isSymbol .fatArrow ts then attributeValue R
  else return ()

/-- The attributes before a phrase, as their tokens. -/
def outerAttributes : Parse (List Token) :=
  span <| repeatWhile (isSymbol .hash) do
    symbol .hash
    within .bracket (attributeBody R)

/-- The attributes at the start of a block. -/
def innerAttributes : Parse Unit := do
  let more ts := isSymbol .hash ts && isSymbol .bang (ts.drop 1)
  discard <| repeatWhile more do
    symbol .hash
    symbol .bang
    within .bracket (attributeBody R)

/-- A block that may begin with attributes. -/
def bracedBody : Parse (List Stmt) :=
  within .brace do
    innerAttributes R
    R.stmts

/-- A block that begins with its first statement. -/
def plainBody : Parse (List Stmt) := within .brace R.stmts

end Grammar

end ProcessCompiler
