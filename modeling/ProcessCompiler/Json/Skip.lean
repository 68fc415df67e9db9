import ProcessCompiler.Json.Scalar
/-!
# Passing over JSON

A value of any kind, read only for its faults.
-/

namespace ProcessCompiler

namespace Json

open Text

/-- Brackets that a value may be inside of. -/
inductive Bracket where
  | list
  | object
deriving DecidableEq, Repr

namespace Bracket

/-- The closing bracket. -/
def close : Bracket → Char
  | list => ']'
  | object => '\x7d'

/-- The cause of brackets that the end cuts off. -/
def atEnd : Bracket → Cause
  | list => .endOfList
  | object => .endOfObject

/-- The cause of two items without a comma. -/
def expectedComma : Bracket → Cause
  | list => .expectedListComma
  | object => .expectedObjectComma

end Bracket

/-- Read a value that is not in brackets, or the opening bracket of one that
is. -/
def skipStart : Read (Option Bracket) := do
  match ← peekWord with
  | none => failAhead .endOfValue
  | some 'n' =>
    eat
    word "ull".toList
    return none
  | some 't' =>
    eat
    word "rue".toList
    return none
  | some 'f' =>
    eat
    word "alse".toList
    return none
  | some '-' =>
    eat
    skipNumber
    return none
  | some '"' =>
    eat
    skipString
    return none
  | some '[' =>
    eat
    return some .list
  | some '\x7b' =>
    eat
    return some .object
  | some c =>
    if isDigit c then
      skipNumber
      return none
    else failAhead .expectedValue

/-- Read a key and its colon. -/
def skipKey : Read Unit := do
  match ← peekWord with
  | none => failAhead .endOfObject
  | some '"' =>
    eat
    skipString
    match ← peekWord with
    | none => failAhead .endOfObject
    | some ':' => eat
    | some _ => failAhead .expectedColon
  | some _ => failAhead .keyNotString

/-- Read closing brackets up to the next item, given the brackets that are
open from the inside out. With `comma` an item stands before. What is left
are the brackets that are open then. -/
def skipClosing : Bool → List Bracket → Read (List Bracket)
  | _, [] => return []
  | comma, b :: outer => do
    match ← peekWord with
    | none => failAhead b.atEnd
    | some c =>
      if c == ',' && comma then
        eat
        return b :: outer
      else if c == b.close then
        eat
        skipClosing true outer
      else if comma then failAhead b.expectedComma
      else return b :: outer

/-- Read a value inside brackets that are open, and all up to the end of the
outermost. At most `n` values are read. -/
def skipFrom : Nat → List Bracket → Read Unit
  | 0, _ => failAhead .endOfValue
  | n + 1, brackets => do
    let opened ← skipStart
    let left ← match opened with
      | some b => skipClosing false (b :: brackets)
      | none => skipClosing true brackets
    match left with
    | [] => return ()
    | .object :: _ =>
      skipKey
      skipFrom n left
    | .list :: _ => skipFrom n left

/-- Read a value only for its faults. -/
def skip : Read Unit := fun c => skipFrom (c.rest.length + 1) [] c

end Json

end ProcessCompiler
