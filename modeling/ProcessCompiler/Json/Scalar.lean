import ProcessCompiler.Json.Number
/-!
# JSON scalars

Readers of single values, and the refusal of a value that is of another kind
than the one expected.
-/

namespace ProcessCompiler

namespace Json

open Text

/-- Name the value that comes next. It is read, unless it is in brackets. -/
def found : Read Found := do
  match ← peek with
  | some 'n' =>
    eat
    word "ull".toList
    return .null
  | some 't' =>
    eat
    word "rue".toList
    return .flag true
  | some 'f' =>
    eat
    word "alse".toList
    return .flag false
  | some '-' =>
    eat
    number true
  | some '"' =>
    eat
    let s ← string
    return .text s
  | some '[' => return .list
  | some '\x7b' => return .object
  | some c => if isDigit c then number false else failAhead .expectedValue
  | none => failAhead .expectedValue

/-- Refuse the value that comes next. -/
def refuse {α : Type} (expected : String) : Read α :=
  located do
    let f ← found
    failLater (.wrongType f expected)

/-- Read a string that is expected as the given thing. -/
def stringAs (expected : String) : Read String :=
  located do
    match ← peekWord with
    | none => failAhead .endOfValue
    | some '"' =>
      eat
      string
    | some _ => refuse expected

/-- Read a string. -/
def readText : Read String := stringAs "a string"

/-- Read a truth value. -/
def readFlag : Read Bool :=
  located do
    match ← peekWord with
    | none => failAhead .endOfValue
    | some 't' =>
      eat
      word "rue".toList
      return true
    | some 'f' =>
      eat
      word "alse".toList
      return false
    | some _ => refuse "a boolean"

/-- Read the value that stands for nothing. -/
def readNothing : Read Unit :=
  located do
    match ← peekWord with
    | none => failAhead .endOfValue
    | some 'n' =>
      eat
      word "ull".toList
    | some _ => refuse "unit"

/-- Read a value, or the one that stands for nothing. -/
def readOptional {α : Type} (r : Read α) : Read (Option α) := do
  match ← peekWord with
  | some 'n' =>
    eat
    word "ull".toList
    return none
  | _ => some <$> r

end Json

end ProcessCompiler
