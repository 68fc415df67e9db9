import ProcessCompiler.Json.Cursor
/-!
# JSON numbers

Numbers are read only to be refused or passed over: no value of the compiler
holds one. The two ways differ in what a number that is cut off is called.
-/

namespace ProcessCompiler

namespace Json

open Text

/-- The value of a decimal digit. -/
def digitValue (d : Char) : Nat := d.toNat - '0'.toNat

/-- Read the digits of an integer. -/
def integerDigits (atEnd : Cause) : Read (List Char) := do
  match ← next with
  | none => failHere atEnd
  | some '0' =>
    match ← peek with
    | some c => if isDigit c then failAhead .invalidNumber else return ['0']
    | none => return ['0']
  | some c =>
    if isDigit c then
      let more ← takeDigits
      return c :: more
    else failHere .invalidNumber

/-- Read the digits of a fraction, if one follows. -/
def fractionDigits (atEnd : Cause) : Read (List Char) := do
  match ← peek with
  | some '.' =>
    eat
    let ds ← takeDigits
    if ds.isEmpty then
      match ← peek with
      | none => failAhead atEnd
      | some _ => failAhead .invalidNumber
    return ds
  | _ => return []

/-- The mark, the sign and the first digit of an exponent. -/
structure ExponentStart where
  negative : Bool
  digit : Char

/-- Read the start of an exponent, if one follows. -/
def exponentStart? (atEnd : Cause) : Read (Option ExponentStart) := do
  match ← peek with
  | some e =>
    if e == 'e' || e == 'E' then
      eat
      let sign ← peek
      if sign == some '+' || sign == some '-' then eat
      match ← next with
      | none => failHere atEnd
      | some c => if isDigit c then return some ⟨sign == some '-', c⟩ else failHere .invalidNumber
    else return none
  | none => return none

/-- The greatest exponent that is read. -/
def maxExponent : Nat := Nat.pow 2 31 - 1

/-- Read the digits of an exponent behind those that make up `n`. The reading
ends behind the digit that takes it beyond the greatest exponent. -/
def exponentDigits (n : Nat) : List Char → Place → Option Nat × Cursor
  | [], p => (some n, ⟨[], p⟩)
  | c :: rest, p =>
    if isDigit c then
      let n' := n * 10 + digitValue c
      if maxExponent < n' then (none, ⟨rest, p.after c⟩) else exponentDigits n' rest (p.after c)
    else (some n, ⟨c :: rest, p⟩)

/-- Read the value of an exponent, unless it is beyond the greatest one. -/
def exponentValue? (start : ExponentStart) : Read (Option Int) := fun c =>
  let (value, c) := exponentDigits (digitValue start.digit) c.rest c.place
  .ok (value.map fun n => if start.negative then -(n : Int) else n) c

/-- Write digits behind a number for as long as it has at most 64 bits. The
rest is the digits from the first one on that does not fit. -/
def appendDigits (n : Nat) : List Char → Nat × List Char
  | [] => (n, [])
  | d :: ds =>
    let n' := n * 10 + digitValue d
    if 2 ^ 64 ≤ n' then (n, d :: ds) else appendDigits n' ds

/-- The real number `significand * 10 ^ exponent`. -/
def realNumber (negative : Bool) (significand : Nat) (exponent : Int) : Read Found := do
  match Decimal.Double.ofDecimal? significand exponent with
  | some x => return .real negative x
  | none => failHere .numberOutOfRange

/-- Read a number behind its sign. An integer has at most 64 bits, counting
its sign; the digits of a real number beyond 64 bits count for its size only. -/
def number (negative : Bool) : Read Found := do
  let whole ← integerDigits .endOfValue
  let (significand, left) := appendDigits 0 whole
  let places ← fractionDigits .endOfValue
  match ← exponentStart? .endOfValue with
  | some start =>
    let (significand, exponent) := withFraction significand left.length places
    match ← exponentValue? start with
    | some e => realNumber negative significand (exponent + e)
    | none =>
      if significand != 0 && !start.negative then failHere .numberOutOfRange
      let _ ← takeDigits
      return .real negative .zero
  | none =>
    if places.isEmpty && left.isEmpty && !isReal significand then
      return .integer (if negative then -significand else significand)
    else
      let (significand, exponent) := withFraction significand left.length places
      realNumber negative significand exponent
where
  /-- The significand and the exponent behind the digits of a fraction. -/
  withFraction (significand dropped : Nat) (places : List Char) : Nat × Int :=
    let (n, left) := appendDigits significand places
    (n, (dropped : Int) - ((places.length - left.length : Nat) : Int))
  /-- An integer that is no negative number of 64 bits, though it has a sign. -/
  isReal (n : Nat) : Bool := negative && (n == 0 || Nat.pow 2 63 < n)

/-- Read a number only for its faults, behind its sign. -/
def skipNumber : Read Unit := do
  let _ ← integerDigits .invalidNumber
  let _ ← fractionDigits .invalidNumber
  if (← exponentStart? .invalidNumber).isSome then
    let _ ← takeDigits
  return ()

end Json

end ProcessCompiler
