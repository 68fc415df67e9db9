import ProcessCompiler.Text.Chars
/-!
# Numbers

Where a number ends, and what an integer is worth. A number is a run of
digits in one of four bases, or a decimal with a point or an exponent, and
either may carry a suffix that is spelled like a word.
-/

namespace ProcessCompiler

namespace Grammar

namespace Scan

open Text

/-- A decimal digit or the separator `_`. -/
def isDigitOrGap (c : Char) : Bool := isDigit c || c == '_'

/-- The text begins with a character of a class. -/
def startsWith (p : Char → Bool) : List Char → Bool
  | c :: _ => p c
  | [] => false

/-- What follows a word, or the same text where none begins. -/
def dropWord (cs : List Char) : List Char :=
  if startsWith isWordStart cs then cs.dropWhile isWordRest else cs

/-- What follows a number's suffix. A character that could only continue a
word may not follow. -/
def dropSuffix (cs : List Char) : Option (List Char) :=
  let rest := dropWord cs
  if startsWith isWordRest rest then none else some rest

/-- What follows an exponent, from behind its `e` on; `plain` is the answer
where no digit comes. -/
def exponent (plain : Option (List Char)) (cs : List Char) : Option (List Char) :=
  let a := cs.dropWhile (· == '_')
  let b := if startsWith (fun c => c == '+' || c == '-') a
    then a.tail.dropWhile (· == '_') else a
  if startsWith isDigit b then some (b.dropWhile isDigitOrGap) else plain

/-- The letter that begins an exponent. -/
def isExponent (c : Char) : Bool := c == 'e' || c == 'E'

/-- What follows the digits of a decimal with a point or an exponent. -/
def decimalDigits (cs : List Char) : Option (List Char) :=
  if startsWith isDigit cs then
    match cs.dropWhile isDigitOrGap with
    | '.' :: afterPoint =>
      if startsWith (fun c => c == '.' || isWordStart c) afterPoint then none else
      let fraction := afterPoint.dropWhile isDigitOrGap
      if startsWith isExponent fraction then exponent (some fraction) fraction.tail
      else some fraction
    | c :: rest => if isExponent c then exponent none rest else none
    | [] => none
  else none

/-- What follows a decimal with a point or an exponent. -/
def decimal (cs : List Char) : Option (List Char) := (decimalDigits cs).bind dropSuffix

/-- What follows the digits of an integer. `none` is a digit too large for
the base, or no digit at all. -/
def integerDigits (base : Nat) (empty : Bool) : List Char → Option (List Char)
  | [] => if empty then none else some []
  | c :: rest =>
    if c == '_' then
      if empty && base == 10 then none else integerDigits base empty rest
    else
      match hexValue? c with
      | some d =>
        if d < base then integerDigits base false rest
        else if isDigit c then none
        else if empty then none else some (c :: rest)
      | none => if empty then none else some (c :: rest)

/-- The base an integer is written in, and its digits. -/
def integerBase : List Char → Nat × List Char
  | '0' :: 'x' :: rest => (16, rest)
  | '0' :: 'o' :: rest => (8, rest)
  | '0' :: 'b' :: rest => (2, rest)
  | cs => (10, cs)

/-- What follows an integer. -/
def integer (cs : List Char) : Option (List Char) :=
  let (base, digits) := integerBase cs
  (integerDigits base true digits).bind dropSuffix

end Scan

/-- What a number's text says: an integer with its value and suffix, or a
decimal. -/
inductive Number where
  | integer (value : Nat) (suffix : List Char)
  | decimal
deriving DecidableEq, Repr

namespace Number

open Text

/-- A word, from its first character to the end of the text. -/
def isWord : List Char → Bool
  | c :: rest => isWordStart c && rest.all isWordRest
  | [] => false

/-- A suffix that leaves a number an integer. -/
def withSuffix (value : Nat) (suffix : List Char) : Number :=
  if suffix.isEmpty || isWord suffix then .integer value suffix else .decimal

/-- Read the digits after an `e`: an exponent makes the number a decimal,
and anything else makes the `e` the start of a suffix. -/
def isExponentTail (digits : Bool) : List Char → Bool
  | [] => digits
  | c :: rest =>
    if c == '_' then isExponentTail digits rest
    else if c == '-' || c == '+' then true
    else if isDigit c then isExponentTail true rest
    else digits && isWord (c :: rest)

/-- Read an integer's digits in a base, with the value so far. -/
def ofDigits (base value : Nat) (empty : Bool) : List Char → Number
  | [] => if empty then .decimal else .integer value []
  | c :: rest =>
    if c == '_' then ofDigits base value empty rest
    else if base == 10 && c == '.' then .decimal
    else if base == 10 && Scan.isExponent c then
      if isExponentTail false rest || empty then .decimal else withSuffix value (c :: rest)
    else
      match hexValue? c with
      | some d =>
        if isDigit c || 10 < base then
          if d < base then ofDigits base (value * base + d) false rest else .decimal
        else if empty then .decimal else withSuffix value (c :: rest)
      | none => if empty then .decimal else withSuffix value (c :: rest)

/-- Read the text of a number. -/
def ofText (cs : List Char) : Number :=
  let (base, digits) := Scan.integerBase cs
  ofDigits base 0 true digits

end Number

end Grammar

end ProcessCompiler
