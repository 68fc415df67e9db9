import ProcessCompiler.Text.WordRanges
import ProcessCompiler.Text.HiddenRanges
/-!
# Character classes

The classes the library reads text by: blanks as the Unicode standard has
them, the characters words are made of, and the characters a quoted text
spells out. Each is a test on one character; ASCII is decided directly and
the rest by a table of ranges.
-/

namespace ProcessCompiler

namespace Text

/-- A code point lies in one of the given inclusive ranges. -/
def inRanges (ranges : List (Nat × Nat)) (n : Nat) : Bool :=
  ranges.any fun r => r.1 ≤ n && n ≤ r.2

/-- White space of the Unicode standard. -/
def isBlank (c : Char) : Bool :=
  let n := c.toNat
  (9 ≤ n && n ≤ 13) || n == 0x20 || n == 0x85 || n == 0xA0 || n == 0x1680 ||
  (0x2000 ≤ n && n ≤ 0x200A) || n == 0x2028 || n == 0x2029 || n == 0x202F ||
  n == 0x205F || n == 0x3000

/-- The digits `0` to `9`. -/
def isDigit (c : Char) : Bool := '0' ≤ c && c ≤ '9'

/-- The letters `a` to `z` in either case. -/
def isLetter (c : Char) : Bool := ('a' ≤ c && c ≤ 'z') || ('A' ≤ c && c ≤ 'Z')

/-- A character that may begin a word. -/
def isWordStart (c : Char) : Bool :=
  isLetter c || c == '_' || (0x80 ≤ c.toNat && inRanges wordStartRanges c.toNat)

/-- A character that may continue a word. -/
def isWordRest (c : Char) : Bool :=
  isWordStart c || isDigit c || (0x80 ≤ c.toNat && inRanges wordRestRanges c.toNat)

/-- A character of the ASCII word alphabet: a letter, a digit or `_`. -/
def isPlainWord (c : Char) : Bool := isLetter c || isDigit c || c == '_'

/-- A character that a quoted text spells by its number. -/
def isHidden (c : Char) : Bool :=
  let n := c.toNat
  n < 0x20 || n == 0x7F || (0x80 ≤ n && inRanges hiddenRanges n)

/-- The value of a hexadecimal digit. -/
def hexValue? (c : Char) : Option Nat :=
  if isDigit c then some (c.toNat - '0'.toNat)
  else if 'a' ≤ c && c ≤ 'f' then some (c.toNat - 'a'.toNat + 10)
  else if 'A' ≤ c && c ≤ 'F' then some (c.toNat - 'A'.toNat + 10)
  else none

/-- A hexadecimal digit in either case. -/
def isHexDigit (c : Char) : Bool := (hexValue? c).isSome

end Text

end ProcessCompiler
