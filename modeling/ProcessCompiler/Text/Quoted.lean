import ProcessCompiler.Text.Chars
/-!
# Quoted text

A text as a string literal on one line. Quotes, backslashes and the common
controls are escaped by a letter, other characters without a glyph by their
number, and all else stands for itself.
-/

namespace ProcessCompiler

namespace Text

/-- A number in hexadecimal, in lower case. -/
def hexadecimal (n : Nat) : List Char := Nat.toDigits 16 n

/-- A character inside quotes. -/
def escaped (c : Char) : List Char :=
  if c == Char.ofNat 0 then ['\\', '0']
  else if c == '\t' then ['\\', 't']
  else if c == '\r' then ['\\', 'r']
  else if c == '\n' then ['\\', 'n']
  else if c == '"' then ['\\', '"']
  else if c == '\\' then ['\\', '\\']
  else if isHidden c then ['\\', 'u', '\x7b'] ++ hexadecimal c.toNat ++ ['\x7d']
  else [c]

/-- A text as a string literal. -/
def quoted (s : String) : String :=
  String.ofList ('"' :: s.toList.flatMap escaped ++ ['"'])

end Text

end ProcessCompiler
