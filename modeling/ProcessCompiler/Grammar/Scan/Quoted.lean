import ProcessCompiler.Text.Chars
/-!
# Quoted literals

Where a quoted literal ends. Each scanner takes the characters after the
opening quote and gives the characters after the closing one, or none if
the literal is not well formed. The three flavours of string differ in the
characters and escapes they allow. A string is scanned by an automaton that
reads one character a step, so that the scan is a fold over the text.
-/

namespace ProcessCompiler

namespace Grammar

namespace Scan

open Text

/-- The flavours of string: text, bytes, and text without a zero. -/
inductive Flavour where
  | text
  | bytes
  | zeroFree
deriving DecidableEq, Repr

namespace Flavour

/-- The characters a flavour lets stand for themselves. -/
def admits : Flavour → Char → Bool
  | text, _ => true
  | bytes, c => c.toNat < 0x80
  | zeroFree, c => c.toNat != 0

/-- The escapes of one letter. -/
def admitsEscape (f : Flavour) (c : Char) : Bool :=
  c == 'n' || c == 'r' || c == 't' || c == '\\' || c == '\'' || c == '"' ||
    (c == '0' && f != zeroFree)

/-- The first digit of a byte escape: a text ends at seven bits. -/
def admitsHigh (f : Flavour) (c : Char) : Bool :=
  if f = text then '0' ≤ c && c ≤ '7' else isHexDigit c

/-- The value of a complete byte or character escape. -/
def admitsValue (f : Flavour) (n : Nat) : Bool := f != zeroFree || n != 0

end Flavour

/-- A number that is a character's code point. -/
def isScalar (n : Nat) : Bool := n < 0xD800 || (0xE000 ≤ n && n < 0x110000)

/-- Where a scan stands inside a string. -/
inductive StringState where
  | plain
  /-- After a carriage return, which only stands before a line feed. -/
  | carriage
  /-- After a backslash. -/
  | escape
  /-- Before the first digit of a byte escape. -/
  | high
  /-- Before the second digit of a byte escape, after the first. -/
  | low (first : Nat)
  /-- Before the brace of a character escape. -/
  | brace
  /-- Among the digits of a character escape: their value and their number. -/
  | digits (value count : Nat)
  /-- Among the blanks after an escaped line end. -/
  | skip
  /-- After a carriage return among those blanks. -/
  | skipCarriage
deriving DecidableEq, Repr

/-- What one character does to a scan: it ends the string, moves it to a
state, or is refused. -/
inductive StringStep where
  | close
  | go (s : StringState)
  | refuse
deriving DecidableEq, Repr

/-- The step in the state `plain`. -/
def plainStep (f : Flavour) (c : Char) : StringStep :=
  if c == '"' then .close
  else if c == '\r' then .go .carriage
  else if c == '\\' then .go .escape
  else if f.admits c then .go .plain
  else .refuse

/-- The step after a backslash. -/
def escapeStep (f : Flavour) (c : Char) : StringStep :=
  if c == 'x' then .go .high
  else if f.admitsEscape c then .go .plain
  else if c == 'u' && f != .bytes then .go .brace
  else if c == '\n' then .go .skip
  else if c == '\r' then .go .skipCarriage
  else .refuse

/-- The step among the digits of a character escape. -/
def digitStep (f : Flavour) (value count : Nat) (c : Char) : StringStep :=
  match hexValue? c with
  | some d => if count == 6 then .refuse else .go (.digits (value * 16 + d) (count + 1))
  | none =>
    if c == '_' && count != 0 then .go (.digits value count)
    else if c == '\x7d' && count != 0 && isScalar value && f.admitsValue value then .go .plain
    else .refuse

/-- One step of the automaton. -/
def stringStep (f : Flavour) : StringState → Char → StringStep
  | .plain, c => plainStep f c
  | .carriage, c => if c == '\n' then .go .plain else .refuse
  | .escape, c => escapeStep f c
  | .high, c =>
    match hexValue? c with
    | some d => if f.admitsHigh c then .go (.low d) else .refuse
    | none => .refuse
  | .low first, c =>
    match hexValue? c with
    | some d => if f.admitsValue (first * 16 + d) then .go .plain else .refuse
    | none => .refuse
  | .brace, c => if c == '\x7b' then .go (.digits 0 0) else .refuse
  | .digits value count, c => digitStep f value count c
  | .skip, c =>
    if c == ' ' || c == '\t' || c == '\n' then .go .skip
    else if c == '\r' then .go .skipCarriage
    else plainStep f c
  | .skipCarriage, c => if c == '\n' then .go .skip else .refuse

/-- What follows the closing quote of a string. -/
def stringFrom (f : Flavour) : StringState → List Char → Option (List Char)
  | _, [] => none
  | s, c :: rest =>
    match stringStep f s c with
    | .close => some rest
    | .go s' => stringFrom f s' rest
    | .refuse => none

/-- What follows the closing quote of a raw string with the given number of
hash signs. -/
def rawFrom (f : Flavour) (hashes : Nat) : List Char → Option (List Char)
  | [] => none
  | '"' :: rest =>
    if (rest.take hashes).length == hashes && (rest.take hashes).all (· == '#')
    then some (rest.drop hashes) else rawFrom f hashes rest
  | '\r' :: '\n' :: rest => rawFrom f hashes rest
  | '\r' :: _ => none
  | c :: rest => if f.admits c then rawFrom f hashes rest else none

/-- What follows a raw string, from its hash signs on. -/
def rawString (f : Flavour) (cs : List Char) : Option (List Char) :=
  let hashes := (cs.takeWhile (· == '#')).length
  match cs.dropWhile (· == '#') with
  | '"' :: rest => if hashes ≤ 255 then rawFrom f hashes rest else none
  | _ => none

/-- What follows a character escape, from the first digit on. -/
def unicodeFrom (value count : Nat) : List Char → Option (List Char)
  | [] => none
  | c :: rest =>
    match digitStep .text value count c with
    | .go (.digits v n) => unicodeFrom v n rest
    | .go _ => some rest
    | _ => none

/-- What follows one character or escape inside a character literal. -/
def oneChar : List Char → Option (List Char)
  | '\\' :: 'x' :: a :: b :: rest =>
    if Flavour.text.admitsHigh a && isHexDigit b then some rest else none
  | '\\' :: 'u' :: '\x7b' :: rest => unicodeFrom 0 0 rest
  | '\\' :: c :: rest => if Flavour.text.admitsEscape c then some rest else none
  | ['\\'] => none
  | _ :: rest => some rest
  | [] => none

/-- What follows one character or escape inside a byte literal. -/
def oneByte : List Char → Option (List Char)
  | '\\' :: 'x' :: a :: b :: rest => if isHexDigit a && isHexDigit b then some rest else none
  | '\\' :: c :: rest => if Flavour.bytes.admitsEscape c then some rest else none
  | ['\\'] => none
  | c :: rest => if Flavour.bytes.admits c then some rest else none
  | [] => none

/-- What follows the apostrophe that closes a literal. -/
def closeQuote : List Char → Option (List Char)
  | '\'' :: rest => some rest
  | _ => none

end Scan

end Grammar

end ProcessCompiler
