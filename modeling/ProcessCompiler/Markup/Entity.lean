import ProcessCompiler.Markup.Fault
import ProcessCompiler.Text.Chars
/-!
# Entities

References in text and in attribute values: `&` to `;` around the name of
one of five characters, or around `#` and a character's number.
-/

namespace ProcessCompiler

namespace Markup

open Text

/-- The number of bytes of a text. -/
def byteSize : List Char → Nat
  | [] => 0
  | c :: rest => c.utf8Size + byteSize rest

/-- The value of a digit in a base of at most sixteen. -/
def digit? (base : Nat) (c : Char) : Option Nat :=
  (hexValue? c).bind fun d => if d < base then some d else none

/-- Read the digits of a number of 32 bits behind those already read. -/
def readDigits (base : Nat) : Nat → List Char → Except NumberFault Nat
  | n, [] => .ok n
  | n, c :: rest =>
    match digit? base c with
    | none => .error .digit
    | some d =>
      if n * base + d < 2 ^ 32 then readDigits base (n * base + d) rest else .error .overflow

/-- Read a number of 32 bits. -/
def readNumber (base : Nat) (cs : List Char) : Except NumberFault Nat :=
  if cs.isEmpty then .error .empty else readDigits base 0 cs

/-- Read a number without a sign. -/
def readUnsigned (base : Nat) (cs : List Char) : Except CharacterFault Nat :=
  match cs with
  | '+' :: _ => .error .sign
  | '-' :: _ => .error .sign
  | _ => (readNumber base cs).mapError .number

/-- The character with a number. -/
def characterOf (n : Nat) : Except CharacterFault Char :=
  if n = 0 then .error .zero
  else if h : n.isValidChar then .ok (Char.ofNatAux n h)
  else .error (.codePoint n)

/-- The character with the number that is written behind `&#`. -/
def characterRef : List Char → Except CharacterFault Char
  | 'x' :: hex => (readUnsigned 16 hex).bind characterOf
  | decimal => (readUnsigned 10 decimal).bind characterOf

/-- The characters that have names. -/
def named? (name : String) : Option Char :=
  match name with
  | "lt" => some '<'
  | "gt" => some '>'
  | "amp" => some '&'
  | "apos" => some '\''
  | "quot" => some '"'
  | _ => none

/-- The character that a reference stands for, given what is between `&` and
`;` and where that is. -/
def reference (start stop : Nat) (body : List Char) : Except EntityFault Char :=
  match body with
  | '#' :: number => (characterRef number).mapError .character
  | _ =>
    match named? (String.ofList body) with
    | some c => .ok c
    | none => .error (.unknown start stop (String.ofList body))

/-- Decode a text from a position on, of `size` bytes in all. With `pending`
the text goes on inside the reference that begins there, whose characters so
far are given last first. -/
def decodeFrom (size : Nat) :
    Nat → Option (Nat × List Char) → List Char → Except EntityFault (List Char)
  | _, none, [] => .ok []
  | _, some (start, _), [] => .error (.unterminated start size)
  | pos, none, c :: rest =>
    if c == '&' then decodeFrom size (pos + 1) (some (pos, [])) rest
    else (decodeFrom size (pos + c.utf8Size) none rest).map (c :: ·)
  | pos, some (start, body), c :: rest =>
    if c == '&' then .error (.unterminated start size)
    else if c == ';' then
      match reference (start + 1) pos body.reverse with
      | .error f => .error f
      | .ok d => (decodeFrom size (pos + 1) none rest).map (d :: ·)
    else decodeFrom size (pos + c.utf8Size) (some (start, c :: body)) rest

/-- Replace the references of a text. -/
def decode (cs : List Char) : Except EntityFault (List Char) :=
  decodeFrom (byteSize cs) 0 none cs

end Markup

end ProcessCompiler
