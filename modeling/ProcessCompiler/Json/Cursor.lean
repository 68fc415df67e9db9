import ProcessCompiler.Json.Fault
import ProcessCompiler.Text.Chars
/-!
# Reading JSON from a text

Readers go over a text from left to right. A reader that fails leaves the
cursor where it stopped, since the place of a failure may be settled only
later, by the record that the failed value belongs to.
-/

namespace ProcessCompiler

namespace Json

open Text

/-- The rest of a text and the place where it begins. -/
structure Cursor where
  rest : List Char
  place : Place

/-- A reader of values. -/
abbrev Read (α : Type) := EStateM JsonError Cursor α

namespace Place

/-- The place behind a character. -/
def after (p : Place) (c : Char) : Place :=
  if c == '\n' then ⟨p.line + 1, 0⟩ else ⟨p.line, p.column + c.utf8Size⟩

/-- The place behind the first byte of a text. -/
def afterByte (p : Place) : List Char → Place
  | [] => p
  | c :: _ => if c == '\n' then ⟨p.line + 1, 0⟩ else ⟨p.line, p.column + 1⟩

/-- The place behind some bytes of a text. -/
def afterBytes (p : Place) : Nat → List Char → Place
  | 0, _ => p
  | _, [] => p
  | n + 1, c :: rest =>
    if c.utf8Size ≤ n + 1 then afterBytes (p.after c) (n + 1 - c.utf8Size) rest
    else ⟨p.line, p.column + (n + 1)⟩
termination_by _ cs => cs.length

end Place

/-- The start of a text. -/
def Cursor.start (text : String) : Cursor := ⟨text.toList, ⟨1, 0⟩⟩

/-- Fail behind what was read. -/
def failHere {α : Type} (cause : Cause) : Read α := fun c => .error ⟨cause, some c.place⟩ c

/-- Fail behind the first byte that was not read. -/
def failAhead {α : Type} (cause : Cause) : Read α := fun c =>
  .error ⟨cause, some (c.place.afterByte c.rest)⟩ c

/-- Fail at a place that is not settled yet. -/
def failLater {α : Type} (cause : Cause) : Read α := throw ⟨cause, none⟩

/-- Settle the place of a failure. -/
def located {α : Type} (r : Read α) : Read α := fun c =>
  match r c with
  | .ok a c => .ok a c
  | .error e c => .error { e with place := e.place.or (some c.place) } c

/-- Read to the end of brackets. The end is read after a failure too, and
moves the place of one that is not settled. -/
def closing {α : Type} (body : Read α) (close : Read Unit) : Read α := fun c =>
  match body c with
  | .ok a c =>
    match close c with
    | .ok _ c => .ok a c
    | .error e c => .error e c
  | .error e c =>
    match close c with
    | .ok _ c => .error e c
    | .error _ c => .error e c

/-- The next character, without reading it. -/
def peek : Read (Option Char) := fun c => .ok c.rest.head? c

/-- Read the next character, if there is one. -/
def next : Read (Option Char) := fun c =>
  match c.rest with
  | [] => .ok none c
  | x :: rest => .ok (some x) ⟨rest, c.place.after x⟩

/-- Read a character that was seen. -/
def eat : Read Unit := do
  let _ ← next
  return ()

/-- A blank between the words of a text. -/
def isGap (c : Char) : Bool := c == ' ' || c == '\n' || c == '\t' || c == '\r'

/-- The cursor behind blanks. -/
def afterGap : List Char → Place → Cursor
  | [], p => ⟨[], p⟩
  | c :: rest, p => if isGap c then afterGap rest (p.after c) else ⟨c :: rest, p⟩

/-- The next character that is no blank, with the blanks before it read. -/
def peekWord : Read (Option Char) := fun c =>
  let c := afterGap c.rest c.place
  .ok c.rest.head? c

/-- Read the rest of a word. -/
def word : List Char → Read Unit
  | [] => return ()
  | expected :: rest => do
    match ← next with
    | none => failHere .endOfValue
    | some c => if c == expected then word rest else failHere .expectedIdent

/-- Read some digits. -/
def digits : List Char → Place → List Char × Cursor
  | [], p => ([], ⟨[], p⟩)
  | c :: rest, p =>
    if isDigit c then
      let (ds, cursor) := digits rest (p.after c)
      (c :: ds, cursor)
    else ([], ⟨c :: rest, p⟩)

/-- Read digits, maybe none. -/
def takeDigits : Read (List Char) := fun c =>
  let (ds, c) := digits c.rest c.place
  .ok ds c

/-- Read the four digits of a character's number in hexadecimal. -/
def hexEscape : Read Nat := fun cursor =>
  match cursor.rest with
  | a :: b :: c :: d :: rest =>
    match hexValue? a, hexValue? b, hexValue? c, hexValue? d with
    | some a', some b', some c', some d' =>
      .ok (((a' * 16 + b') * 16 + c') * 16 + d')
        ⟨rest, (((cursor.place.after a).after b).after c).after d⟩
    | _, _, _, _ =>
      .error ⟨.invalidEscape, some (cursor.place.afterBytes 4 cursor.rest)⟩ cursor
  | rest =>
    if (String.ofList rest).utf8ByteSize < 4 then
      let cursor : Cursor := ⟨[], rest.foldl Place.after cursor.place⟩
      .error ⟨.endOfString, some cursor.place⟩ cursor
    else .error ⟨.invalidEscape, some (cursor.place.afterBytes 4 rest)⟩ cursor

/-- Fail because of the character that comes next, or because of the end. -/
def failNext {α : Type} (cause : Cause) : Read α := do
  match ← next with
  | some _ => failHere cause
  | none => failHere .endOfString

/-- Read the second half of a pair of numbers for one character. -/
def lowSurrogate (high : Nat) : Read Char := do
  if (← peek) != some '\\' then failNext .endOfHexEscape
  eat
  if (← peek) != some 'u' then failNext .endOfHexEscape
  eat
  let low ← hexEscape
  if low < 0xDC00 || 0xDFFF < low then failHere .loneSurrogate
  return Char.ofNat ((high - 0xD800) * 0x400 + (low - 0xDC00) + 0x10000)

/-- Read a character by its number, behind `\u`. -/
def unicodeEscape : Read Char := do
  let n ← hexEscape
  if 0xDC00 ≤ n && n ≤ 0xDFFF then failHere .loneSurrogate
  else if 0xD800 ≤ n && n ≤ 0xDBFF then lowSurrogate n
  else return Char.ofNat n

/-- The characters that are escaped by a letter. -/
def letterEscape? (c : Char) : Option Char :=
  match c with
  | '"' => some '"'
  | '\\' => some '\\'
  | '/' => some '/'
  | 'b' => some (Char.ofNat 8)
  | 'f' => some (Char.ofNat 12)
  | 'n' => some '\n'
  | 'r' => some '\r'
  | 't' => some '\t'
  | _ => none

/-- Read an escaped character behind its backslash. -/
def escape : Read Char := do
  match ← next with
  | none => failHere .endOfString
  | some 'u' => unicodeEscape
  | some c =>
    match letterEscape? c with
    | some d => return d
    | none => failHere .invalidEscape

/-- A character that no string holds unescaped. -/
def isControl (c : Char) : Bool := c.toNat < 0x20

/-- Read the rest of a string behind what was read, last character first. At
most `n` characters are read. -/
def stringRest : Nat → List Char → Read String
  | 0, _ => failHere .endOfString
  | n + 1, read => do
    match ← next with
    | none => failHere .endOfString
    | some '"' => return String.ofList read.reverse
    | some '\\' =>
      let c ← escape
      stringRest n (c :: read)
    | some c => if isControl c then failHere .controlCharacter else stringRest n (c :: read)

/-- Read a string behind its opening quote. -/
def string : Read String := fun c => stringRest (c.rest.length + 1) [] c

/-- Read an escape only for its faults. -/
def skipEscape : Read Unit := do
  match ← next with
  | none => failHere .endOfString
  | some 'u' =>
    let _ ← hexEscape
    return ()
  | some c => if (letterEscape? c).isSome then return () else failHere .invalidEscape

/-- Read the rest of a string only for its faults. -/
def skipStringRest : Nat → Read Unit
  | 0 => failHere .endOfString
  | n + 1 => do
    match ← peek with
    | none => failHere .endOfString
    | some '"' => eat
    | some '\\' =>
      eat
      skipEscape
      skipStringRest n
    | some c =>
      if isControl c then failHere .controlCharacter
      eat
      skipStringRest n

/-- Read a string only for its faults, behind its opening quote. -/
def skipString : Read Unit := fun c => skipStringRest (c.rest.length + 1) c

end Json

end ProcessCompiler
