import ProcessCompiler.Markup.Entity
/-!
# Attributes

The attributes of a tag, in order. A faulty one does not end the tag: what
comes behind it is read again from the next blank on, or from the word that
stands where `=` should. Values are kept as they are written, and references
in them are replaced by whoever reads them.
-/

namespace ProcessCompiler

namespace Markup

/-- A character that parts the words of a tag. -/
def isSpace (c : Char) : Bool := c == ' ' || c == '\t' || c == '\n' || c == '\r'

/-- An attribute as it is written. -/
structure Attribute where
  key : List Char
  value : List Char
deriving DecidableEq, Repr

/-- An attribute of a tag, or what is wrong with it. -/
abbrev Entry := Except AttributeFault Attribute

/-- What the scan of a tag is inside of. Text that was read is kept last
character first. -/
inductive TagState where
  /-- Between attributes. -/
  | gap
  /-- In a key that begins at a position. -/
  | key (start : Nat) (read : List Char)
  /-- Behind a key and a blank. -/
  | afterKey (start : Nat) (key : List Char)
  /-- Behind `=`. -/
  | beforeValue (key : List Char)
  /-- In a value. -/
  | value (key : List Char) (quote : Char) (read : List Char)
  /-- In what a faulty attribute leaves, up to the next blank. -/
  | faulty

namespace Attribute

/-- What is wrong with a tag that ends where it is. -/
def ending (pos : Nat) : TagState → List Entry
  | .gap | .faulty => []
  | .key _ _ | .afterKey _ _ => [.error (.expectedEquals pos)]
  | .beforeValue _ => [.error (.expectedValue pos)]
  | .value _ quote _ => [.error (.expectedQuote pos quote)]

/-- Scan a tag from a position on, given the keys so far and where they
begin. With `unique` a key may stand there once only. The first character of
a key may be any but a blank. -/
def scan (unique : Bool) (seen : List (List Char × Nat)) (pos : Nat) :
    TagState → List Char → List Entry
  | state, [] => ending pos state
  | .gap, c :: rest =>
    if isSpace c then scan unique seen (pos + c.utf8Size) .gap rest
    else scan unique seen (pos + c.utf8Size) (.key pos [c]) rest
  | .key start read, c :: rest =>
    if c == '=' then
      match previous? read.reverse with
      | some p => .error (.duplicated start p) :: scan unique seen (pos + c.utf8Size) .faulty rest
      | none =>
        scan unique ((read.reverse, start) :: seen) (pos + c.utf8Size)
          (.beforeValue read.reverse) rest
    else if isSpace c then scan unique seen (pos + c.utf8Size) (.afterKey start read.reverse) rest
    else scan unique seen (pos + c.utf8Size) (.key start (c :: read)) rest
  | .afterKey start key, c :: rest =>
    if c == '=' then
      match previous? key with
      | some p => .error (.duplicated start p) :: scan unique seen (pos + c.utf8Size) .faulty rest
      | none => scan unique ((key, start) :: seen) (pos + c.utf8Size) (.beforeValue key) rest
    else if isSpace c then scan unique seen (pos + c.utf8Size) (.afterKey start key) rest
    else
      .error (.expectedEquals pos) :: scan unique seen (pos + c.utf8Size) (.key pos [c]) rest
  | .beforeValue key, c :: rest =>
    if c == '"' || c == '\'' then scan unique seen (pos + c.utf8Size) (.value key c []) rest
    else if isSpace c then scan unique seen (pos + c.utf8Size) (.beforeValue key) rest
    else .error (.unquoted pos) :: scan unique seen (pos + c.utf8Size) .faulty rest
  | .value key quote read, c :: rest =>
    if c == quote then
      .ok ⟨key, read.reverse⟩ :: scan unique seen (pos + c.utf8Size) .gap rest
    else scan unique seen (pos + c.utf8Size) (.value key quote (c :: read)) rest
  | .faulty, c :: rest =>
    if isSpace c then scan unique seen (pos + c.utf8Size) .gap rest
    else scan unique seen (pos + c.utf8Size) .faulty rest
where
  /-- Where a key stands already. -/
  previous? (key : List Char) : Option Nat := if unique then seen.lookup key else none

/-- The attributes of a tag, given what stands between its brackets. -/
def ofTag (unique : Bool) (tag : List Char) : List Entry :=
  scan unique [] (byteSize (tag.takeWhile (!isSpace ·))) .gap (tag.dropWhile (!isSpace ·))

end Attribute

/-- A name in two, at its first colon. -/
def qualified? (name : List Char) : Option (List Char × List Char) :=
  match name.dropWhile (· != ':') with
  | [] => none
  | _ :: rest => some (name.takeWhile (· != ':'), rest)

/-- What follows the first colon of a name, or all of a name without one. -/
def localName (name : List Char) : List Char := ((qualified? name).map (·.2)).getD name

/-- The attribute binds a namespace. -/
def bindsNamespace (key : List Char) : Bool :=
  match key with
  | 'x' :: 'm' :: 'l' :: 'n' :: 's' :: [] => true
  | 'x' :: 'm' :: 'l' :: 'n' :: 's' :: ':' :: _ => true
  | _ => false

/-- The field that an attribute fills: `@` and its name without its first
qualifier. -/
def Attribute.field (a : Attribute) : String :=
  String.ofList ('@' :: if bindsNamespace a.key then a.key else localName a.key)

end Markup

end ProcessCompiler
