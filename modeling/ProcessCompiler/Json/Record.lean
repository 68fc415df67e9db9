import ProcessCompiler.Json.Skip
/-!
# JSON records

Objects whose keys are the fields of a record, and lists that give the
fields in their order. Keys that are no field are passed over.
-/

namespace ProcessCompiler

namespace Json

/-- A field of a record. -/
structure Member (α : Type) where
  name : String
  /-- An object may lack it. -/
  optional : Bool
  /-- A list may end before it. -/
  trailing : Bool
  /-- Read its value into the record. -/
  read : α → Read α

/-- A kind of record. -/
structure RecordShape (α : Type) where
  /-- What it is called where it was expected. -/
  name : String
  members : List (Member α)
  /-- The record before anything is read. -/
  blank : α

variable {α : Type}

/-- Read a colon. -/
def colon : Read Unit := do
  match ← peekWord with
  | some ':' => eat
  | some _ => failAhead .expectedColon
  | none => failAhead .endOfObject

/-- Read up to the next key of an object, and say whether there is one. -/
def hasKey (first : Bool) : Read Bool := do
  match ← peekWord with
  | none => failAhead .endOfObject
  | some '\x7d' => return false
  | some c =>
    if c == ',' && !first then
      eat
      match ← peekWord with
      | some '"' => return true
      | some '\x7d' => failAhead .trailingComma
      | some _ => failAhead .keyNotString
      | none => failAhead .endOfValue
    else if first then
      if c == '"' then return true else failAhead .keyNotString
    else failAhead .expectedObjectComma

/-- Read up to the next item of a list, and say whether there is one. -/
def hasItem (first : Bool) : Read Bool := do
  match ← peekWord with
  | none => failAhead .endOfList
  | some ']' => return false
  | some c =>
    if first then return true
    else if c == ',' then
      eat
      match ← peekWord with
      | some ']' => failAhead .trailingComma
      | some _ => return true
      | none => failAhead .endOfValue
    else failAhead .expectedListComma

/-- Read the end of an object. -/
def endObject : Read Unit := do
  match ← peekWord with
  | some '\x7d' => eat
  | some ',' => failAhead .trailingComma
  | some _ => failAhead .trailingCharacters
  | none => failAhead .endOfObject

/-- Read the end of a list. -/
def endList : Read Unit := do
  match ← peekWord with
  | some ']' => eat
  | some ',' =>
    eat
    match ← peekWord with
    | some ']' => failAhead .trailingComma
    | _ => failAhead .trailingCharacters
  | some _ => failAhead .trailingCharacters
  | none => failAhead .endOfList

/-- Read the fields of an object, given those that were read. At most `n` are
read. -/
def objectMembers (members : List (Member α)) :
    Nat → Bool → List String → α → Read (List String × α)
  | 0, _, _, _ => failAhead .endOfObject
  | n + 1, first, seen, record => do
    if ← hasKey first then
      eat
      let key ← string
      match members.find? (·.name == key) with
      | none =>
        colon
        skip
        objectMembers members n false seen record
      | some m =>
        if seen.contains key then failLater (.duplicateField key)
        colon
        let record ← m.read record
        objectMembers members n false (key :: seen) record
    else return (seen, record)

/-- Refuse an object that lacks a field. -/
def requireMembers (seen : List String) : List (Member α) → Read Unit
  | [] => return ()
  | m :: rest =>
    if m.optional || seen.contains m.name then requireMembers seen rest
    else failLater (.missingField m.name)

/-- Read the record of an object behind its opening bracket. -/
def objectBody (shape : RecordShape α) : Read α := fun c =>
  (do
    let (seen, record) ← objectMembers shape.members (c.rest.length + 1) true [] shape.blank
    requireMembers seen shape.members
    return record : Read α) c

/-- The wording of a list's length. -/
def lengthText (name : String) (n : Nat) : String :=
  name ++ " with " ++ toString n ++ (if n == 1 then " element" else " elements")

/-- Read the fields of a list in their order. `total` is the number of all
fields. -/
def listMembers (name : String) (total : Nat) : Bool → Nat → List (Member α) → α → Read α
  | _, _, [], record => return record
  | first, i, m :: rest, record => do
    if ← hasItem first then
      let record ← m.read record
      listMembers name total false (i + 1) rest record
    else if m.trailing then listMembers name total first (i + 1) rest record
    else failLater (.wrongLength i (lengthText name total))

/-- Read a record. -/
def readRecord (shape : RecordShape α) : Read α :=
  located do
    match ← peekWord with
    | none => failAhead .endOfValue
    | some '[' =>
      eat
      closing (listMembers shape.name shape.members.length true 0 shape.members shape.blank) endList
    | some '\x7b' =>
      eat
      closing (objectBody shape) endObject
    | some _ => refuse shape.name

/-- Read the items of a list. At most `n` are read. -/
def listItems (item : Read α) : Nat → Bool → List α → Read (List α)
  | 0, _, _ => failAhead .endOfList
  | n + 1, first, read => do
    if ← hasItem first then
      let a ← item
      listItems item n false (a :: read)
    else return read.reverse

/-- Read a list. -/
def readList (item : Read α) : Read (List α) :=
  located do
    match ← peekWord with
    | none => failAhead .endOfValue
    | some '[' =>
      eat
      closing (fun c => listItems item (c.rest.length + 1) true [] c) endList
    | some _ => refuse "a sequence"

/-- Read the name of a choice and what it stands for. -/
def choiceName (choices : List (String × α)) : Read α :=
  located do
    let name ← stringAs "variant identifier"
    match choices.lookup name with
    | some a => return a
    | none => failLater (.unknownChoice name (choices.map (·.1)))

/-- Read a choice: a bare name, or an object with its name as the only key.
`bare` and `keyed` read what follows the name. -/
def choice {β : Type} (choices : List (String × α)) (bare keyed : α → Read β) : Read β := do
  match ← peekWord with
  | some '\x7b' =>
    eat
    let a ← choiceName choices
    colon
    let b ← keyed a
    match ← peekWord with
    | some '\x7d' =>
      eat
      return b
    | some _ => failHere .expectedValue
    | none => failHere .endOfObject
  | some '"' =>
    let a ← choiceName choices
    bare a
  | some _ => failAhead .expectedValue
  | none => failAhead .endOfValue

/-- Read a choice among names that have no fields. -/
def nameOf (choices : List (String × α)) : Read α :=
  choice choices (fun a => return a) fun a => do
    readNothing
    return a

/-- Read a text that holds one value. -/
def readAll (r : Read α) (text : String) : Except JsonError α :=
  let whole : Read α := do
    let a ← r
    match ← peekWord with
    | some _ => failAhead .trailingCharacters
    | none => return a
  match whole (Cursor.start text) with
  | .ok a _ => .ok a
  | .error e _ => .error e

end Json

end ProcessCompiler
