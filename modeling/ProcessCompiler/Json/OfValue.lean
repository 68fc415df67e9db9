import ProcessCompiler.Json.Fault
import ProcessCompiler.Json.Value
/-!
# Records of JSON values

Records from values that were read before. Their faults have no place.
-/

namespace ProcessCompiler

namespace Json

/-- What a value is where something else was expected. -/
def asFound : Json → Found
  | null => .null
  | flag b => .flag b
  | integer n => .integer n
  | text s => .text s
  | list _ => .list
  | object _ => .object

/-- Refuse a value. -/
def refuseValue {α : Type} (j : Json) (expected : String) : Except Cause α :=
  .error (.wrongType j.asFound expected)

/-- The text that a value is. -/
def toText : Json → Except Cause String
  | text s => .ok s
  | j => refuseValue j "a string"

/-- The truth value that a value is. -/
def toFlag : Json → Except Cause Bool
  | flag b => .ok b
  | j => refuseValue j "a boolean"

/-- What a value is, or nothing. -/
def toOption {α : Type} (of : Json → Except Cause α) : Json → Except Cause (Option α)
  | null => .ok none
  | j => (of j).map some

/-- The list that a value is. -/
def toList {α : Type} (of : Json → Except Cause α) : Json → Except Cause (List α)
  | list items => items.mapM of
  | j => refuseValue j "a sequence"

/-- A field of a record. -/
structure ValueMember (α : Type) where
  name : String
  /-- An object may lack it. -/
  optional : Bool
  /-- Put its value into the record. -/
  put : α → Json → Except Cause α

variable {α : Type}

/-- Put the fields of an object into a record, given those that were put. -/
def putFields (members : List (ValueMember α)) :
    List String → α → List (String × Json) → Except Cause (List String × α)
  | seen, record, [] => .ok (seen, record)
  | seen, record, (key, value) :: rest =>
    match members.find? (·.name == key) with
    | none => putFields members seen record rest
    | some m =>
      if seen.contains key then .error (.duplicateField key)
      else do
        let record ← m.put record value
        putFields members (key :: seen) record rest

/-- The record of an object. -/
def ofFields (members : List (ValueMember α)) (blank : α) (fields : List (String × Json)) :
    Except Cause α := do
  let (seen, record) ← putFields members [] blank fields
  match members.find? fun m => !m.optional && !seen.contains m.name with
  | some m => .error (.missingField m.name)
  | none => return record

/-- Put the items of a list into a record, in the order of its fields. -/
def putItems (name : String) (length total : Nat) :
    Nat → List (ValueMember α) → α → List Json → Except Cause α
  | _, [], record, [] => .ok record
  | _, [], _, _ :: _ => .error (.wrongLength length "fewer elements in array")
  | i, _ :: _, _, [] =>
    .error (.wrongLength i (name ++ " with " ++ toString total ++ " elements"))
  | i, m :: rest, record, item :: items => do
    let record ← m.put record item
    putItems name length total (i + 1) rest record items

/-- The record that a value is. -/
def toRecord (name : String) (members : List (ValueMember α)) (blank : α) :
    Json → Except Cause α
  | object fields => ofFields members blank fields
  | list items => putItems name items.length members.length 0 members blank items
  | j => refuseValue j name

/-- The choice that a value makes, and the value that goes with it. -/
def toChoice (choices : List (String × α)) : Json → Except Cause (α × Option Json)
  | text name => find name none
  | object [(name, value)] => find name (some value)
  | object _ => .error (.wrongValue .object "map with a single key")
  | j => refuseValue j "string or map"
where
  find (name : String) (value : Option Json) : Except Cause (α × Option Json) :=
    match choices.lookup name with
    | some a => .ok (a, value)
    | none => .error (.unknownChoice name (choices.map (·.1)))

end Json

end ProcessCompiler
