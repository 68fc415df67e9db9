import ProcessCompiler.Decimal.Shortest
import ProcessCompiler.Text.Quoted
/-!
# JSON faults

Why a text is not the JSON of a value, and where: the line and the bytes of
it that were read.
-/

namespace ProcessCompiler

open Text

namespace Json

/-- What stands where something else was expected. -/
inductive Found where
  | null
  | flag (b : Bool)
  | integer (n : Int)
  /-- A number with a fraction or an exponent, or an integer of more than 64 bits. -/
  | real (negative : Bool) (magnitude : Decimal.Double)
  | text (s : String)
  | list
  | object
  /-- The bare name of a choice that has fields. -/
  | bareName
deriving DecidableEq, Repr

/-- The causes of JSON errors. -/
inductive Cause where
  | endOfList
  | endOfObject
  | endOfString
  | endOfValue
  | expectedColon
  | expectedListComma
  | expectedObjectComma
  | expectedIdent
  | expectedValue
  | invalidEscape
  | invalidNumber
  | numberOutOfRange
  | controlCharacter
  | keyNotString
  | loneSurrogate
  | endOfHexEscape
  | trailingComma
  | trailingCharacters
  | wrongType (found : Found) (expected : String)
  | wrongValue (found : Found) (expected : String)
  | wrongLength (length : Nat) (expected : String)
  | unknownChoice (name : String) (choices : List String)
  | missingField (field : String)
  | duplicateField (field : String)
deriving DecidableEq, Repr

/-- A place in a text. -/
structure Place where
  line : Nat
  column : Nat
deriving DecidableEq, Repr

end Json

/-- Why a text is not the JSON of a value. -/
structure JsonError where
  cause : Json.Cause
  /-- Where, if that is settled. -/
  place : Option Json.Place
deriving DecidableEq, Repr

namespace Json

/-- The wording of what was found. -/
def Found.message : Found → String
  | null => "null"
  | flag b => "boolean `" ++ (if b then "true" else "false") ++ "`"
  | integer n => "integer `" ++ toString n ++ "`"
  | real negative x => "floating point `" ++ (if negative then "-" else "") ++ x.text ++ "`"
  | text s => "string " ++ quoted s
  | list => "sequence"
  | object => "map"
  | bareName => "unit variant"

/-- A name between backticks. -/
def ticked (name : String) : String := "`" ++ name ++ "`"

/-- The wording of the choices there are. -/
def choicesMessage : List String → String
  | [] => "there are no variants"
  | [a] => "expected " ++ ticked a
  | [a, b] => "expected " ++ ticked a ++ " or " ++ ticked b
  | names => "expected one of " ++ ", ".intercalate (names.map ticked)

/-- The wording of a cause. -/
def Cause.message : Cause → String
  | endOfList => "EOF while parsing a list"
  | endOfObject => "EOF while parsing an object"
  | endOfString => "EOF while parsing a string"
  | endOfValue => "EOF while parsing a value"
  | expectedColon => "expected `:`"
  | expectedListComma => "expected `,` or `]`"
  | expectedObjectComma => "expected `,` or `\x7d`"
  | expectedIdent => "expected ident"
  | expectedValue => "expected value"
  | invalidEscape => "invalid escape"
  | invalidNumber => "invalid number"
  | numberOutOfRange => "number out of range"
  | controlCharacter => "control character (\\u0000-\\u001F) found while parsing a string"
  | keyNotString => "key must be a string"
  | loneSurrogate => "lone leading surrogate in hex escape"
  | endOfHexEscape => "unexpected end of hex escape"
  | trailingComma => "trailing comma"
  | trailingCharacters => "trailing characters"
  | wrongType found expected => "invalid type: " ++ found.message ++ ", expected " ++ expected
  | wrongValue found expected => "invalid value: " ++ found.message ++ ", expected " ++ expected
  | wrongLength n expected => "invalid length " ++ toString n ++ ", expected " ++ expected
  | unknownChoice name choices =>
    "unknown variant " ++ ticked name ++ ", " ++ choicesMessage choices
  | missingField field => "missing field " ++ ticked field
  | duplicateField field => "duplicate field " ++ ticked field

end Json

/-- The wording of an error. -/
def JsonError.message (e : JsonError) : String :=
  match e.place with
  | some p =>
    e.cause.message ++ " at line " ++ toString p.line ++ " column " ++ toString p.column
  | none => e.cause.message

end ProcessCompiler
