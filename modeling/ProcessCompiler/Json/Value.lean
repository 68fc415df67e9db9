import ProcessCompiler.Text.Quoted
/-!
# JSON values

Values and their texts, compact and over several lines.
-/

namespace ProcessCompiler

open Text

/-- A JSON value. The fields of an object have an order. -/
inductive Json where
  | null
  | flag (b : Bool)
  | integer (n : Int)
  | text (s : String)
  | list (items : List Json)
  | object (fields : List (String × Json))
deriving Inhabited

namespace Json

/-- A text or nothing. -/
def ofOption : Option String → Json
  | some s => text s
  | none => null

/-- A control character by its number. -/
def controlEscape (c : Char) : List Char :=
  let digits := hexadecimal c.toNat
  ['\\', 'u'] ++ List.replicate (4 - digits.length) '0' ++ digits

/-- A character of a string. -/
def escapeChar (c : Char) : List Char :=
  if c == '"' then ['\\', '"']
  else if c == '\\' then ['\\', '\\']
  else if c == '\n' then ['\\', 'n']
  else if c == '\r' then ['\\', 'r']
  else if c == '\t' then ['\\', 't']
  else if c.toNat == 8 then ['\\', 'b']
  else if c.toNat == 12 then ['\\', 'f']
  else if c.toNat < 0x20 then controlEscape c
  else [c]

/-- The text of a string. -/
def stringText (s : String) : String :=
  String.ofList ('"' :: s.toList.flatMap escapeChar ++ ['"'])

/-- Texts with commas between them. -/
def commas (items : List String) : String := ",".intercalate items

mutual

/-- The text of a value without blanks. -/
def compact : Json → String
  | null => "null"
  | flag b => if b then "true" else "false"
  | integer n => toString n
  | text s => stringText s
  | list items => "[" ++ commas (compactItems items) ++ "]"
  | object fields => "\x7b" ++ commas (compactFields fields) ++ "\x7d"

/-- The texts of items. -/
def compactItems : List Json → List String
  | [] => []
  | j :: rest => compact j :: compactItems rest

/-- The texts of fields. -/
def compactFields : List (String × Json) → List String
  | [] => []
  | (name, j) :: rest => (stringText name ++ ":" ++ compact j) :: compactFields rest

end

/-- Two blanks for each level. -/
def indentText (level : Nat) : String := String.ofList (List.replicate (2 * level) ' ')

/-- Items on lines of their own inside brackets. -/
def block (level : Nat) (opening closing : String) (items : List String) : String :=
  if items.isEmpty then opening ++ closing
  else
    opening ++ "\n" ++
    ",\n".intercalate (items.map fun item => indentText (level + 1) ++ item) ++
    "\n" ++ indentText level ++ closing

mutual

/-- The text of a value over several lines, at a level of indentation. -/
def prettyAt (level : Nat) : Json → String
  | list items => block level "[" "]" (prettyItems (level + 1) items)
  | object fields => block level "\x7b" "\x7d" (prettyFields (level + 1) fields)
  | null => "null"
  | flag b => if b then "true" else "false"
  | integer n => toString n
  | text s => stringText s

/-- The texts of items. -/
def prettyItems (level : Nat) : List Json → List String
  | [] => []
  | j :: rest => prettyAt level j :: prettyItems level rest

/-- The texts of fields. -/
def prettyFields (level : Nat) : List (String × Json) → List String
  | [] => []
  | (name, j) :: rest =>
    (stringText name ++ ": " ++ prettyAt level j) :: prettyFields level rest

end

/-- The text of a value over several lines. -/
def pretty (j : Json) : String := prettyAt 0 j

end Json

end ProcessCompiler
