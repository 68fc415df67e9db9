import ProcessCompiler.Text.Chars
/-!
# Action tags

The text of a message start names the message it waits for, in the form
`@scope/name`.
-/

namespace ProcessCompiler

open Text

namespace Tag

/-- A character of a tag's scope. -/
def isScopeChar (c : Char) : Bool := isPlainWord c || c == '-'

/-- The text is a tag's name. -/
def isName (s : List Char) : Bool := !s.isEmpty && s.all isPlainWord

/-- The text is a tag behind its `@`. -/
def isTail (s : List Char) : Bool :=
  match s.dropWhile isScopeChar with
  | '/' :: name => !(s.takeWhile isScopeChar).isEmpty && isName name
  | _ => false

/-- The text is an action tag: `@`, a scope of word characters and dashes,
`/`, and a name of word characters. -/
def isTag (s : String) : Bool :=
  match s.toList with
  | '@' :: rest => isTail rest
  | _ => false

end Tag

end ProcessCompiler
