import ProcessCompiler.Text.Chars
/-!
# Trimming and lines

Cutting blanks off the ends of a text, and cutting a text into lines. The
functions work on character lists, with a form on strings beside each.
-/

namespace ProcessCompiler

namespace Text

/-- The text without the characters of a class at its end. -/
def dropEndWhile (p : Char → Bool) (s : List Char) : List Char :=
  (s.reverse.dropWhile p).reverse

/-- The text without blanks at its start. -/
def trimStart (s : List Char) : List Char := s.dropWhile isBlank

/-- The text without blanks at its end. -/
def trimEnd (s : List Char) : List Char := dropEndWhile isBlank s

/-- The text without blanks at either end. -/
def trim (s : List Char) : List Char := trimEnd (trimStart s)

/-- A string without blanks at either end. -/
def trimmed (s : String) : String := String.ofList (trim s.toList)

/-- A string that holds more than blanks, without those at its ends. -/
def nonBlank? (s : String) : Option String :=
  let t := trimmed s
  if t.isEmpty then none else some t

/-- A line without the carriage return that ends it. -/
def dropReturn (line : List Char) : List Char :=
  match line.reverse with
  | '\r' :: rest => rest.reverse
  | _ => line

/-- The lines of a text, where `current` holds the characters of the line
so far, the last one first. A final line feed starts no further line. -/
def linesFrom (current : List Char) : List Char → List (List Char)
  | [] => if current.isEmpty then [] else [current.reverse]
  | '\n' :: rest => dropReturn current.reverse :: linesFrom [] rest
  | c :: rest => linesFrom (c :: current) rest

/-- The lines of a text. A line feed ends a line, together with one
carriage return right before it. -/
def lines (s : List Char) : List (List Char) := linesFrom [] s

end Text

end ProcessCompiler
