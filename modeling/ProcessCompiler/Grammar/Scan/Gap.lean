import ProcessCompiler.Text.Chars
/-!
# Gaps between tokens

Blanks and comments separate tokens and mean nothing else. A comment runs to
the end of its line, or from `/*` to the matching `*/`, with comments nested
inside it. Four forms are no gaps: a comment that begins with `///`, `//!`,
`/**` or `/*!` documents what follows and is read as an attribute.
-/

namespace ProcessCompiler

namespace Grammar

namespace Scan

open Text

/-- A blank of the target language: white space, or a mark that sets the
direction of writing. -/
def isGap (c : Char) : Bool := isBlank c || c.toNat == 0x200E || c.toNat == 0x200F

/-- Where a scan stands in a gap. -/
inductive GapState where
  | blank
  /-- In a comment that ends with its line. -/
  | line
  /-- In a comment inside the given number of further ones. -/
  | block (depth : Nat)
  /-- Before the second character of a mark that opens or closes a comment. -/
  | second (next : GapState)
deriving DecidableEq, Repr

/-- A comment that documents begins behind its `//`; four slashes begin none. -/
def isDocLine (rest : List Char) : Bool :=
  rest.head? == some '!' || (rest.head? == some '/' && rest.tail.head? != some '/')

/-- A comment that documents begins behind its `/*`; one that is empty or
begins with a further star does not. -/
def isDocBlock (rest : List Char) : Bool :=
  rest.head? == some '!' ||
    (rest.head? == some '*' && rest.tail.head? != some '*' && rest.tail.head? != some '/')

/-- A character and the one behind it make a mark. -/
def isMark (a b c : Char) (rest : List Char) : Bool := c == a && rest.head? == some b

/-- What one character does to the scan of a gap, given the text behind it:
it moves the scan to a state, or no gap goes on there. -/
def gapStep (c : Char) (rest : List Char) : GapState → Option GapState
  | .blank =>
    if isMark '/' '/' c rest then if isDocLine rest.tail then none else some .line
    else if isMark '/' '*' c rest then
      if isDocBlock rest.tail then none else some (.second (.block 0))
    else if isGap c then some .blank else none
  | .line => some (if c == '\n' then .blank else .line)
  | .block depth =>
    if isMark '/' '*' c rest then some (.second (.block (depth + 1)))
    else if isMark '*' '/' c rest then
      some (.second (match depth with
        | 0 => .blank
        | depth + 1 => .block depth))
    else some (.block depth)
  | .second next => some next

/-- What follows a gap; none if a comment has no end. -/
def gapFrom : GapState → List Char → Option (List Char)
  | s, [] => if s = .blank || s = .line then some [] else none
  | s, c :: rest =>
    match gapStep c rest s with
    | some s' => gapFrom s' rest
    | none => some (c :: rest)

/-- What follows the gap at the start of a text. -/
def gap (cs : List Char) : Option (List Char) := gapFrom .blank cs

/-- The text of a comment up to its `*/`, and what follows. -/
def blockText (depth : Nat) : List Char → Option (List Char × List Char)
  | '/' :: '*' :: rest =>
    (blockText (depth + 1) rest).map fun (s, r) => ('/' :: '*' :: s, r)
  | '*' :: '/' :: rest =>
    match depth with
    | 0 => some ([], rest)
    | depth + 1 => (blockText depth rest).map fun (s, r) => ('*' :: '/' :: s, r)
  | c :: rest => (blockText depth rest).map fun (s, r) => (c :: s, r)
  | [] => none

/-- The text of a comment up to the end of its line, and what follows. -/
def lineText : List Char → List Char × List Char
  | '\r' :: '\n' :: rest => ([], '\n' :: rest)
  | '\n' :: rest => ([], '\n' :: rest)
  | c :: rest => let (s, r) := lineText rest; (c :: s, r)
  | [] => ([], [])

/-- Every carriage return stands before a line feed. -/
def noBareReturn : List Char → Bool
  | '\r' :: '\n' :: rest => noBareReturn rest
  | '\r' :: _ => false
  | _ :: rest => noBareReturn rest
  | [] => true

/-- A comment that documents: whether it is about what encloses it, its
text, and what follows. -/
def docComment : List Char → Option (Bool × List Char × List Char)
  | '/' :: '/' :: '!' :: rest => checked true (lineText rest)
  | '/' :: '*' :: '!' :: rest => (blockText 0 rest).bind (checked true)
  | '/' :: '/' :: '/' :: '/' :: _ => none
  | '/' :: '/' :: '/' :: rest => checked false (lineText rest)
  | '/' :: '*' :: '*' :: '*' :: _ => none
  | '/' :: '*' :: '*' :: rest => (blockText 0 rest).bind (checked false)
  | _ => none
where
  checked (inner : Bool) (found : List Char × List Char) : Option (Bool × List Char × List Char) :=
    if noBareReturn found.1 then some (inner, found.1, found.2) else none

end Scan

end Grammar

end ProcessCompiler
