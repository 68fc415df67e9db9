import ProcessCompiler.Markup.Content
import ProcessCompiler.Markup.Namespace
/-!
# Runs of text

The text that a run of characters stands for. Blanks at its ends are dropped,
then references are replaced; characters that stand for themselves are never
dropped. A run of blanks stands for nothing.
-/

namespace ProcessCompiler

namespace Markup

/-- A text without the blanks before it. -/
def dropSpace (cs : List Char) : List Char := cs.dropWhile isSpace

/-- A text without the blanks behind it. -/
def dropSpaceEnd (cs : List Char) : List Char := (cs.reverse.dropWhile isSpace).reverse

/-- A run without the blanks before it. -/
def trimRunStart : List TextPiece → List TextPiece
  | .plain cs :: rest =>
    let kept := dropSpace cs
    if kept.isEmpty then trimRunStart rest else .plain kept :: rest
  | run => run

/-- A run without the blanks behind it. -/
def trimRunEnd : List TextPiece → List TextPiece
  | [] => []
  | [.plain cs] => [.plain (dropSpaceEnd cs)]
  | p :: rest => p :: trimRunEnd rest

/-- The characters that a piece of text stands for. -/
def TextPiece.decode : TextPiece → Except EntityFault (List Char)
  | .plain cs => Markup.decode cs
  | .verbatim cs => .ok cs

/-- The characters that some pieces stand for. -/
def decodeRun : List TextPiece → Except EntityFault (List Char)
  | [] => .ok []
  | p :: rest => do
    let cs ← p.decode
    let more ← decodeRun rest
    return cs ++ more

/-- The text of a run, unless it is blank. With `trimStart` the blanks before
it are dropped. -/
def runText (trimStart : Bool) (run : List TextPiece) : Option (Except MarkupError String) :=
  match trimRunEnd (if trimStart then trimRunStart run else run) with
  | [] => none
  | [.plain []] => none
  | pieces =>
    match decodeRun pieces with
    | .ok cs => some (.ok (String.ofList cs))
    | .error f => some (.error (.entity f))

namespace Content

/-- The content begins with text. -/
def beginsWithText : List Content → Bool
  | .text run :: _ => !(trimRunStart run).isEmpty
  | _ => false

/-- The content is nothing but blanks. -/
def isBlank : List Content → Bool
  | [] => true
  | .text run :: rest => (trimRunStart run).isEmpty && isBlank rest
  | _ => false

/-- The tag of the element that the content begins with. -/
def firstTag? : List Content → Option (List Char)
  | .element _ tag _ :: _ => some tag
  | .text run :: rest => if (trimRunStart run).isEmpty then firstTag? rest else none
  | _ => none

mutual

/-- The fault that breaks content off, or the end of the text. -/
def breach : Content → Option (Option MarkupError)
  | .broken fault => some fault
  | .element _ _ children => breachAll children
  | .text _ | .doctype => none

/-- The first breach of some content. -/
def breachAll : List Content → Option (Option MarkupError)
  | [] => none
  | c :: rest => (breach c).or (breachAll rest)

end

mutual

/-- Read content for its faults only. The end of the text is no error of its
own. -/
def survey : Content → Except (Option MarkupError) Unit
  | .broken fault => .error fault
  | .element _ tag children =>
    match bindingFault? tag with
    | some f => .error (some (.binding f))
    | none => surveyAll children
  | .text run =>
    match runText true run with
    | some (.error e) => .error (some e)
    | _ => .ok ()
  | .doctype => .ok ()

/-- Read some content for its faults only. -/
def surveyAll : List Content → Except (Option MarkupError) Unit
  | [] => .ok ()
  | c :: rest => do
    survey c
    surveyAll rest

end

end Content

/-- The error of content that breaks off inside an element. -/
def breakError (owner : List Char) : Option MarkupError → MarkupError
  | some e => e
  | none => .nesting (.unclosed (String.ofList owner))

/-- The error of an element that stands where only text may. -/
def strayError (name tag : List Char) : MarkupError :=
  match bindingFault? tag with
  | some f => .binding f
  | none => .unexpectedElement (String.ofList name)

/-- End an element that holds nothing but the given text. -/
def endText (owner : List Char) (text : String) : List Content → Except MarkupError String
  | [] => .ok text
  | .element name tag _ :: _ => .error (strayError name tag)
  | .broken fault :: _ => .error (breakError owner fault)
  | .text _ :: rest | .doctype :: rest => endText owner text rest

/-- The text of an element that holds nothing else. -/
def textOf (owner : List Char) : List Content → Except MarkupError String
  | [] => .ok ""
  | .element name tag _ :: _ => .error (strayError name tag)
  | .broken fault :: _ => .error (breakError owner fault)
  | .doctype :: rest => textOf owner rest
  | .text run :: rest =>
    match runText true run with
    | none => textOf owner rest
    | some (.error e) => .error e
    | some (.ok text) => endText owner text rest

end Markup

end ProcessCompiler
