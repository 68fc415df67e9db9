import ProcessCompiler.Markup.Piece
/-!
# Content

The pieces of a text as nested elements. A text that breaks off, or whose
tags do not nest, still has content up to there, so that whoever reads it
meets the faults of a text in their order.
-/

namespace ProcessCompiler

namespace Markup

/-- What an element holds. -/
inductive Content where
  /-- Characters, in the pieces that comments and the like cut them into. -/
  | text (run : List TextPiece)
  /-- An element, with all between the brackets of its tag. -/
  | element (name tag : List Char) (children : List Content)
  | doctype
  /-- Nothing can be read from here on, because of a fault or because the
  text ends. -/
  | broken (fault : Option MarkupError)

/-- An element. -/
structure Element where
  name : List Char
  tag : List Char
  children : List Content
  /-- The tag of the element right behind it, if one stands there. -/
  following : Option (List Char)

namespace Content

/-- Add a piece of text behind content that is given last first. -/
def pushText (p : TextPiece) : List Content → List Content
  | .text run :: before => .text (run ++ [p]) :: before
  | before => .text [p] :: before

/-- An element that was begun, with what stands before it in its parent, last
first. -/
structure Frame where
  name : List Char
  tag : List Char
  before : List Content

/-- The name of a tag, given what stands between its brackets. -/
def tagName (tag : List Char) : List Char := tag.takeWhile (!isSpace ·)

/-- Close some elements, given what the innermost holds, last first. -/
def close : List Frame → List Content → List Content
  | [], before => before.reverse
  | f :: outer, before => close outer (.element f.name f.tag before.reverse :: f.before)

/-- Nest the rest of a text, given the elements that are open and what the
innermost holds so far, last first. `fault` is what follows the last piece. -/
def nestFrom (fault : Option MarkupError) :
    List Frame → List Content → List Piece → List Content
  | frames, before, [] => close frames (.broken fault :: before)
  | frames, before, .text p :: rest => nestFrom fault frames (pushText p before) rest
  | frames, before, .doctype :: rest => nestFrom fault frames (.doctype :: before) rest
  | frames, before, .lone tag :: rest =>
    nestFrom fault frames (.element (tagName tag) tag [] :: before) rest
  | frames, before, .opening tag :: rest =>
    nestFrom fault (⟨tagName tag, tag, before⟩ :: frames) [] rest
  | [], before, .closing name :: _ =>
    close [] (.broken (some (.nesting (.unmatched (String.ofList name)))) :: before)
  | f :: outer, before, .closing name :: rest =>
    if f.name = name then
      nestFrom fault outer (.element f.name f.tag before.reverse :: f.before) rest
    else
      close (f :: outer) (.broken (some (.nesting
        (.mismatched (String.ofList f.name) (String.ofList name)))) :: before)

/-- The content of a text. -/
def ofText (text : String) : List Content :=
  let ps := pieces text.toList
  nestFrom ps.fault [] [] ps.items

end Content

end Markup

end ProcessCompiler
