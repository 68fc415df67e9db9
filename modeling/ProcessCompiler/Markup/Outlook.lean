import ProcessCompiler.Markup.Run
/-!
# Outlooks

The bindings that hold while an element is read. The tag that comes next is
known by then, so its bindings count already. An element that is passed over
without being looked at is never left, so its own stay in force; one that was
read to its end to gather a list is judged by what comes behind it.
-/

namespace ProcessCompiler

namespace Markup

/-- Where the reading of a text stands. -/
structure Outlook where
  /-- The bindings of the elements that are open. -/
  here : Scope
  /-- The bindings behind the element that is read, if it was read to its end
  before. -/
  ahead : Option Scope

/-- Steps of reading, each with an outlook on the text. -/
abbrev Reading := StateT Outlook (Except MarkupError)

namespace Outlook

/-- Nothing was read. -/
def start : Outlook := ⟨.outermost, none⟩

/-- The bindings that an element is judged by. -/
def scopeOf (o : Outlook) (tag : List Char) (children : List Content) : Scope :=
  o.ahead.getD ((o.here.enter tag).enterAny (Content.firstTag? children))

/-- Go into an element. -/
def enter (o : Outlook) (tag : List Char) : Outlook := { o with here := o.here.enter tag }

/-- Come out of an element. -/
def leave (o : Outlook) : Outlook := ⟨o.here.leave, none⟩

/-- Read the innermost element to its end, given the tag right behind it. -/
def readAhead (o : Outlook) (following : Option (List Char)) : Outlook :=
  match o.ahead with
  | some _ => o
  | none => { o with ahead := some (o.here.leave.enterAny following) }

/-- Pass over an element. -/
def passOver (o : Outlook) (tag : List Char) (children : List Content) : Outlook :=
  if o.ahead.isSome || Content.isBlank children then o
  else { o with here := (o.here.enter tag).enterAny (Content.firstTag? children) }

end Outlook

/-- Meet an element. -/
def meet (tag : List Char) : Reading Unit :=
  match bindingFault? tag with
  | some f => throw (.binding f)
  | none => return

/-- Read what is inside an element. -/
def inside {α : Type} (tag : List Char) (read : Reading α) : Reading α := do
  if (← get).ahead.isSome then read
  else do
    modify (·.enter tag)
    let a ← read
    modify Outlook.leave
    return a

/-- A child has no value: its own tag says so, or that of its owner. -/
def isVoid (owner tag : List Char) (children : List Content) : Reading Bool := do
  let scope := (← get).scopeOf tag children
  return scope.marksVoid owner || scope.marksVoid tag

/-- Pass over an element that has no value or fills no field. -/
def passOver (name tag : List Char) (children : List Content) : Reading Unit := do
  match Content.firstTag? children with
  | some inner => meet inner
  | none => pure ()
  match Content.breachAll children with
  | some fault => throw (breakError name fault)
  | none => modify (·.passOver tag children)

end Markup

end ProcessCompiler
