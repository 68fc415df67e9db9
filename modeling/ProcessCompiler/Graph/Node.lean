import ProcessCompiler.Snippet.Harness
import ProcessCompiler.Text.Trim
/-!
# Nodes

A node of a process, with every reference turned into the name of the node
it leads to.
-/

namespace ProcessCompiler

open Text

/-- The kinds of element a node is drawn as. -/
inductive ElementKind where
  | startEvent
  | endEvent
  | task
  | serviceTask
  | exclusiveGateway
deriving DecidableEq, Repr

namespace ElementKind

/-- All kinds, in the order in which nodes are registered. -/
def all : List ElementKind := [startEvent, endEvent, task, serviceTask, exclusiveGateway]

/-- The name of the element. -/
def text : ElementKind → String
  | startEvent => "startEvent"
  | endEvent => "endEvent"
  | task => "task"
  | serviceTask => "serviceTask"
  | exclusiveGateway => "exclusiveGateway"

end ElementKind

/-- What a node is. Only events wait for messages, and only the others have
a default target. -/
inductive NodeKind where
  | startEvent (message : Bool)
  | endEvent (message : Bool)
  /-- `errorRoute` is where a failed invocation leads. -/
  | task (errorRoute : Option String)
  /-- `errorRoute` is where a failed script leads. -/
  | serviceTask (errorRoute : Option String)
  /-- `otherwise` is where a condition that does not hold leads. -/
  | exclusiveGateway (otherwise : Option String)
deriving DecidableEq, Repr

namespace NodeKind

/-- The element a node is drawn as. -/
def element : NodeKind → ElementKind
  | startEvent _ => .startEvent
  | endEvent _ => .endEvent
  | task _ => .task
  | serviceTask _ => .serviceTask
  | exclusiveGateway _ => .exclusiveGateway

/-- Where the node leads when it fails or its condition does not hold. -/
def defaultTarget : NodeKind → Option String
  | task route | serviceTask route => route
  | exclusiveGateway otherwise => otherwise
  | startEvent _ | endEvent _ => none

/-- An event that waits for a message or sends one. -/
def isMessageEvent : NodeKind → Bool
  | startEvent message | endEvent message => message
  | _ => false

/-- An event without a message, which alone needs no text. -/
def isPlainEvent : NodeKind → Bool
  | startEvent message | endEvent message => !message
  | _ => false

/-- What the node's text has to fit into, if it is code. -/
def harness? : NodeKind → Option Harness
  | exclusiveGateway _ => some .condition
  | task _ | serviceTask _ => some .statements
  | endEvent true => some .assignment
  | startEvent _ | endEvent false => none

end NodeKind

/-- A node of a process. -/
structure Node where
  id : String
  name : Option String
  kind : NodeKind
  /-- The text the node was given, from whichever source. -/
  text : Option String
  /-- The ordinary targets in the order they were recorded. -/
  outgoing : List String
deriving DecidableEq, Repr

namespace Node

/-- The node's text, where blank text counts as none. -/
def expression (n : Node) : Option String := n.text.bind nonBlank?

/-- The key under which the node's result is kept. -/
def contextKey (n : Node) : String := n.name.getD n.id

/-- The node is a start event. -/
def isStart (n : Node) : Bool := n.kind.element = .startEvent

end Node

end ProcessCompiler
