/-!
# Diagrams

A process as its author drew it: records of nodes in five lists, the flows
between them, and notes with the lines that tie them to nodes. Nothing is
resolved yet, so a record may name a flow or a note that does not exist.
-/

namespace ProcessCompiler

/-- The mark that makes an event wait for a message or send one. -/
structure MessageDefinition where
  id : Option String
deriving DecidableEq, Repr

/-- A start or end event. -/
structure EventRecord where
  id : String
  name : Option String
  /-- The flow that is marked as the default one. -/
  defaultFlow : Option String
  /-- The tag of the message, such as `@orders/created`. -/
  actionType : Option String
  message : Option MessageDefinition
  /-- The flows that leave the event, in document order. -/
  outgoing : List String
deriving DecidableEq, Repr

/-- A task, which invokes an asynchronous effect. -/
structure TaskRecord where
  id : String
  name : Option String
  defaultFlow : Option String
  call : Option String
  outgoing : List String
deriving DecidableEq, Repr

/-- A service task, which runs a script. -/
structure ServiceTaskRecord where
  id : String
  name : Option String
  defaultFlow : Option String
  script : Option String
  outgoing : List String
deriving DecidableEq, Repr

/-- A gateway, which goes on if its condition holds. -/
structure GatewayRecord where
  id : String
  name : Option String
  defaultFlow : Option String
  condition : Option String
  outgoing : List String
deriving DecidableEq, Repr

/-- A directed edge with a name of its own. -/
structure SequenceFlow where
  id : String
  source : String
  target : String
deriving DecidableEq, Repr

/-- A note. Its text is what a node does, if the node does not say so
itself. -/
structure TextAnnotation where
  id : String
  text : Option String
deriving DecidableEq, Repr

/-- A line from a node to a note. -/
structure Association where
  id : Option String
  source : String
  target : String
deriving DecidableEq, Repr

/-- A process as it was drawn. -/
structure Diagram where
  id : Option String
  startEvents : List EventRecord
  endEvents : List EventRecord
  tasks : List TaskRecord
  serviceTasks : List ServiceTaskRecord
  gateways : List GatewayRecord
  flows : List SequenceFlow
  annotations : List TextAnnotation
  associations : List Association
deriving DecidableEq, Repr

namespace Diagram

/-- The diagram with nothing in it. -/
def empty : Diagram where
  id := none
  startEvents := []
  endEvents := []
  tasks := []
  serviceTasks := []
  gateways := []
  flows := []
  annotations := []
  associations := []

/-- The number of node records. -/
def nodeCount (d : Diagram) : Nat :=
  d.startEvents.length + d.endEvents.length + d.tasks.length + d.serviceTasks.length +
    d.gateways.length

end Diagram

end ProcessCompiler
