import ProcessCompiler.Graph.Node
/-!
# Programs

A process as a set of procedures, one for each node. A procedure acts and
then continues with the procedures of the nodes it leads to.
-/

namespace ProcessCompiler

/-- What a procedure does before it continues. -/
inductive Action where
  /-- Go on if the condition holds; otherwise leave for `otherwise`, or
  stop. -/
  | guard (condition : String) (otherwise : Option String)
  /-- Run the prelude, await the expression and keep its value under the
  key. With an error route, keep an error instead and leave for the route. -/
  | invoke (prelude? : Option String) (expression key : String) (errorRoute : Option String)
  /-- Run a script. An error goes as for an invocation. -/
  | run (script key : String) (errorRoute : Option String)
  /-- Fork a handler for each message with the tag, with the message under
  the key. -/
  | subscribe (tag key : String)
  /-- Send the value of an expression. -/
  | emit (expression : String)
  /-- Nothing: the node says nothing that could be done. -/
  | unimplemented
deriving DecidableEq, Repr

/-- Where a procedure goes on. -/
inductive Continuation where
  | halt
  | next (target : String)
  | fork (targets : List String)
deriving DecidableEq, Repr

namespace Continuation

/-- The continuation with the given targets, in their order. -/
def ofTargets : List String → Continuation
  | [] => halt
  | [target] => next target
  | targets => fork targets

/-- The targets of a continuation. -/
def targets : Continuation → List String
  | halt => []
  | next target => [target]
  | fork targets => targets

end Continuation

/-- The procedure of a node. -/
structure Procedure where
  name : String
  nodeId : String
  kind : ElementKind
  action : Action
  then_ : Continuation
deriving DecidableEq, Repr

/-- A process as procedures. -/
structure Program where
  /-- The modules that are imported, in the order they were found. -/
  imports : List String
  /-- The procedure that the entry procedure starts. -/
  entry : String
  procedures : List Procedure
deriving DecidableEq, Repr

namespace Program

/-- The first procedure with the given name. -/
def procedure? (p : Program) (name : String) : Option Procedure :=
  p.procedures.find? (·.name == name)

end Program

end ProcessCompiler
