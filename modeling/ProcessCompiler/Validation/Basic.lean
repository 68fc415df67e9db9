import ProcessCompiler.Graph.Resolution
import ProcessCompiler.Snippet.Invocation
import ProcessCompiler.Validation.Tag
/-!
# Validation

A diagram is accepted if it resolves, every node has the text it needs and
that text fits into its harness, there is exactly one start event, and a
message start names its message. Otherwise it is rejected with the first
rule that it breaks.
-/

namespace ProcessCompiler

open Grammar

/-- What is wrong with a node's text. -/
inductive TextFault where
  | grammar (e : SyntaxError)
  /-- A task's text does not end in an expression. -/
  | noTail
deriving DecidableEq, Repr

/-- Why a diagram is rejected. -/
inductive Rejection where
  | structure_ (f : Fault)
  | missingExpression (node : String)
  | invalidExpression (node : String) (fault : TextFault)
  | noStartEvent
  | multipleStartEvents
  | missingActionType
  | malformedActionType (tag : String)
deriving DecidableEq, Repr

namespace TextFault

/-- The wording of a text's fault. -/
def message : TextFault → String
  | grammar e => e.message
  | noTail => "task must end with an expression to await"

end TextFault

namespace Rejection

/-- The wording of a rejection. -/
def message : Rejection → String
  | structure_ f => f.message
  | missingExpression node => node ++ " has no text annotation"
  | invalidExpression node fault => node ++ " : " ++ fault.message
  | noStartEvent => "no start event"
  | multipleStartEvents => "multiple start events"
  | missingActionType => "message start event has no action type definition"
  | malformedActionType _ => "message start event has incorrect action type definition"

end Rejection

/-- The outcome of a validation, with the reason of a rejection. -/
structure Verdict where
  outcome : Bool
  reason : Option String
deriving DecidableEq, Repr

/-- A graph that was accepted, with its start event. -/
structure Validated where
  graph : Graph
  start : Node

namespace Validation

/-- Check a text against its harness, and that a task's text ends in an
expression. -/
def checkText (kind : NodeKind) (text : String) : Except TextFault Unit :=
  match kind.harness? with
  | none => .ok ()
  | some h =>
    match h.parse text with
    | .error e => .error (.grammar e)
    | .ok _ =>
      if kind.element = .task && (Invocation.split text).isNone then .error .noTail else .ok ()

/-- Check that a node has the text it needs. -/
def checkNode (n : Node) : Except Rejection Unit :=
  match n.expression with
  | none => if n.kind.isPlainEvent then .ok () else .error (.missingExpression n.id)
  | some text => (checkText n.kind text).mapError (.invalidExpression n.id)

/-- The one start event of a graph. -/
def findStart (g : Graph) : Except Rejection Node :=
  match g.startEvents with
  | [] => .error .noStartEvent
  | [start] => .ok start
  | _ => .error .multipleStartEvents

/-- Check that a start event that waits for a message names it. -/
def checkStart (start : Node) : Except Rejection Unit :=
  if start.kind.isMessageEvent then
    match start.expression with
    | none => .error .missingActionType
    | some tag => if Tag.isTag tag then .ok () else .error (.malformedActionType tag)
  else .ok ()

end Validation

namespace Diagram

/-- Accept a diagram, or reject it with the first rule that it breaks. -/
def validate (s : Strictness) (d : Diagram) : Except Rejection Validated := do
  let g ← (d.graph s).mapError .structure_
  g.toList.forM Validation.checkNode
  let start ← Validation.findStart g
  Validation.checkStart start
  return ⟨g, start⟩

end Diagram

namespace Verdict

/-- The verdict on a validation. -/
def of {α : Type} : Except Rejection α → Verdict
  | .ok _ => ⟨true, none⟩
  | .error r => ⟨false, some r.message⟩

end Verdict

/-- The verdict on a diagram. -/
def Diagram.verdict (s : Strictness) (d : Diagram) : Verdict := .of (d.validate s)

end ProcessCompiler
