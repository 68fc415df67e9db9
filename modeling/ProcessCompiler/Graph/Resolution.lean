import ProcessCompiler.Diagram
import ProcessCompiler.Graph.Basic
/-!
# Resolution

From a diagram to its graph. The records of the five lists become nodes, in
the order of the lists: a flow's name becomes the node it leads to, and a
node without a text of its own takes that of the note tied to it. What
cannot be resolved is a fault. A strict resolution ends with its first
fault; a lenient one passes over faults and keeps a list of them.
-/

namespace ProcessCompiler

open Text

/-- What happens to a fault. -/
inductive Strictness where
  | lenient
  | strict
deriving DecidableEq, Repr

/-- The faults of a diagram. -/
inductive Fault where
  /-- A node names a flow that does not exist. -/
  | danglingFlow (node flow : String)
  /-- A node is tied to a note that does not exist. -/
  | missingNote (node annotation : String)
  /-- An event has a default flow. -/
  | defaultOnEvent (node : String)
  /-- Two records have one name. -/
  | duplicateNode (node : String)
deriving DecidableEq, Repr

namespace Fault

/-- The wording of a fault. -/
def message : Fault → String
  | danglingFlow node flow =>
    "no sequence flow '" ++ flow ++ "' for outgoing edge of node '" ++ node ++ "'"
  | missingNote node annotation =>
    "node '" ++ node ++ "' is associated with unknown text annotation '" ++ annotation ++ "'"
  | defaultOnEvent node => "event '" ++ node ++ "' cannot have a default flow"
  | duplicateNode node => "duplicate node id: " ++ node

end Fault

/-- A record of any of the five lists. -/
structure NodeRecord where
  kind : ElementKind
  id : String
  name : Option String
  defaultFlow : Option String
  outgoing : List String
  message : Bool
  /-- The text that the record itself holds. -/
  inline : Option String
deriving DecidableEq, Repr

namespace NodeRecord

/-- The record of an event. Its tag counts only if it has a message. -/
def ofEvent (kind : ElementKind) (e : EventRecord) : NodeRecord where
  kind
  id := e.id
  name := e.name
  defaultFlow := e.defaultFlow
  outgoing := e.outgoing
  message := e.message.isSome
  inline := if e.message.isSome then e.actionType else none

/-- The record of a task. -/
def ofTask (t : TaskRecord) : NodeRecord :=
  ⟨.task, t.id, t.name, t.defaultFlow, t.outgoing, false, t.call⟩

/-- The record of a service task. -/
def ofServiceTask (t : ServiceTaskRecord) : NodeRecord :=
  ⟨.serviceTask, t.id, t.name, t.defaultFlow, t.outgoing, false, t.script⟩

/-- The record of a gateway. -/
def ofGateway (g : GatewayRecord) : NodeRecord :=
  ⟨.exclusiveGateway, g.id, g.name, g.defaultFlow, g.outgoing, false, g.condition⟩

end NodeRecord

/-- The records of a diagram, list by list. -/
def Diagram.records (d : Diagram) : List NodeRecord :=
  d.startEvents.map (.ofEvent .startEvent) ++ d.endEvents.map (.ofEvent .endEvent) ++
    d.tasks.map .ofTask ++ d.serviceTasks.map .ofServiceTask ++ d.gateways.map .ofGateway

namespace Resolution

/-- What the records of a diagram refer to, by name. -/
structure Indexes where
  /-- Where each flow leads. -/
  targets : Index String
  /-- The note that each node is tied to. -/
  notes : Index String
  /-- The text of each note. -/
  texts : Index (Option String)

/-- The indexes of a diagram. The first flow, note or line of a name wins. -/
def indexes (d : Diagram) : Indexes where
  targets := .ofList (d.flows.map fun f => (f.id, f.target))
  notes := .ofList (d.associations.map fun a => (a.source, a.target))
  texts := .ofList (d.annotations.map fun a => (a.id, a.text))

/-- A computation that may meet faults: it ends with one, or has a list of
those it passed over. -/
abbrev Resolve (α : Type) := StateT (List Fault) (Except Fault) α

/-- Meet a fault. -/
def degrade (s : Strictness) (f : Fault) : Resolve Unit :=
  match s with
  | .strict => throw f
  | .lenient => modify (· ++ [f])

variable (s : Strictness) (ix : Indexes)

/-- The text of a record: its own, or that of its note. -/
def resolveText (r : NodeRecord) : Resolve (Option String) :=
  match r.inline.bind nonBlank? with
  | some text => return some text
  | none =>
    match ix.notes.get? r.id with
    | none => return none
    | some note =>
      match ix.texts.get? note with
      | some text => return text.bind nonBlank?
      | none => do
        degrade s (.missingNote r.id note)
        return none

/-- The targets of a record's flows, and the target of its default flow. -/
def resolveFlows (r : NodeRecord) : List String → Resolve (List String × Option String)
  | [] => return ([], none)
  | flow :: rest => do
    let flow := trimmed flow
    match ix.targets.get? flow with
    | none =>
      degrade s (.danglingFlow r.id flow)
      resolveFlows r rest
    | some target =>
      let (outgoing, default) ← resolveFlows r rest
      if r.defaultFlow = some flow then return (outgoing, default.or (some target))
      else return (target :: outgoing, default)

/-- The kind of a record's node, given its default target. -/
def resolveKind (r : NodeRecord) (default : Option String) : Resolve NodeKind :=
  match r.kind with
  | .startEvent => do
    if default.isSome then degrade s (.defaultOnEvent r.id)
    return .startEvent r.message
  | .endEvent => do
    if default.isSome then degrade s (.defaultOnEvent r.id)
    return .endEvent r.message
  | .task => return .task default
  | .serviceTask => return .serviceTask default
  | .exclusiveGateway => return .exclusiveGateway default

/-- The node of a record. -/
def resolveNode (r : NodeRecord) : Resolve Node := do
  let text ← resolveText s ix r
  let (outgoing, default) ← resolveFlows s ix r r.outgoing
  let kind ← resolveKind s r default
  return ⟨r.id, r.name, kind, text, outgoing⟩

/-- Register the nodes of some records. -/
def resolveRecords : List NodeRecord → Graph → Resolve Graph
  | [], g => return g
  | r :: rest, g => do
    let node ← resolveNode s ix r
    let (g, inserted) := g.insert node
    if !inserted then degrade s (.duplicateNode r.id)
    resolveRecords rest g

end Resolution

namespace Diagram

/-- The graph of a diagram with the faults that were passed over, or the
fault that ended the resolution. -/
def resolve (s : Strictness) (d : Diagram) : Except Fault (Graph × List Fault) :=
  (Resolution.resolveRecords s (Resolution.indexes d) d.records .empty).run []

/-- The graph of a diagram, or the fault that ended its resolution. -/
def graph (s : Strictness) (d : Diagram) : Except Fault Graph :=
  (d.resolve s).map (·.1)

end Diagram

end ProcessCompiler
