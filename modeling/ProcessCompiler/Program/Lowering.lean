import ProcessCompiler.Program.Basic
import ProcessCompiler.Program.Config
import ProcessCompiler.Program.Names
import ProcessCompiler.Snippet.Invocation
import ProcessCompiler.Snippet.Modules
/-!
# Lowering

From a graph to a program: one procedure for each node, in the order of the
nodes, with targets turned into procedure names.
-/

namespace ProcessCompiler

open Grammar Text

namespace Lowering

/-- The texts of a graph's tasks, in the order of the nodes. -/
def taskTexts (nodes : List Node) : List String :=
  (nodes.filter fun n => n.kind.element = .task).filterMap (·.expression)

/-- The modules that tasks use, one for each statement that uses one. A text
that cannot be read uses none. -/
def usedModules (nodes : List Node) : List String :=
  (taskTexts nodes).flatMap fun text =>
    match referencedModules .statements text with
    | .ok modules => modules
    | .error _ => []

/-- Why the texts of some tasks cannot be read. -/
def unreadTexts (nodes : List Node) : List SyntaxError :=
  (taskTexts nodes).filterMap fun text =>
    match referencedModules .statements text with
    | .ok _ => none
    | .error e => some e

/-- The first occurrence of each name, given those that came before. -/
def firstOnly (seen : List String) : List String → List String
  | [] => []
  | name :: rest =>
    if seen.contains name then firstOnly seen rest
    else name :: firstOnly (name :: seen) rest

/-- The modules a program imports. -/
def imports (dedupe : Bool) (nodes : List Node) : List String :=
  let modules := usedModules nodes
  if dedupe then firstOnly [] modules else modules

/-- A task's text as statements and an awaited expression. A text that has
no such form is awaited as it stands. -/
def invocation (text : String) : Invocation :=
  match Invocation.split text with
  | some i => i
  | none => ⟨none, String.ofList (trimEnd (dropEndWhile (· == ';') text.toList))⟩

/-- What a node's procedure does. -/
def action (t : Names.Table) (n : Node) : Action :=
  match n.kind, n.expression with
  | .exclusiveGateway otherwise, some condition => .guard condition (otherwise.map t.nameOf)
  | .task route, some text =>
    let i := invocation text
    .invoke i.prelude? i.tail n.contextKey (route.map t.nameOf)
  | .serviceTask route, some script => .run script n.contextKey (route.map t.nameOf)
  | .startEvent true, some tag => .subscribe tag n.contextKey
  | .endEvent true, some expression => .emit expression
  | _, _ => .unimplemented

/-- The procedure of a node. -/
def procedure (t : Names.Table) (n : Node) : Procedure where
  name := t.nameOf n.id
  nodeId := n.id
  kind := n.kind.element
  action := action t n
  then_ := .ofTargets (n.outgoing.map t.nameOf)

end Lowering

namespace Graph

/-- The program of a graph that starts at a node. -/
def lower (g : Graph) (start : Node) (config : EmitConfig) : Program :=
  let table := Names.tableOf config.entryName g.toList
  { imports := Lowering.imports config.dedupeImports g.toList
    entry := table.nameOf start.id
    procedures := g.toList.map (Lowering.procedure table) }

end Graph

end ProcessCompiler
