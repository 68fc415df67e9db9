import ProcessCompiler.Graph.Node
import ProcessCompiler.Json.OfValue
import ProcessCompiler.Json.Record
import ProcessCompiler.Json.Value
/-!
# Nodes as JSON

What is written is read back as it was. What a node is stands in an object
with the name of the kind as its only key.
-/

namespace ProcessCompiler

open Json

namespace ElementKind

/-- The names of the kinds. -/
def names : List (String × ElementKind) := all.map fun k => (k.text, k)

/-- Read a kind. -/
def ofJson (s : String) : Except JsonError ElementKind := readAll (nameOf names) s

/-- The kind as JSON. -/
def toJson (k : ElementKind) : Json := .text k.text

end ElementKind

namespace NodeKind

/-- The name of the choice of a kind. -/
def choiceName : ElementKind → String
  | .startEvent => "StartEvent"
  | .endEvent => "EndEvent"
  | .task => "Task"
  | .serviceTask => "ServiceTask"
  | .exclusiveGateway => "ExclusiveGateway"

/-- The names of the choices. -/
def names : List (String × ElementKind) := ElementKind.all.map fun k => (choiceName k, k)

/-- The fields of a choice. -/
def shape (k : ElementKind) : RecordShape NodeKind :=
  let name := "struct variant NodeKind::" ++ choiceName k
  match k with
  | .startEvent =>
    ⟨name, [⟨"message", false, false, fun _ => do return .startEvent (← readFlag)⟩],
      .startEvent false⟩
  | .endEvent =>
    ⟨name, [⟨"message", false, false, fun _ => do return .endEvent (← readFlag)⟩],
      .endEvent false⟩
  | .task =>
    ⟨name, [⟨"error_route", true, false, fun _ => do return .task (← readOptional readText)⟩],
      .task none⟩
  | .serviceTask =>
    ⟨name,
      [⟨"error_route", true, false, fun _ => do return .serviceTask (← readOptional readText)⟩],
      .serviceTask none⟩
  | .exclusiveGateway =>
    ⟨name,
      [⟨"otherwise", true, false, fun _ => do
        return .exclusiveGateway (← readOptional readText)⟩],
      .exclusiveGateway none⟩

/-- Read what a node is. -/
def reader : Read NodeKind :=
  choice names (fun _ => failLater (.wrongType .bareName "struct variant"))
    fun k => readRecord (shape k)

/-- The field of a choice, in a value. -/
def valueMember : ElementKind → ValueMember NodeKind
  | .startEvent => ⟨"message", false, fun _ j => (toFlag j).map .startEvent⟩
  | .endEvent => ⟨"message", false, fun _ j => (toFlag j).map .endEvent⟩
  | .task => ⟨"error_route", true, fun _ j => (toOption toText j).map .task⟩
  | .serviceTask => ⟨"error_route", true, fun _ j => (toOption toText j).map .serviceTask⟩
  | .exclusiveGateway =>
    ⟨"otherwise", true, fun _ j => (toOption toText j).map .exclusiveGateway⟩

/-- What a node is, from a value. -/
def ofValue (j : Json) : Except Cause NodeKind := do
  match ← toChoice names j with
  | (k, some (.object fields)) => ofFields [valueMember k] (shape k).blank fields
  | (_, some other) => refuseValue other "struct variant"
  | (_, none) => .error (.wrongType .bareName "struct variant")

/-- What a node is, as JSON. -/
def toJson (k : NodeKind) : Json :=
  let fields := match k with
    | startEvent message | endEvent message => [("message", .flag message)]
    | task route | serviceTask route => [("error_route", Json.ofOption route)]
    | exclusiveGateway otherwise => [("otherwise", Json.ofOption otherwise)]
  .object [(choiceName k.element, .object fields)]

end NodeKind

namespace Node

/-- The fields of a node. -/
def shape : RecordShape Node where
  name := "struct Node"
  blank := ⟨"", none, .task none, none, []⟩
  members := [
    ⟨"id", false, false, fun n => do return { n with id := ← readText }⟩,
    ⟨"name", true, false, fun n => do return { n with name := ← readOptional readText }⟩,
    ⟨"kind", false, false, fun n => do return { n with kind := ← NodeKind.reader }⟩,
    ⟨"expression", true, false, fun n => do return { n with text := ← readOptional readText }⟩,
    ⟨"outgoing", false, false, fun n => do return { n with outgoing := ← readList readText }⟩]

/-- Read a node. -/
def ofJson (s : String) : Except JsonError Node := readAll (readRecord shape) s

/-- The fields of a node, in a value. -/
def valueMembers : List (ValueMember Node) := [
  ⟨"id", false, fun n j => (toText j).map fun id => { n with id }⟩,
  ⟨"name", true, fun n j => (toOption toText j).map fun name => { n with name }⟩,
  ⟨"kind", false, fun n j => (NodeKind.ofValue j).map fun kind => { n with kind }⟩,
  ⟨"expression", true, fun n j => (toOption toText j).map fun text => { n with text }⟩,
  ⟨"outgoing", false, fun n j => (Json.toList toText j).map fun outgoing => { n with outgoing }⟩]

/-- The node of a value. -/
def ofValue (j : Json) : Except Cause Node := toRecord shape.name valueMembers shape.blank j

/-- The node as JSON. -/
def toJson (n : Node) : Json :=
  .object [("id", .text n.id), ("name", Json.ofOption n.name), ("kind", n.kind.toJson),
    ("expression", Json.ofOption n.text), ("outgoing", .list (n.outgoing.map .text))]

end Node

end ProcessCompiler
