import ProcessCompiler.Diagram
import ProcessCompiler.Markup.Record
/-!
# Reading diagrams

The diagram that a text describes: the process inside the text's outermost
element, whatever that is called.
-/

namespace ProcessCompiler

open Markup

namespace Diagram

/-- A field with the name it is declared by and the one without the
qualifier. -/
structure Field where
  name : String
  short : String
deriving DecidableEq, Repr

/-- The field goes by the given name. -/
def Field.matches (f : Field) (key : String) : Bool := f.name == key || f.short == key

/-- A field with one name only. -/
def Field.plain (name : String) : Field := ⟨name, name⟩

/-- What was read of a record. -/
structure Fields where
  /-- The fields that were taken, with their texts if they have any. -/
  values : List (String × Option String)
  outgoing : List String
  message : Option MessageDefinition

namespace Fields

/-- Nothing read. -/
def none : Fields := ⟨[], [], Option.none⟩

/-- The value of a field. -/
def get? (f : Fields) (field : String) : Option String :=
  (f.values.lookup field).join

/-- A field was taken. -/
def isTaken (f : Fields) (field : String) : Bool := (f.values.lookup field).isSome

/-- Take a field. -/
def take (f : Fields) (field : String) (value : Option String) : Fields :=
  { f with values := (field, value) :: f.values }

/-- The value of a field that a record needs. -/
def require (f : Fields) (field : String) : Except MarkupError String :=
  match f.get? field with
  | some value => .ok value
  | Option.none => .error (.missingField field)

end Fields

/-- The slot of a field. -/
def slotOf (f : Field) : Slot Fields where
  field := f.name
  taken record := record.isTaken f.name
  put record value := record.take f.name (some value)

/-- What a kind of record has beside its attributes. -/
structure Shape where
  attributes : List Field
  /-- Child elements that hold a text. -/
  texts : List Field
  /-- Child elements name the flows that leave the record. -/
  flows : Bool
  /-- A child element defines a message. -/
  message : Bool

/-- The rules of a message's definition. -/
def messageRules : RecordRules Fields where
  attributeSlot key := if key == "@id" then some (slotOf (.plain "@id")) else none
  childRule _ := none

/-- Read a message's definition. -/
def readMessage (e : Element) : Reading MessageDefinition := do
  let fields ← readRecord messageRules .none e
  return ⟨fields.get? "@id"⟩

/-- The text of an item. -/
def itemText : Item → Except MarkupError String
  | .text s => .ok s
  | .element e => textOf e.name e.children

/-- The name of the flows that leave a record. -/
def outgoingField : Field := ⟨"bpmn:outgoing", "outgoing"⟩

/-- The name of a message's definition. -/
def messageField : Field := ⟨"bpmn:messageEventDefinition", "messageEventDefinition"⟩

/-- The list of the flows that leave a record. -/
def outgoingRule : ChildRule Fields :=
  .list outgoingField.name (fun r => !r.outgoing.isEmpty) fun r item => do
    let flow ← itemText item
    return { r with outgoing := r.outgoing ++ [flow] }

/-- The definition of an event's message. -/
def messageRule : ChildRule Fields :=
  .element messageField.name (·.isTaken messageField.name)
    (fun r e => do
      let message ← readMessage e
      return { r.take messageField.name none with message := some message })
    (some (·.take messageField.name none))

namespace Shape

/-- The rules of a kind of record. -/
def rules (s : Shape) : RecordRules Fields where
  attributeSlot key := (s.attributes.find? (·.matches key)).map slotOf
  childRule key :=
    if s.flows && outgoingField.matches key then some outgoingRule
    else if s.message && messageField.matches key then some messageRule
    else (s.texts.find? (·.matches key)).map fun f => .text (slotOf f) (·.take f.name none)

/-- The attributes that every node has. -/
def nodeAttributes : List Field := [.plain "@id", .plain "@name", .plain "@default"]

/-- Events. -/
def event : Shape where
  attributes := nodeAttributes ++ [⟨"@custom:actionType", "@actionType"⟩]
  texts := []
  flows := true
  message := true

/-- Tasks. -/
def task : Shape := ⟨nodeAttributes, [⟨"custom:call", "call"⟩], true, false⟩

/-- Service tasks. -/
def serviceTask : Shape := ⟨nodeAttributes, [⟨"custom:script", "script"⟩], true, false⟩

/-- Gateways. -/
def gateway : Shape where
  attributes := nodeAttributes ++ [⟨"@custom:condition", "@condition"⟩]
  texts := []
  flows := true
  message := false

/-- Flows and lines to notes. -/
def edge : Shape := ⟨[.plain "@id", .plain "@sourceRef", .plain "@targetRef"], [], false, false⟩

/-- Notes. -/
def note : Shape := ⟨[.plain "@id"], [⟨"bpmn:text", "text"⟩], false, false⟩

end Shape

/-- The event with the given fields. -/
def eventOf (f : Fields) : Except MarkupError EventRecord := do
  let id ← f.require "@id"
  return ⟨id, f.get? "@name", f.get? "@default", f.get? "@custom:actionType", f.message, f.outgoing⟩

/-- The task with the given fields. -/
def taskOf (f : Fields) : Except MarkupError TaskRecord := do
  let id ← f.require "@id"
  return ⟨id, f.get? "@name", f.get? "@default", f.get? "custom:call", f.outgoing⟩

/-- The service task with the given fields. -/
def serviceTaskOf (f : Fields) : Except MarkupError ServiceTaskRecord := do
  let id ← f.require "@id"
  return ⟨id, f.get? "@name", f.get? "@default", f.get? "custom:script", f.outgoing⟩

/-- The gateway with the given fields. -/
def gatewayOf (f : Fields) : Except MarkupError GatewayRecord := do
  let id ← f.require "@id"
  return ⟨id, f.get? "@name", f.get? "@default", f.get? "@custom:condition", f.outgoing⟩

/-- The flow with the given fields. -/
def flowOf (f : Fields) : Except MarkupError SequenceFlow := do
  let id ← f.require "@id"
  let source ← f.require "@sourceRef"
  let target ← f.require "@targetRef"
  return ⟨id, source, target⟩

/-- The note with the given fields. -/
def noteOf (f : Fields) : Except MarkupError TextAnnotation := do
  let id ← f.require "@id"
  return ⟨id, f.get? "bpmn:text"⟩

/-- The line to a note with the given fields. -/
def lineOf (f : Fields) : Except MarkupError Association := do
  let source ← f.require "@sourceRef"
  let target ← f.require "@targetRef"
  return ⟨f.get? "@id", source, target⟩

/-- Read an item of a list of records. -/
def readItem {α : Type} (kind : String) (shape : Shape) (of : Fields → Except MarkupError α) :
    Item → Reading α
  | .text s => throw (.textForRecord s kind)
  | .element e => do
    let fields ← readRecord shape.rules .none e
    of fields

/-- A list of records. -/
def recordList {α : Type} (name kind : String) (shape : Shape)
    (of : Fields → Except MarkupError α) (items : Diagram → List α)
    (put : Diagram → List α → Diagram) : ChildRule Diagram :=
  .list ("bpmn:" ++ name) (fun d => !(items d).isEmpty) fun d item => do
    let a ← readItem kind shape of item
    return put d (items d ++ [a])

/-- The lists of a process, by the names of their elements. -/
def processLists : List (String × ChildRule Diagram) := [
  ("startEvent", recordList "startEvent" "EventElement" .event eventOf (·.startEvents)
    fun d l => { d with startEvents := l }),
  ("endEvent", recordList "endEvent" "EventElement" .event eventOf (·.endEvents)
    fun d l => { d with endEvents := l }),
  ("task", recordList "task" "TaskElement" .task taskOf (·.tasks)
    fun d l => { d with tasks := l }),
  ("serviceTask", recordList "serviceTask" "ServiceTaskElement" .serviceTask serviceTaskOf
    (·.serviceTasks) fun d l => { d with serviceTasks := l }),
  ("exclusiveGateway", recordList "exclusiveGateway" "GatewayElement" .gateway gatewayOf
    (·.gateways) fun d l => { d with gateways := l }),
  ("sequenceFlow", recordList "sequenceFlow" "SequenceFlow" .edge flowOf (·.flows)
    fun d l => { d with flows := l }),
  ("textAnnotation", recordList "textAnnotation" "TextAnnotation" .note noteOf (·.annotations)
    fun d l => { d with annotations := l }),
  ("association", recordList "association" "Association" .edge lineOf (·.associations)
    fun d l => { d with associations := l })]

/-- The rules of a process. -/
def processRules : RecordRules Diagram where
  attributeSlot key :=
    if key == "@id" then some ⟨"@id", fun d => d.id.isSome, fun d id => { d with id := some id }⟩
    else none
  childRule key :=
    (processLists.find? fun (name, _) => key == name || key == "bpmn:" ++ name).map (·.2)

/-- The rules of the outermost element. -/
def rootRules : RecordRules (Option Diagram) where
  attributeSlot _ := none
  childRule key :=
    if Field.matches ⟨"bpmn:process", "process"⟩ key then
      some (.element "bpmn:process" (·.isSome)
        (fun _ e => do
          let d ← readRecord processRules .empty e
          return some d)
        none)
    else none

/-- The diagram that a text describes. -/
def ofMarkup (text : String) : Except MarkupError Diagram := do
  match ← (readRoot rootRules none "Diagram" (Content.ofText text)).run' .start with
  | some d => return d
  | none => .error (.missingField "bpmn:process")

end Diagram

end ProcessCompiler
