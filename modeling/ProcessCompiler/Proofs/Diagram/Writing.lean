import Mathlib.Data.List.Nodup
import ProcessCompiler.Diagram
import ProcessCompiler.Proofs.Markup.Tree
import ProcessCompiler.Proofs.Reordered
/-!
# Writing diagrams

A diagram as plain markup. Each of its records is an element: what has one
line of text is an attribute, and the flows that leave it, its message and
what it runs are elements inside. The records stand in one process in any
order that keeps the order of each list, as the parts of a record do inside
it, and all names have their qualifiers or none has.
-/

namespace ProcessCompiler

open Markup

namespace Diagram

/-! ## Names -/

/-- The names of attributes. -/
inductive AttributeName where
  | id | name | default | actionType | condition | sourceRef | targetRef
deriving DecidableEq, Repr

namespace AttributeName

/-- The name without a qualifier. -/
def short : AttributeName → String
  | id => "id"
  | name => "name"
  | default => "default"
  | actionType => "actionType"
  | condition => "condition"
  | sourceRef => "sourceRef"
  | targetRef => "targetRef"

/-- The name with its qualifier, if it has one. -/
def long : AttributeName → String
  | actionType => "custom:actionType"
  | condition => "custom:condition"
  | n => n.short

/-- The name as it is written. -/
def write (qualified : Bool) (n : AttributeName) : String := if qualified then n.long else n.short

end AttributeName

/-- The names of elements. -/
inductive ElementName where
  | process
  | startEvent | endEvent | task | serviceTask | exclusiveGateway
  | sequenceFlow | note | association
  | outgoing | messageEventDefinition | call | script | text
deriving DecidableEq, Repr

namespace ElementName

/-- The name without a qualifier. -/
def short : ElementName → String
  | process => "process"
  | startEvent => "startEvent"
  | endEvent => "endEvent"
  | task => "task"
  | serviceTask => "serviceTask"
  | exclusiveGateway => "exclusiveGateway"
  | sequenceFlow => "sequenceFlow"
  | note => "textAnnotation"
  | association => "association"
  | outgoing => "outgoing"
  | messageEventDefinition => "messageEventDefinition"
  | call => "call"
  | script => "script"
  | text => "text"

/-- The name with its qualifier. -/
def long : ElementName → String
  | call => "custom:call"
  | script => "custom:script"
  | n => "bpmn:" ++ n.short

/-- The name as it is written. -/
def write (qualified : Bool) (n : ElementName) : String := if qualified then n.long else n.short

end ElementName

/-! ## Records -/

/-- Attributes by their names. One without a value is left out. -/
abbrev Cells := List (AttributeName × Option String)

/-- The attributes that have values. -/
def Cells.present (cells : Cells) : List (AttributeName × String) :=
  cells.filterMap fun c => c.2.map (c.1, ·)

/-- Attributes as they are written. -/
def Cells.attributes (qualified : Bool) (cells : Cells) : List (String × String) :=
  cells.present.map fun a => (a.1.write qualified, a.2)

/-- What stands inside a record's element. -/
inductive Detail where
  | outgoing (flow : String)
  | message (m : MessageDefinition)
  | call (s : String)
  | script (s : String)
  | text (s : String)
deriving DecidableEq, Repr

namespace Detail

/-- The name of a detail's element. -/
def name : Detail → ElementName
  | outgoing _ => .outgoing
  | message _ => .messageEventDefinition
  | call _ => .call
  | script _ => .script
  | text _ => .text

/-- The text of a detail. A message has none. -/
def content : Detail → String
  | outgoing s | call s | script s | text s => s
  | message _ => ""

/-- The element of a detail. -/
def tree (qualified : Bool) : Detail → Tree
  | message m =>
    .branch (ElementName.messageEventDefinition.write qualified)
      (Cells.attributes qualified [(.id, m.id)]) []
  | x => .leaf (x.name.write qualified) [] x.content

end Detail

/-- A record of a diagram. -/
inductive Figure where
  | startEvent (e : EventRecord)
  | endEvent (e : EventRecord)
  | task (t : TaskRecord)
  | serviceTask (t : ServiceTaskRecord)
  | gateway (g : GatewayRecord)
  | flow (f : SequenceFlow)
  | note (a : TextAnnotation)
  | association (a : Association)
deriving DecidableEq, Repr

namespace Figure

/-- The name of a record's element. -/
def name : Figure → ElementName
  | startEvent _ => .startEvent
  | endEvent _ => .endEvent
  | task _ => .task
  | serviceTask _ => .serviceTask
  | gateway _ => .exclusiveGateway
  | flow _ => .sequenceFlow
  | note _ => .note
  | association _ => .association

/-- The attributes of a record. -/
def cells : Figure → Cells
  | startEvent e | endEvent e =>
    [(.id, e.id), (.name, e.name), (.default, e.defaultFlow), (.actionType, e.actionType)]
  | task t => [(.id, t.id), (.name, t.name), (.default, t.defaultFlow)]
  | serviceTask t => [(.id, t.id), (.name, t.name), (.default, t.defaultFlow)]
  | gateway g =>
    [(.id, g.id), (.name, g.name), (.default, g.defaultFlow), (.condition, g.condition)]
  | flow f => [(.id, f.id), (.sourceRef, f.source), (.targetRef, f.target)]
  | note a => [(.id, a.id)]
  | association a => [(.id, a.id), (.sourceRef, a.source), (.targetRef, a.target)]

/-- The details of a record, kind by kind. -/
def details : Figure → List Detail
  | startEvent e | endEvent e => e.outgoing.map .outgoing ++ e.message.toList.map .message
  | task t => t.outgoing.map .outgoing ++ t.call.toList.map .call
  | serviceTask t => t.outgoing.map .outgoing ++ t.script.toList.map .script
  | gateway g => g.outgoing.map .outgoing
  | flow _ | association _ => []
  | note a => a.text.toList.map .text

end Figure

/-- **A record as it is drawn**: its attributes in any order, and its details
in one that keeps the order of each kind. -/
structure Drawing where
  figure : Figure
  cells : Cells
  cells_perm : figure.cells.Perm cells
  details : List Detail
  details_reordered : Reordered Detail.name figure.details details

/-- A record drawn as it stands. -/
def Figure.draw (f : Figure) : Drawing where
  figure := f
  cells := f.cells
  cells_perm := .refl _
  details := f.details
  details_reordered := .refl _ _

/-- The element of a record. -/
def Drawing.tree (qualified : Bool) (r : Drawing) : Tree :=
  .branch (r.figure.name.write qualified) (r.cells.attributes qualified)
    (r.details.map (·.tree qualified))

/-! ## Diagrams -/

/-- The records of a diagram, list by list. -/
def figures (d : Diagram) : List Figure :=
  d.startEvents.map .startEvent ++ d.endEvents.map .endEvent ++ d.tasks.map .task ++
    d.serviceTasks.map .serviceTask ++ d.gateways.map .gateway ++ d.flows.map .flow ++
    d.annotations.map .note ++ d.associations.map .association

/-- **A way to write a diagram**: the records in an order that keeps that of
each list, inside a process, inside an element with any plain tag. -/
structure Writing (d : Diagram) where
  /-- Names have their qualifiers. -/
  qualified : Bool
  /-- Elements that hold nothing are single tags. -/
  short : Bool
  root : String
  rootAttributes : List (String × String)
  root_plain : PlainTag root rootAttributes
  drawings : List Drawing
  reordered : Reordered Figure.name d.figures (drawings.map (·.figure))

namespace Writing

variable {d : Diagram}

/-- The element of the process. -/
def processTree (w : d.Writing) : Tree :=
  .branch (ElementName.process.write w.qualified) (Cells.attributes w.qualified [(.id, d.id)])
    (w.drawings.map (·.tree w.qualified))

/-- The outermost element. -/
def tree (w : d.Writing) : Tree := .branch w.root w.rootAttributes [w.processTree]

/-- The text of a diagram. -/
def text (w : d.Writing) : String := String.ofList (w.tree.write w.short)

end Writing

/-- The texts of a diagram's details have no blanks at their ends. -/
def Trimmed (d : Diagram) : Prop :=
  ∀ f ∈ d.figures, ∀ x ∈ f.details, Bounded x.content.toList

/-! ## Written diagrams are plain -/

namespace AttributeName

/-- What is written for the name of an attribute is a name that binds nothing
and does not say that its element has no value. -/
theorem plain_write (qualified : Bool) (n : AttributeName) :
    isName (n.write qualified) = true ∧ boundQualifier? (n.write qualified).toList = none ∧
      localName (n.write qualified).toList ≠ ['n', 'i', 'l'] := by
  cases qualified <;> cases n <;> decide +kernel

/-- Names are told apart in writing. -/
theorem write_inj {qualified : Bool} {m n : AttributeName}
    (h : m.write qualified = n.write qualified) : m = n := by
  revert h
  cases qualified <;> cases m <;> cases n <;> decide

end AttributeName

theorem ElementName.isName_write (qualified : Bool) (n : ElementName) :
    isName (n.write qualified) = true := by
  cases qualified <;> cases n <;> decide +kernel

/-- What has a value is among all attributes. -/
theorem Cells.present_sublist (cells : Cells) :
    (cells.present.map (·.1)).Sublist (cells.map (·.1)) := by
  induction cells with
  | nil => exact .slnil
  | cons c cells ih =>
    obtain ⟨n, _ | value⟩ := c
    · exact ih.cons _
    · exact ih.cons_cons _

section Tags

variable (qualified : Bool) (name : ElementName) (cells : Cells)

/-- The tag of an element with attributes of different names is plain. -/
theorem Cells.plainTag (h : (cells.map (·.1)).Nodup) :
    PlainTag (name.write qualified) (cells.attributes qualified) := by
  refine .of_keys (name.isName_write qualified) (fun a ha => ?_) ?_
  · obtain ⟨p, -, rfl⟩ := List.mem_map.1 ha
    obtain ⟨hname, hbinds, -⟩ := p.1.plain_write qualified
    exact ⟨hname, hbinds⟩
  · have hnames : (cells.attributes qualified).map (·.1) =
        (cells.present.map (·.1)).map (·.write qualified) := by
      simp [attributes, Function.comp_def]
    rw [hnames]
    exact (h.sublist cells.present_sublist).map fun m n => AttributeName.write_inj

/-- It does not say that the element has no value. -/
theorem Cells.marksVoid_eq_false (h : (cells.map (·.1)).Nodup) (s : Scope) :
    s.marksVoid (tagText (name.write qualified) (cells.attributes qualified)) = false := by
  refine (plainTag qualified name cells h).marksVoid_tagText (fun a ha => ?_) s
  obtain ⟨p, -, rfl⟩ := List.mem_map.1 ha
  exact (p.1.plain_write qualified).2.2

end Tags

theorem Detail.plain_tree (qualified : Bool) {x : Detail} (h : Bounded x.content.toList) :
    (x.tree qualified).Plain := by
  cases x with
  | message m => exact ⟨Cells.plainTag qualified _ [(.id, m.id)] (List.nodup_singleton _), trivial⟩
  | outgoing | call | script | text => exact ⟨Cells.plainTag qualified _ [] List.nodup_nil, h⟩

/-- No attribute of a record stands there twice. -/
theorem Figure.nodup_cells (f : Figure) : (f.cells.map (·.1)).Nodup := by
  cases f <;> simp [cells]

namespace Drawing

theorem nodup_cells (r : Drawing) : (r.cells.map (·.1)).Nodup :=
  (r.cells_perm.map _).nodup_iff.1 r.figure.nodup_cells

theorem plain_tree (qualified : Bool) {r : Drawing}
    (h : ∀ x ∈ r.figure.details, Bounded x.content.toList) : (r.tree qualified).Plain := by
  refine ⟨Cells.plainTag qualified _ r.cells r.nodup_cells, Tree.plainAll_iff.2 fun t ht => ?_⟩
  obtain ⟨x, hx, rfl⟩ := List.mem_map.1 ht
  exact x.plain_tree qualified (h x (r.details_reordered.perm.mem_iff.2 hx))

end Drawing

namespace Writing

variable {d : Diagram} (w : d.Writing)

theorem trimmed_of_mem (h : d.Trimmed) {r : Drawing} (hr : r ∈ w.drawings) :
    ∀ x ∈ r.figure.details, Bounded x.content.toList :=
  h r.figure (w.reordered.perm.mem_iff.2 (List.mem_map_of_mem hr))

/-- **A written diagram is plain markup.** -/
theorem plain_tree (h : d.Trimmed) : w.tree.Plain := by
  refine ⟨w.root_plain, ⟨Cells.plainTag _ _ [(.id, d.id)] (List.nodup_singleton _), ?_⟩, trivial⟩
  refine Tree.plainAll_iff.2 fun t ht => ?_
  obtain ⟨r, hr, rfl⟩ := List.mem_map.1 ht
  exact r.plain_tree w.qualified (w.trimmed_of_mem h hr)

end Writing

end Diagram

end ProcessCompiler
