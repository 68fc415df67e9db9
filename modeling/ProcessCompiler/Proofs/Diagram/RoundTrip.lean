import ProcessCompiler.Proofs.Diagram.RecordReading
/-!
# Reading written diagrams

A diagram is read back from any of its writings (`ofMarkup_text`): each of its
records is read by the list for its kind (`Drawing.reads_child`), and records
that are put into their lists in any order that keeps the order of each list
make up the diagram (`Writing.putAll_drawings`).
-/

namespace ProcessCompiler

open Markup

namespace Diagram

/-! ## The process -/

namespace Figure

/-- Put a record behind those of its list. -/
def add : Figure → Diagram → Diagram
  | startEvent e, d => { d with startEvents := d.startEvents ++ [e] }
  | endEvent e, d => { d with endEvents := d.endEvents ++ [e] }
  | task t, d => { d with tasks := d.tasks ++ [t] }
  | serviceTask t, d => { d with serviceTasks := d.serviceTasks ++ [t] }
  | gateway g, d => { d with gateways := d.gateways ++ [g] }
  | flow f, d => { d with flows := d.flows ++ [f] }
  | note a, d => { d with annotations := d.annotations ++ [a] }
  | association a, d => { d with associations := d.associations ++ [a] }

/-- The list of a record is not empty. -/
def taken : Figure → Diagram → Bool
  | startEvent _, d => !d.startEvents.isEmpty
  | endEvent _, d => !d.endEvents.isEmpty
  | task _, d => !d.tasks.isEmpty
  | serviceTask _, d => !d.serviceTasks.isEmpty
  | gateway _, d => !d.gateways.isEmpty
  | flow _, d => !d.flows.isEmpty
  | note _, d => !d.annotations.isEmpty
  | association _, d => !d.associations.isEmpty

/-- Records of different kinds are for different lists. -/
theorem taken_add_and_comm {f g : Figure} (h : f.name ≠ g.name) (d : Diagram) :
    g.taken (f.add d) = g.taken d ∧ g.add (f.add d) = f.add (g.add d) := by
  cases f <;> cases g <;> first | exact absurd rfl h | exact ⟨rfl, rfl⟩

end Figure

namespace Drawing

/-- A record as a child of its process's element. -/
def child (qualified : Bool) (r : Drawing) : Child Diagram where
  tree := r.tree qualified
  many := true
  taken := r.figure.taken
  put := r.figure.add

/-- A list of records takes a record that its fields give. -/
theorem reads_child_of_list {α : Type} {name kind : String} {shape : Shape}
    {of : Fields → Except MarkupError α} {r : Drawing} {a : α} (qualified : Bool)
    (items : Diagram → List α) (put : Diagram → List α → Diagram)
    (hrule : processRules.childRule r.figure.name.short =
      some (recordList name kind shape of items put))
    (hshape : r.figure.shape = shape) (hof : of r.fields = .ok a)
    (htaken : r.figure.taken = fun d => !(items d).isEmpty)
    (hadd : r.figure.add = fun d => put d (items d ++ [a]))
    (h : ∀ x ∈ r.figure.details, Bounded x.content.toList) (owner : List Char) :
    (r.child qualified).Reads processRules owner := by
  rw [← r.figure.name.localName_write qualified] at hrule
  subst hshape
  rw [recordList, ← htaken] at hrule
  refine .list hrule fun d following => ?_
  have hitem : Yields (readItem kind r.figure.shape of
      (.element ((r.tree qualified).element following))) a :=
    (r.yields_readRecord qualified h following).bind (yields_lift hof)
  have hput : (r.child qualified).put d = put d (items d ++ [a]) := congrFun hadd d
  rw [hput]
  exact hitem.bind (yields_pure _)

/-- **A record is read** by the list for its kind. -/
theorem reads_child (qualified : Bool) (r : Drawing)
    (h : ∀ x ∈ r.figure.details, Bounded x.content.toList) (owner : List Char) :
    (r.child qualified).Reads processRules owner := by
  obtain ⟨f, cells, cells_perm, details, details_reordered⟩ := r
  cases f with
  | startEvent e =>
    exact reads_child_of_list qualified (·.startEvents) (fun d l => { d with startEvents := l })
      rfl rfl (eventOf_fields rfl rfl) rfl rfl h owner
  | endEvent e =>
    exact reads_child_of_list qualified (·.endEvents) (fun d l => { d with endEvents := l })
      rfl rfl (eventOf_fields rfl rfl) rfl rfl h owner
  | task t =>
    exact reads_child_of_list qualified (·.tasks) (fun d l => { d with tasks := l })
      rfl rfl (taskOf_fields rfl) rfl rfl h owner
  | serviceTask t =>
    exact reads_child_of_list qualified (·.serviceTasks) (fun d l => { d with serviceTasks := l })
      rfl rfl (serviceTaskOf_fields rfl) rfl rfl h owner
  | gateway g =>
    exact reads_child_of_list qualified (·.gateways) (fun d l => { d with gateways := l })
      rfl rfl (gatewayOf_fields rfl) rfl rfl h owner
  | flow f =>
    exact reads_child_of_list qualified (·.flows) (fun d l => { d with flows := l })
      rfl rfl (flowOf_fields rfl) rfl rfl h owner
  | note a =>
    exact reads_child_of_list qualified (·.annotations) (fun d l => { d with annotations := l })
      rfl rfl (noteOf_fields rfl) rfl rfl h owner
  | association a =>
    exact reads_child_of_list qualified (·.associations) (fun d l => { d with associations := l })
      rfl rfl (lineOf_fields rfl) rfl rfl h owner

end Drawing

/-- Records of one kind make up a list. -/
theorem foldl_add_map {α : Type} (of : α → Figure) (extend : Diagram → List α → Diagram)
    (hnil : ∀ d, extend d [] = d) (hcons : ∀ d a l, extend ((of a).add d) l = extend d (a :: l))
    (l : List α) (d : Diagram) : (l.map of).foldl (fun d f => f.add d) d = extend d l := by
  induction l generalizing d with
  | nil => rw [hnil, List.map_nil, List.foldl_nil]
  | cons a l ih => rw [List.map_cons, List.foldl_cons, ih, hcons]

/-- **The records of a diagram** make it up. -/
theorem foldl_add_figures (d : Diagram) :
    d.figures.foldl (fun d f => f.add d) { empty with id := d.id } = d := by
  simp only [figures, List.foldl_append]
  -- Each kind of record extends its own list and leaves the others.
  rw [foldl_add_map .startEvent (fun d l => { d with startEvents := d.startEvents ++ l })
    (by simp) (by simp [Figure.add])]
  rw [foldl_add_map .endEvent (fun d l => { d with endEvents := d.endEvents ++ l })
    (by simp) (by simp [Figure.add])]
  rw [foldl_add_map .task (fun d l => { d with tasks := d.tasks ++ l })
    (by simp) (by simp [Figure.add])]
  rw [foldl_add_map .serviceTask (fun d l => { d with serviceTasks := d.serviceTasks ++ l })
    (by simp) (by simp [Figure.add])]
  rw [foldl_add_map .gateway (fun d l => { d with gateways := d.gateways ++ l })
    (by simp) (by simp [Figure.add])]
  rw [foldl_add_map .flow (fun d l => { d with flows := d.flows ++ l })
    (by simp) (by simp [Figure.add])]
  rw [foldl_add_map .note (fun d l => { d with annotations := d.annotations ++ l })
    (by simp) (by simp [Figure.add])]
  rw [foldl_add_map .association (fun d l => { d with associations := d.associations ++ l })
    (by simp) (by simp [Figure.add])]
  rfl

/-- The name of a process is read. -/
theorem readAttributes_process (qualified : Bool) (d : Diagram) :
    readAttributes processRules empty ((Cells.attributes qualified [(.id, d.id)]).map entryOf) =
      .ok { empty with id := d.id } := by
  let slot : Slot Diagram := ⟨"@id", fun d => d.id.isSome, fun d id => { d with id := some id }⟩
  have hslot : ∀ value, processRules.attributeSlot
      (Attribute.field ⟨(AttributeName.id.write qualified).toList, value⟩) = some slot := by
    intro value
    rw [AttributeName.field_write]
    rfl
  cases d.id with
  | none => rfl
  | some id =>
    exact readAttributes_map (fun _ => slot) (List.forall_mem_singleton.2 (hslot _))
      (List.pairwise_singleton _ _) fun _ _ => rfl

namespace Writing

variable {d : Diagram} (w : d.Writing)

/-- **The records of a process** can be read. -/
theorem legible_drawings (h : d.Trimmed) (owner : List Char) (id : Option String) :
    Child.Legible processRules owner (w.drawings.map (·.child w.qualified))
      { empty with id := id } := by
  refine Child.legible_map (fun r hr => ?_) (fun r hr => ?_)
    (List.pairwise_of_forall fun _ _ _ => rfl) (fun r _ r' _ hne => ?_) fun r _ => ?_
  · exact r.plain_tree w.qualified (w.trimmed_of_mem h hr)
  · exact r.reads_child w.qualified (w.trimmed_of_mem h hr) owner
  · refine Figure.taken_add_and_comm fun heq => hne ?_
    exact congrArg (ElementName.write w.qualified) heq
  · rw [Drawing.child]
    cases r.figure <;> rfl

/-- Records in any order that keeps that of each list make the diagram up. -/
theorem putAll_drawings :
    Child.putAll (w.drawings.map (·.child w.qualified)) { empty with id := d.id } = d := by
  have hfold := w.reordered.foldl_eq (f := fun d f => f.add d)
    (fun f _ g _ hne d => (Figure.taken_add_and_comm hne d).2) { empty with id := d.id }
  -- List by list the records make the diagram up, and any other order that
  -- keeps each list does the same.
  rw [foldl_add_figures, List.foldl_map] at hfold
  rw [Child.putAll, List.foldl_map]
  exact hfold.symm

/-- **A process is read** from its element. -/
theorem yields_readProcess (h : d.Trimmed) (following : Option (List Char)) :
    Yields (readRecord processRules empty (w.processTree.element following)) d := by
  have hrecord := (w.legible_drawings h _ d.id).yields_readRecord List.map_map
    (Cells.plainTag w.qualified .process [(.id, d.id)] (List.nodup_singleton _))
    (readAttributes_process w.qualified d) following
  rw [w.putAll_drawings] at hrecord
  exact hrecord

/-- The process as a child of the outermost element. -/
def processChild : Child (Option Diagram) where
  tree := w.processTree
  many := false
  taken := Option.isSome
  put _ := some d

theorem reads_processChild (h : d.Trimmed) (owner : List Char) :
    w.processChild.Reads rootRules owner := by
  have hrule : rootRules.childRule (String.ofList (localName
      (ElementName.process.write w.qualified).toList)) = some (.element "bpmn:process" Option.isSome
        (fun _ e => do
          let d ← readRecord processRules .empty e
          return some d) none) := by
    rw [ElementName.localName_write]
    rfl
  -- The rule cannot leave the process out, so whether its element has a value
  -- does not matter.
  exact .element hrule rfl (.inl rfl) fun _ following =>
    (w.yields_readProcess h following).bind (yields_pure _)

/-- **The outermost element is read** as the process inside it. -/
theorem yields_readRoot (h : d.Trimmed) :
    Yields (readRoot rootRules none "Diagram" (Content.ofText w.text)) (some d) := by
  have hplain := w.plain_tree h
  have hlegible : Child.Legible rootRules (tagText w.root w.rootAttributes) [w.processChild] none :=
    Child.legible_singleton hplain.2.1 (w.reads_processChild h _) rfl
  have hroot := hlegible.yields_readRecord (List.map_singleton ..) w.root_plain
    (readAttributes_of_none (fun _ => rfl) none _) none
  rw [text, Tree.ofText_write w.short hplain, Tree.content_eq, readRoot]
  exact (yields_meet hplain.binds).bind hroot

end Writing

/-- **A diagram is read back** from any of its writings. -/
theorem ofMarkup_text (d : Diagram) (h : d.Trimmed) (w : d.Writing) :
    ofMarkup w.text = .ok d := by
  obtain ⟨o, hroot⟩ := w.yields_readRoot h .start
  rw [ofMarkup, StateT.run'_eq, hroot]
  rfl

/-- A diagram with characters that are written by their names. -/
def quoted : Diagram :=
  { Diagram.empty with
    id := some "\"P\" & Co"
    startEvents := [⟨"Start", some "<go>", none, some "@a/b", some ⟨none⟩, ["one", "two"]⟩]
    tasks := [⟨"Work", none, some "one", some "f('a') && \"b\" < c", []⟩]
    flows := [⟨"one", "Start", "Work"⟩, ⟨"two", "Start", "Work"⟩]
    annotations := [⟨"note", some ""⟩] }

/-- The diagram with its flows and the details of its event apart. -/
def quotedWriting : quoted.Writing where
  qualified := true
  short := true
  root := "bpmn:definitions"
  rootAttributes := [("xmlns:custom", "urn:custom")]
  root_plain := ⟨by decide, by decide, by decide, by decide +kernel⟩
  drawings :=
    [Figure.draw (.flow ⟨"one", "Start", "Work"⟩),
      Figure.draw (.note ⟨"note", some ""⟩),
      { figure := .startEvent
          ⟨"Start", some "<go>", none, some "@a/b", some ⟨none⟩, ["one", "two"]⟩
        cells := [(.actionType, "@a/b"), (.default, none), (.name, "<go>"), (.id, "Start")]
        cells_perm := by decide
        details := [.outgoing "one", .message ⟨none⟩, .outgoing "two"]
        details_reordered := ⟨by decide, by decide⟩ },
      Figure.draw (.flow ⟨"two", "Start", "Work"⟩),
      Figure.draw (.task ⟨"Work", none, some "one", some "f('a') && \"b\" < c", []⟩)]
  reordered := ⟨by decide, by decide⟩

theorem ofMarkup_text_quoted : quoted.Trimmed ∧ ofMarkup quotedWriting.text = .ok quoted := by
  have htrimmed : quoted.Trimmed := by
    simp [Trimmed, figures, quoted, Diagram.empty, Figure.details, Detail.content, Bounded, isSpace]
  exact ⟨htrimmed, ofMarkup_text quoted htrimmed quotedWriting⟩

end Diagram

end ProcessCompiler
