import Mathlib.Data.List.Nodup
import Mathlib.Data.List.TakeWhile
import ProcessCompiler.Proofs.Graph.Strictness
/-!
# The rules of validation

The rules as statements about a diagram, apart from the order in which they
are checked: `Node.Sound` is what one node has to satisfy, `Graph.OnlyStart`
that there is one start event, and `Tag.Shaped` the form of a message's name.
`Diagram.Accepts` says that all rules hold, and `Diagram.FirstBreach` which
rule is broken first. Validation decides exactly these two: each check has a
lemma for its success and one for its failure, and the checks in a row are
put together from them.
-/

namespace ProcessCompiler

open Grammar Text

/-! ## Checks in a row -/

section Checks

variable {ε α β : Type}

/-- Two steps succeed if both do. -/
theorem bind_eq_ok_iff {x : Except ε α} {k : α → Except ε β} {b : β} :
    x >>= k = .ok b ↔ ∃ a, x = .ok a ∧ k a = .ok b := by
  cases x <;> simp [bind, Except.bind]

/-- Two steps fail with the failure of the first, or with that of the second
behind a first that succeeds. -/
theorem bind_eq_error_iff {x : Except ε α} {k : α → Except ε β} {e : ε} :
    x >>= k = .error e ↔ x = .error e ∨ ∃ a, x = .ok a ∧ k a = .error e := by
  cases x <;> simp [bind, Except.bind]

/-- A check of a list succeeds if it does so everywhere. -/
theorem forM_eq_ok_iff {check : α → Except ε PUnit} {l : List α} :
    l.forM check = .ok () ↔ ∀ a ∈ l, check a = .ok () := by
  induction l with
  | nil => simp [pure, Except.pure]
  | cons a l ih =>
    rw [List.forM_eq_forM, List.forM_cons, bind_eq_ok_iff, ← List.forM_eq_forM, ih,
      List.forall_mem_cons]
    exact ⟨fun ⟨_, ha, hl⟩ => ⟨ha, hl⟩, fun ⟨ha, hl⟩ => ⟨(), ha, hl⟩⟩

/-- A check of a list fails with the failure of the first member that does
not pass. -/
theorem forM_eq_error_iff {check : α → Except ε PUnit} {l : List α} {e : ε} :
    l.forM check = .error e ↔
      ∃ before a after, l = before ++ a :: after ∧
        (∀ b ∈ before, check b = .ok ()) ∧ check a = .error e := by
  induction l with
  | nil => simp [pure, Except.pure]
  | cons a l ih =>
    rw [List.forM_eq_forM, List.forM_cons, bind_eq_error_iff, ← List.forM_eq_forM, ih]
    constructor
    · rintro (ha | ⟨_, ha, before, b, after, rfl, hbefore, hb⟩)
      · exact ⟨[], a, l, rfl, by simp, ha⟩
      · exact ⟨a :: before, b, after, rfl, List.forall_mem_cons.2 ⟨ha, hbefore⟩, hb⟩
    · rintro ⟨before, b, after, hl, hbefore, hb⟩
      rcases before with _ | ⟨a', before⟩
      · obtain ⟨rfl, rfl⟩ := List.cons.inj hl
        exact Or.inl hb
      · obtain ⟨rfl, rfl⟩ := List.cons.inj hl
        obtain ⟨ha, hbefore⟩ := List.forall_mem_cons.1 hbefore
        exact Or.inr ⟨(), ha, before, b, after, rfl, hbefore, hb⟩

end Checks

/-! ## Tags -/

namespace Tag

/-- **The form of a tag**: `@`, a scope of ASCII letters, digits, `_` and
`-`, a slash, and a name of letters, digits and `_`, neither of them empty. -/
def Shaped (tag : String) : Prop :=
  ∃ scope name : List Char, tag.toList = '@' :: (scope ++ '/' :: name) ∧
    (scope ≠ [] ∧ ∀ c ∈ scope, c.isAlphanum = true ∨ c = '_' ∨ c = '-') ∧
    name ≠ [] ∧ ∀ c ∈ name, c.isAlphanum = true ∨ c = '_'

theorem isPlainWord_iff_isAlphanum (c : Char) :
    isPlainWord c = true ↔ c.isAlphanum = true ∨ c = '_' := by
  have halphanum : c.isAlphanum = (decide (c.val ≥ 'A'.val ∧ c.val ≤ 'Z'.val) ||
      (decide (c.val ≥ 'a'.val) && decide (c.val ≤ 'z'.val)) ||
      (decide (c.val ≥ '0'.val) && decide (c.val ≤ '9'.val))) := rfl
  simp only [halphanum, isPlainWord, isLetter, isDigit, Char.le_def, Bool.or_eq_true,
    Bool.and_eq_true, decide_eq_true_eq, beq_iff_eq, ge_iff_le]
  tauto

theorem isScopeChar_iff (c : Char) :
    isScopeChar c = true ↔ c.isAlphanum = true ∨ c = '_' ∨ c = '-' := by
  simp [isScopeChar, isPlainWord_iff_isAlphanum, or_assoc]

theorem isName_iff (name : List Char) :
    isName name = true ↔ name ≠ [] ∧ ∀ c ∈ name, c.isAlphanum = true ∨ c = '_' := by
  simp [isName, isPlainWord_iff_isAlphanum]

/-- A tag behind its `@` is cut at the first character that no scope has. -/
theorem isTail_iff (s : List Char) :
    isTail s = true ↔ ∃ scope name, s = scope ++ '/' :: name ∧
      (scope ≠ [] ∧ ∀ c ∈ scope, isScopeChar c = true) ∧ isName name = true := by
  constructor
  · intro h
    unfold isTail at h
    split at h
    · rename_i name hname
      simp only [Bool.and_eq_true, Bool.not_eq_true', List.isEmpty_eq_false_iff] at h
      refine ⟨s.takeWhile isScopeChar, name, ?_, ⟨h.1, fun c hc => List.mem_takeWhile_imp hc⟩, h.2⟩
      rw [← hname, List.takeWhile_append_dropWhile]
    · cases h
  · rintro ⟨scope, name, rfl, ⟨hne, hscope⟩, hname⟩
    have hslash : isScopeChar '/' = false := by decide
    rw [isTail, List.dropWhile_append_of_pos hscope, List.takeWhile_append_of_pos hscope,
      List.dropWhile_cons_of_neg (by simp [hslash]), List.takeWhile_cons_of_neg (by simp [hslash])]
    simp [hne, hname]

/-- **The test of a tag** decides on its form. -/
theorem isTag_iff_shaped (tag : String) : isTag tag = true ↔ Shaped tag := by
  unfold isTag Shaped
  split
  · rename_i rest hrest
    simp only [hrest, List.cons.injEq, true_and, isTail_iff, isScopeChar_iff, isName_iff]
  · rename_i hother
    constructor
    · intro h
      cases h
    · rintro ⟨scope, name, htag, -⟩
      exact absurd htag (hother _)

end Tag

/-! ## Nodes -/

/-- A node's text is the one it was given, trimmed, if that is not empty. -/
theorem Node.expression_eq_some_iff {n : Node} {text : String} :
    n.expression = some text ↔ ∃ raw, n.text = some raw ∧ trimmed raw = text ∧ text ≠ "" := by
  simp only [expression, Option.bind_eq_some_iff, nonBlank?, String.isEmpty_iff]
  constructor
  · rintro ⟨raw, hraw, htext⟩
    by_cases hempty : trimmed raw = ""
    · simp [hempty] at htext
    · rw [if_neg hempty, Option.some.injEq] at htext
      exact ⟨raw, hraw, htext, htext ▸ hempty⟩
  · rintro ⟨raw, hraw, rfl, hne⟩
    exact ⟨raw, hraw, if_neg hne⟩

/-- **A text fits a kind of node.** A start event's text is no code, and that
of an end event without a message is not read. -/
def NodeKind.Fits : NodeKind → String → Prop
  | .startEvent _, _ | .endEvent false, _ => True
  | .endEvent true, text => Harness.assignment.accepts text = true
  | .task _, text =>
    Harness.statements.accepts text = true ∧ (Invocation.split text).isSome = true
  | .serviceTask _, text => Harness.statements.accepts text = true
  | .exclusiveGateway _, text => Harness.condition.accepts text = true

/-- **A text does not fit**, and why. A task's text is searched for a tail only
if it can be read. -/
def NodeKind.Misfits : NodeKind → String → TextFault → Prop
  | .startEvent _, _, _ | .endEvent false, _, _ => False
  | .endEvent true, text, fault =>
    ∃ e, Harness.assignment.parse text = .error e ∧ fault = .grammar e
  | .task _, text, fault =>
    (∃ e, Harness.statements.parse text = .error e ∧ fault = .grammar e) ∨
      (Harness.statements.accepts text = true ∧ Invocation.split text = none ∧ fault = .noTail)
  | .serviceTask _, text, fault =>
    ∃ e, Harness.statements.parse text = .error e ∧ fault = .grammar e
  | .exclusiveGateway _, text, fault =>
    ∃ e, Harness.condition.parse text = .error e ∧ fault = .grammar e

namespace Node

/-- **A node satisfies its rules**: only a plain event may be without a text,
and a text fits. -/
def Sound (n : Node) : Prop :=
  match n.expression with
  | none => n.kind.isPlainEvent = true
  | some text => n.kind.Fits text

/-- **A node breaks a rule**, and how that is reported. -/
def Breach (n : Node) (r : Rejection) : Prop :=
  match n.expression with
  | none => n.kind.isPlainEvent = false ∧ r = .missingExpression n.id
  | some text => ∃ fault, n.kind.Misfits text fault ∧ r = .invalidExpression n.id fault

end Node

namespace Validation

/-- The check of code that is no task's. -/
theorem checkText_of_harness {kind : NodeKind} {h : Harness} (hkind : kind.harness? = some h)
    (htask : kind.element ≠ .task) (text : String) :
    (checkText kind text = .ok () ↔ h.accepts text = true) ∧
      ∀ fault, checkText kind text = .error fault ↔
        ∃ e, h.parse text = .error e ∧ fault = .grammar e := by
  simp only [checkText, hkind, Harness.accepts]
  cases h.parse text with
  | error e => simp [Except.isOk, Except.toBool, eq_comm]
  | ok block => simp [Except.isOk, Except.toBool, htask]

/-- The check of a task's text. -/
theorem checkText_task (route : Option String) (text : String) :
    (checkText (.task route) text = .ok () ↔
      Harness.statements.accepts text = true ∧ (Invocation.split text).isSome = true) ∧
    ∀ fault, checkText (.task route) text = .error fault ↔
      (∃ e, Harness.statements.parse text = .error e ∧ fault = .grammar e) ∨
        (Harness.statements.accepts text = true ∧ Invocation.split text = none ∧
          fault = .noTail) := by
  simp only [checkText, NodeKind.harness?, NodeKind.element, Harness.accepts]
  cases Harness.statements.parse text with
  | error e => simp [Except.isOk, Except.toBool, @eq_comm _ _ (TextFault.grammar e)]
  | ok block =>
    cases Invocation.split text with
    | none => simp [Except.isOk, Except.toBool, eq_comm]
    | some i => simp [Except.isOk, Except.toBool]

/-- **The check of a text** succeeds if it fits its node, and otherwise says
why not. -/
theorem checkText_iff (kind : NodeKind) (text : String) :
    (checkText kind text = .ok () ↔ kind.Fits text) ∧
      ∀ fault, checkText kind text = .error fault ↔ kind.Misfits text fault := by
  rcases kind with message | (_ | _) | route | route | otherwise
  · simp [checkText, NodeKind.harness?, NodeKind.Fits, NodeKind.Misfits]
  · simp [checkText, NodeKind.harness?, NodeKind.Fits, NodeKind.Misfits]
  · exact checkText_of_harness rfl (by simp [NodeKind.element]) text
  · exact checkText_task route text
  · exact checkText_of_harness rfl (by simp [NodeKind.element]) text
  · exact checkText_of_harness rfl (by simp [NodeKind.element]) text

/-- **The check of a node** succeeds if the node is sound, and otherwise
reports the breach. -/
theorem checkNode_iff (n : Node) :
    (checkNode n = .ok () ↔ n.Sound) ∧ ∀ r, checkNode n = .error r ↔ n.Breach r := by
  unfold checkNode Node.Sound Node.Breach
  cases n.expression with
  | none => cases n.kind.isPlainEvent <;> simp [eq_comm]
  | some text =>
    obtain ⟨hok, herror⟩ := checkText_iff n.kind text
    cases hcheck : checkText n.kind text with
    | ok u =>
      have hnone : ∀ fault, ¬n.kind.Misfits text fault := fun fault hfault => by
        rw [(herror fault).2 hfault] at hcheck
        cases hcheck
      simp [Except.mapError, ← hok, hcheck, hnone]
    | error fault =>
      simp [Except.mapError, ← hok, ← herror, hcheck, eq_comm]

end Validation

/-! ## The start event -/

theorem Node.isStart_iff {n : Node} :
    n.isStart = true ↔ ∃ message, n.kind = .startEvent message := by
  simp only [isStart, decide_eq_true_eq]
  cases n.kind <;> simp [NodeKind.element]

namespace Graph

variable {g : Graph}

/-- **The one start event** of a graph. -/
def OnlyStart (g : Graph) (start : Node) : Prop :=
  start ∈ g.toList ∧ start.isStart = true ∧ ∀ n ∈ g.toList, n.isStart = true → n = start

/-- The graph has two start events. -/
def TwoStarts (g : Graph) : Prop :=
  ∃ n ∈ g.toList, ∃ m ∈ g.toList, n.isStart = true ∧ m.isStart = true ∧ n ≠ m

theorem mem_startEvents {n : Node} : n ∈ g.startEvents ↔ n ∈ g.toList ∧ n.isStart = true :=
  List.mem_filter

theorem startEvents_eq_nil_iff : g.startEvents = [] ↔ ∀ n ∈ g.toList, n.isStart = false := by
  simp [startEvents, List.filter_eq_nil_iff]

/-- A filed graph lists no start event twice. -/
theorem Filed.startEvents_nodup (h : g.Filed) : g.startEvents.Nodup :=
  (List.Nodup.of_map _ h.ids_nodup).filter _

/-- A start event is the only one if it is the whole list of them. -/
theorem Filed.startEvents_eq_singleton_iff (h : g.Filed) {start : Node} :
    g.startEvents = [start] ↔ g.OnlyStart start := by
  have hne := h.startEvents_nodup.ne_singleton_iff start
  constructor
  · intro hstarts
    have hmem : ∀ n, n ∈ g.toList ∧ n.isStart = true ↔ n = start := fun n => by
      rw [← mem_startEvents, hstarts, List.mem_singleton]
    obtain ⟨hin, hstart⟩ := (hmem start).2 rfl
    exact ⟨hin, hstart, fun n hn hs => (hmem n).1 ⟨hn, hs⟩⟩
  · rintro ⟨hin, hstart, honly⟩
    by_contra hother
    rcases hne.1 hother with hnil | ⟨n, hn, hdiff⟩
    · rw [startEvents_eq_nil_iff.1 hnil start hin] at hstart
      cases hstart
    · obtain ⟨hn, hs⟩ := mem_startEvents.1 hn
      exact hdiff (honly n hn hs)

theorem twoStarts_iff : g.TwoStarts ↔ ∃ n ∈ g.startEvents, ∃ m ∈ g.startEvents, n ≠ m := by
  simp only [TwoStarts, mem_startEvents]
  grind

end Graph

namespace Validation

/-- **The search for the start event** finds the only one, and otherwise says
whether there is none or more than one. -/
theorem findStart_iff {g : Graph} (h : g.Filed) :
    (∀ start, findStart g = .ok start ↔ g.OnlyStart start) ∧
      ∀ r, findStart g = .error r ↔
        ((∀ n ∈ g.toList, n.isStart = false) ∧ r = .noStartEvent) ∨
          (g.TwoStarts ∧ r = .multipleStartEvents) := by
  simp only [← h.startEvents_eq_singleton_iff, ← Graph.startEvents_eq_nil_iff,
    Graph.twoStarts_iff, findStart]
  have hnodup := h.startEvents_nodup
  rcases hstarts : g.startEvents with _ | ⟨a, _ | ⟨b, rest⟩⟩
  · simp [eq_comm]
  · simp
  · have hab : a ≠ b := by
      rw [hstarts] at hnodup
      simp at hnodup
      tauto
    simp [hab, eq_comm]

/-- **The check of the start event**, if its node is sound: only a message's
tag can be at fault, never be missing. -/
theorem checkStart_iff {start : Node} (hstart : start.isStart = true) (hsound : start.Sound) :
    (checkStart start = .ok () ↔ (start.kind = .startEvent true →
      ∃ raw, start.text = some raw ∧ Tag.Shaped (trimmed raw))) ∧
    ∀ r, checkStart start = .error r ↔ start.kind = .startEvent true ∧
      ∃ raw, start.text = some raw ∧ ¬Tag.Shaped (trimmed raw) ∧
        r = .malformedActionType (trimmed raw) := by
  obtain ⟨message, hkind⟩ := Node.isStart_iff.1 hstart
  cases message with
  | false => simp [checkStart, hkind, NodeKind.isMessageEvent]
  | true =>
    unfold Node.Sound at hsound
    cases htext : start.expression with
    | none => simp [htext, hkind, NodeKind.isPlainEvent] at hsound
    | some text =>
      obtain ⟨raw, hraw, rfl, -⟩ := Node.expression_eq_some_iff.1 htext
      simp only [checkStart, hkind, NodeKind.isMessageEvent, htext, hraw]
      by_cases htag : Tag.Shaped (trimmed raw)
      · simp [(Tag.isTag_iff_shaped _).2 htag, htag]
      · simp [mt (Tag.isTag_iff_shaped _).1 htag, htag, eq_comm]

end Validation

/-! ## Diagrams -/

namespace Diagram

variable {s : Strictness} {d : Diagram}

/-- **All rules hold**, of the graph that the diagram resolves to and of its
only start event. -/
structure Accepts (s : Strictness) (d : Diagram) (v : Validated) : Prop where
  resolved : d.graph s = .ok v.graph
  sound : ∀ n ∈ v.graph.toList, n.Sound
  only : v.graph.OnlyStart v.start
  tagged : v.start.kind = .startEvent true →
    ∃ raw, v.start.text = some raw ∧ Tag.Shaped (trimmed raw)

/-- **The rule that is broken first.** A rule is looked at only if those
before it hold: the diagram resolves, every node is sound in the order of the
nodes, there is one start event, and a message's tag has its form. -/
inductive FirstBreach (s : Strictness) (d : Diagram) : Rejection → Prop
  | unresolved {f : Fault} : d.graph s = .error f → FirstBreach s d (.structure_ f)
  | node {g : Graph} {before after : List Node} {n : Node} {r : Rejection} :
      d.graph s = .ok g → g.toList = before ++ n :: after → (∀ m ∈ before, m.Sound) →
      n.Breach r → FirstBreach s d r
  | noStart {g : Graph} : d.graph s = .ok g → (∀ n ∈ g.toList, n.Sound) →
      (∀ n ∈ g.toList, n.isStart = false) → FirstBreach s d .noStartEvent
  | twoStarts {g : Graph} : d.graph s = .ok g → (∀ n ∈ g.toList, n.Sound) →
      g.TwoStarts → FirstBreach s d .multipleStartEvents
  | tag {g : Graph} {start : Node} {raw : String} : d.graph s = .ok g →
      (∀ n ∈ g.toList, n.Sound) → g.OnlyStart start → start.kind = .startEvent true →
      start.text = some raw → ¬Tag.Shaped (trimmed raw) →
      FirstBreach s d (.malformedActionType (trimmed raw))

/-- The check of all nodes. -/
theorem forM_checkNode_eq_ok_iff {g : Graph} :
    g.toList.forM Validation.checkNode = .ok () ↔ ∀ n ∈ g.toList, n.Sound := by
  rw [forM_eq_ok_iff]
  exact forall₂_congr fun n _ => (Validation.checkNode_iff n).1

theorem forM_checkNode_eq_error_iff {g : Graph} {r : Rejection} :
    g.toList.forM Validation.checkNode = .error r ↔
      ∃ before n after, g.toList = before ++ n :: after ∧ (∀ m ∈ before, m.Sound) ∧
        n.Breach r := by
  rw [forM_eq_error_iff]
  simp only [(Validation.checkNode_iff _).1, (Validation.checkNode_iff _).2]

/-- Behind a graph come the checks of the nodes and of the start event. -/
theorem validate_of_graph {g : Graph} (hg : d.graph s = .ok g) :
    d.validate s = do
      g.toList.forM Validation.checkNode
      let start ← Validation.findStart g
      Validation.checkStart start
      return ⟨g, start⟩ := by
  rw [validate, hg]
  rfl

theorem validate_of_fault {f : Fault} (hf : d.graph s = .error f) :
    d.validate s = .error (.structure_ f) := by
  rw [validate, hf]
  rfl

/-- **What is accepted** satisfies all rules, and all that does is accepted. -/
theorem validate_eq_ok_iff {v : Validated} : d.validate s = .ok v ↔ d.Accepts s v := by
  constructor
  · intro h
    obtain ⟨g, hg⟩ := graph_of_validate h
    have hfiled := filed_of_graph hg
    rw [validate_of_graph hg] at h
    obtain ⟨_, hnodes, h⟩ := bind_eq_ok_iff.1 h
    obtain ⟨start, hfind, h⟩ := bind_eq_ok_iff.1 h
    obtain ⟨_, hcheck, h⟩ := bind_eq_ok_iff.1 h
    obtain rfl := Except.ok.inj h
    have hsound := forM_checkNode_eq_ok_iff.1 hnodes
    have honly := ((Validation.findStart_iff hfiled).1 start).1 hfind
    have htag := (Validation.checkStart_iff honly.2.1 (hsound start honly.1)).1.1 hcheck
    exact ⟨hg, hsound, honly, htag⟩
  · rintro ⟨hg, hsound, honly, htag⟩
    have hfiled := filed_of_graph hg
    have hnodes := forM_checkNode_eq_ok_iff.2 hsound
    have hfind := ((Validation.findStart_iff hfiled).1 v.start).2 honly
    have hcheck := (Validation.checkStart_iff honly.2.1 (hsound v.start honly.1)).1.2 htag
    rw [validate_of_graph hg]
    exact bind_eq_ok_iff.2 ⟨(), hnodes, bind_eq_ok_iff.2 ⟨v.start, hfind,
      bind_eq_ok_iff.2 ⟨(), hcheck, rfl⟩⟩⟩

/-- **What is rejected** breaks the rule that is reported, and none before
it. -/
theorem validate_eq_error_iff {r : Rejection} :
    d.validate s = .error r ↔ d.FirstBreach s r := by
  constructor
  · intro h
    cases hg : d.graph s with
    | error f =>
      rw [validate_of_fault hg] at h
      rw [← Except.error.inj h]
      exact .unresolved hg
    | ok g =>
      have hfiled := filed_of_graph hg
      rw [validate_of_graph hg] at h
      rcases bind_eq_error_iff.1 h with hnodes | ⟨_, hnodes, h⟩
      · obtain ⟨before, n, after, hlist, hbefore, hn⟩ := forM_checkNode_eq_error_iff.1 hnodes
        exact .node hg hlist hbefore hn
      have hsound := forM_checkNode_eq_ok_iff.1 hnodes
      rcases bind_eq_error_iff.1 h with hfind | ⟨start, hfind, h⟩
      · rcases ((Validation.findStart_iff hfiled).2 r).1 hfind with ⟨hnone, rfl⟩ | ⟨htwo, rfl⟩
        · exact .noStart hg hsound hnone
        · exact .twoStarts hg hsound htwo
      have honly := ((Validation.findStart_iff hfiled).1 start).1 hfind
      rcases bind_eq_error_iff.1 h with hcheck | ⟨_, -, h⟩
      · obtain ⟨hkind, raw, hraw, htag, rfl⟩ :=
          ((Validation.checkStart_iff honly.2.1 (hsound start honly.1)).2 r).1 hcheck
        exact .tag hg hsound honly hkind hraw htag
      · cases h
  · intro h
    cases h with
    | unresolved hf => exact validate_of_fault hf
    | node hg hlist hbefore hn =>
      rw [validate_of_graph hg, forM_checkNode_eq_error_iff.2 ⟨_, _, _, hlist, hbefore, hn⟩]
      rfl
    | noStart hg hsound hnone =>
      have hfind := ((Validation.findStart_iff (filed_of_graph hg)).2 _).2 (.inl ⟨hnone, rfl⟩)
      rw [validate_of_graph hg, forM_checkNode_eq_ok_iff.2 hsound, hfind]
      rfl
    | twoStarts hg hsound htwo =>
      have hfind := ((Validation.findStart_iff (filed_of_graph hg)).2 _).2 (.inr ⟨htwo, rfl⟩)
      rw [validate_of_graph hg, forM_checkNode_eq_ok_iff.2 hsound, hfind]
      rfl
    | tag hg hsound honly hkind hraw htag =>
      have hfind := ((Validation.findStart_iff (filed_of_graph hg)).1 _).2 honly
      have hcheck := ((Validation.checkStart_iff honly.2.1 (hsound _ honly.1)).2 _).2
        ⟨hkind, _, hraw, htag, rfl⟩
      rw [validate_of_graph hg]
      exact bind_eq_error_iff.2 (.inr ⟨(), forM_checkNode_eq_ok_iff.2 hsound,
        bind_eq_error_iff.2 (.inr ⟨_, hfind, bind_eq_error_iff.2 (.inl hcheck)⟩)⟩)

/-- **Validation decides its rules, the first breach first.** A diagram is
accepted exactly if all rules hold, with the graph it resolves to and the only
start event; it is rejected exactly with the rule that is broken first. That a
message start has no tag at all is never reported as such: the check of the
nodes has found the missing text before. -/
theorem validate_iff_rules (s : Strictness) (d : Diagram) :
    (∀ v, d.validate s = .ok v ↔ d.Accepts s v) ∧
      (∀ r, d.validate s = .error r ↔ d.FirstBreach s r) ∧
      d.validate s ≠ .error .missingActionType := by
  refine ⟨fun v => validate_eq_ok_iff, fun r => validate_eq_error_iff, fun h => ?_⟩
  cases validate_eq_error_iff.1 h with
  | node _ _ _ hn =>
    unfold Node.Breach at hn
    split at hn
    · cases hn.2
    · obtain ⟨_, _, hr⟩ := hn
      cases hr

/-- A process that waits for an order, and ships it if it is paid. -/
def shipping : Diagram :=
  { Diagram.empty with
    startEvents := [⟨"Created", none, none, some " @orders/created ", some ⟨none⟩, ["toPaid"]⟩]
    endEvents := [⟨"Shipped", none, none, none, some ⟨none⟩, []⟩,
      ⟨"Left", none, none, none, none, []⟩]
    tasks := [⟨"Pack", none, none, some "log(x); pack(x);", ["toLabel"]⟩]
    serviceTasks := [⟨"Label", none, none, some "print(x);", ["toShipped"]⟩]
    gateways := [⟨"Paid", none, some "toLeft", some "x > 0", ["toPack", "toLeft"]⟩]
    flows := [⟨"toPaid", "Created", "Paid"⟩, ⟨"toPack", "Paid", "Pack"⟩, ⟨"toLeft", "Paid", "Left"⟩,
      ⟨"toLabel", "Pack", "Label"⟩, ⟨"toShipped", "Label", "Shipped"⟩]
    annotations := [⟨"note", some "x + 1"⟩]
    associations := [⟨none, "Shipped", "note"⟩] }

theorem exists_validate_shipping : ∃ v, shipping.validate .strict = .ok v := by
  have hok : (shipping.validate .strict).isOk = true := by decide +kernel
  cases h : shipping.validate .strict with
  | ok v => exact ⟨v, rfl⟩
  | error r =>
    rw [h] at hok
    cases hok

/-- The same process with a second start event and without its condition. -/
def crowded : Diagram :=
  { shipping with
    startEvents := shipping.startEvents ++ shipping.startEvents.map ({ · with id := "Again" })
    gateways := shipping.gateways.map ({ · with condition := none }) }

/-- Where two rules are broken, that of the nodes comes before that of the
start event. -/
theorem validate_iff_rules_shipping : (∃ v, shipping.Accepts .strict v) ∧
    crowded.FirstBreach .strict (.missingExpression "Paid") := by
  obtain ⟨v, hv⟩ := exists_validate_shipping
  refine ⟨⟨v, ((validate_iff_rules .strict shipping).1 v).1 hv⟩, ?_⟩
  have hcrowded : (crowded.validate .strict).map (fun _ => ()) =
      .error (.missingExpression "Paid") := by decide +kernel
  cases h : crowded.validate .strict with
  | ok v =>
    rw [h] at hcrowded
    cases hcrowded
  | error r =>
    rw [h] at hcrowded
    rw [← Except.error.inj hcrowded]
    exact ((validate_iff_rules .strict crowded).2.1 r).1 h

end Diagram

end ProcessCompiler
