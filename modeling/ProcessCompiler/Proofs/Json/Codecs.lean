import ProcessCompiler.Graph.Codec
import ProcessCompiler.Proofs.Json.Taking
import ProcessCompiler.Settings.Codec
import ProcessCompiler.Validation.Codec
/-!
# What is written as JSON is read back

Each kind of value has a list of `fillings`: the fields of its object in the
order in which they are written, with what reading them does to a record. The
object of the value is the object of this list, and its reader takes all of
them. So the value is read back from its text (`ofJson_compact`), and options
are read back from any part of theirs, the rest being at their defaults.
-/

namespace ProcessCompiler

open Json

/-! ## Objects with fields left out -/

/-- The value without the fields of the given names, if it is an object. -/
def Json.without (removed : List String) : Json → Json
  | .object fields => .object (fields.filter fun f => f.1 ∉ removed)
  | j => j

namespace Json.Filling

variable {α : Type}

/-- The object of some fields without those of the given names. -/
theorem without_object (removed : List String) (fields : List (Filling α)) :
    (object fields).without removed = object (fields.filter fun f => f.key ∉ removed) := by
  rw [object, Json.without, object, List.filter_map]
  rfl

/-- **A record of which any field may be missing** is read from any part of its
fields. -/
theorem readAll_without {shape : RecordShape α} {fields : List (Filling α)}
    (hfits : ∀ f ∈ fields, f.Fits shape.members) (hnodup : (fields.map (·.key)).Nodup)
    (hoptional : ∀ m ∈ shape.members, m.optional = true) (removed : List String) :
    readAll (readRecord shape) ((object fields).without removed).compact =
      .ok (fields.foldl (fun r f => if f.key ∉ removed then f.put r else r) shape.blank) := by
  rw [without_object]
  have hsub : (fields.filter fun f => f.key ∉ removed).Sublist fields := List.filter_sublist
  have htakes := takes_readRecord shape (fields.filter fun f => f.key ∉ removed)
    (fun f hf => hfits f (hsub.subset hf)) (hnodup.sublist (hsub.map _))
    (fun m hm => .inl (hoptional m hm))
  rw [readAll_of_takes htakes, fill, List.foldl_filter]
  simp only [decide_eq_true_eq]

end Json.Filling

/-! ## Options of emission -/

namespace EmitConfig

/-- The options with those of the given names at their defaults. -/
def reset (removed : List String) (c : EmitConfig) : EmitConfig where
  runtimeCrate := if "runtime_crate" ∈ removed then default.runtimeCrate else c.runtimeCrate
  apiRoot := if "api_root" ∈ removed then default.apiRoot else c.apiRoot
  entryName := if "entry_name" ∈ removed then default.entryName else c.entryName
  dedupeImports := if "dedupe_imports" ∈ removed then default.dedupeImports else c.dedupeImports
  context := if "context" ∈ removed then default.context else c.context

/-- The fields of the options. -/
def fillings (c : EmitConfig) : List (Filling EmitConfig) := [
  ⟨"runtime_crate", .text c.runtimeCrate, fun r => { r with runtimeCrate := c.runtimeCrate }⟩,
  ⟨"api_root", .text c.apiRoot, fun r => { r with apiRoot := c.apiRoot }⟩,
  ⟨"entry_name", .text c.entryName, fun r => { r with entryName := c.entryName }⟩,
  ⟨"dedupe_imports", .flag c.dedupeImports, fun r => { r with dedupeImports := c.dedupeImports }⟩,
  ⟨"context", .text c.context.text, fun r => { r with context := c.context }⟩]

theorem fits_of_mem_fillings {c : EmitConfig} : ∀ f ∈ c.fillings, f.Fits shape.members := by
  simp only [fillings, List.forall_mem_cons, List.not_mem_nil, false_implies, implies_true,
    and_true]
  refine ⟨⟨_, rfl, fun r => (takes_readText _).bind_pure _⟩,
    ⟨_, rfl, fun r => (takes_readText _).bind_pure _⟩,
    ⟨_, rfl, fun r => (takes_readText _).bind_pure _⟩,
    ⟨_, rfl, fun r => (takes_readFlag _).bind_pure _⟩,
    ⟨_, rfl, fun r => (takes_nameOf ?_).bind_pure _⟩⟩
  cases c.context <;> rfl

/-- Options are read from any part of what is written for them. -/
theorem ofJson_without (c : EmitConfig) (removed : List String) :
    ofJson (c.toJson.without removed).compact = .ok (c.reset removed) := by
  have hread := Filling.readAll_without c.fits_of_mem_fillings (by simp [fillings])
    (by simp [shape]) removed
  refine hread.trans (congrArg Except.ok ?_)
  simp only [fillings, List.foldl_cons, List.foldl_nil, reset, shape]
  by_cases h₁ : "runtime_crate" ∈ removed <;> by_cases h₂ : "api_root" ∈ removed <;>
    by_cases h₃ : "entry_name" ∈ removed <;> by_cases h₄ : "dedupe_imports" ∈ removed <;>
    by_cases h₅ : "context" ∈ removed <;> simp [h₁, h₂, h₃, h₄, h₅]

end EmitConfig

/-! ## Options of resolution -/

namespace ResolveOptions

/-- The options with those of the given names at their defaults. -/
def reset (removed : List String) (o : ResolveOptions) : ResolveOptions where
  strictness := if "strictness" ∈ removed then default.strictness else o.strictness

/-- The fields of the options. -/
def fillings (o : ResolveOptions) : List (Filling ResolveOptions) :=
  [⟨"strictness", .text o.strictness.text, fun _ => ⟨o.strictness⟩⟩]

theorem fits_of_mem_fillings {o : ResolveOptions} : ∀ f ∈ o.fillings, f.Fits shape.members := by
  simp only [fillings, List.forall_mem_cons, List.not_mem_nil, false_implies, implies_true,
    and_true]
  refine ⟨_, rfl, fun r => (takes_nameOf (a := o.strictness) ?_).bind_pure _⟩
  cases o.strictness <;> rfl

/-- Options are read from any part of what is written for them. -/
theorem ofJson_without (o : ResolveOptions) (removed : List String) :
    ofJson (o.toJson.without removed).compact = .ok (o.reset removed) := by
  have hread := Filling.readAll_without o.fits_of_mem_fillings (by simp [fillings])
    (by simp [shape]) removed
  refine hread.trans (congrArg Except.ok ?_)
  simp only [fillings, List.foldl_cons, List.foldl_nil, reset, shape]
  by_cases h : "strictness" ∈ removed <;> simp [h]

end ResolveOptions

/-! ## Verdicts -/

namespace Verdict

/-- The fields of a verdict. -/
def fillings (v : Verdict) : List (Filling Verdict) :=
  ⟨"outcome", .flag v.outcome, fun r => { r with outcome := v.outcome }⟩ ::
    (v.reason.map fun s => ⟨"reason", .text s, fun r => { r with reason := some s }⟩).toList

theorem toJson_eq_object (v : Verdict) : v.toJson = Filling.object v.fillings := by
  obtain ⟨outcome, _ | reason⟩ := v <;> rfl

/-- A verdict is read back, with its reason if it has one. -/
theorem ofJson_toJson (v : Verdict) : ofJson v.toJson.compact = .ok v := by
  have houtcome : ∀ b, Filling.Fits shape.members
      ⟨"outcome", .flag b, fun r => { r with outcome := b }⟩ :=
    fun b => ⟨_, rfl, fun r => (takes_readFlag _).bind_pure _⟩
  have hreason : ∀ s, Filling.Fits shape.members
      ⟨"reason", .text s, fun r => { r with reason := some s }⟩ :=
    fun s => ⟨_, rfl, fun r => (takes_readOptional (some s)).bind_pure _⟩
  have htakes : Takes (readRecord shape) (Filling.object v.fillings).compact.toList
      (Filling.fill shape.blank v.fillings) := by
    refine takes_readRecord shape v.fillings ?_ ?_ ?_ <;> obtain ⟨outcome, _ | reason⟩ := v
    · simp [fillings, houtcome]
    · simp [fillings, houtcome, hreason]
    all_goals simp [fillings, shape]
  rw [toJson_eq_object]
  refine (readAll_of_takes htakes).trans ?_
  obtain ⟨outcome, _ | reason⟩ := v <;> rfl

end Verdict

/-! ## Nodes -/

/-- A kind of element is read back. -/
theorem ElementKind.ofJson_toJson (k : ElementKind) : ofJson k.toJson.compact = .ok k :=
  readAll_of_takes (takes_nameOf (by cases k <;> rfl))

namespace NodeKind

/-- The field that a kind has. -/
def filling : NodeKind → Filling NodeKind
  | startEvent message => ⟨"message", .flag message, fun _ => startEvent message⟩
  | endEvent message => ⟨"message", .flag message, fun _ => endEvent message⟩
  | task route => ⟨"error_route", .ofOption route, fun _ => task route⟩
  | serviceTask route => ⟨"error_route", .ofOption route, fun _ => serviceTask route⟩
  | exclusiveGateway otherwise =>
    ⟨"otherwise", .ofOption otherwise, fun _ => exclusiveGateway otherwise⟩

theorem toJson_eq_object (k : NodeKind) :
    k.toJson = .object [(choiceName k.element, Filling.object [k.filling])] := by
  cases k <;> rfl

theorem fits_filling (k : NodeKind) : k.filling.Fits (shape k.element).members := by
  cases k with
  | startEvent message => exact ⟨_, rfl, fun _ => (takes_readFlag message).bind_pure startEvent⟩
  | endEvent message => exact ⟨_, rfl, fun _ => (takes_readFlag message).bind_pure endEvent⟩
  | task route => exact ⟨_, rfl, fun _ => (takes_readOptional route).bind_pure task⟩
  | serviceTask route => exact ⟨_, rfl, fun _ => (takes_readOptional route).bind_pure serviceTask⟩
  | exclusiveGateway otherwise =>
    exact ⟨_, rfl, fun _ => (takes_readOptional otherwise).bind_pure exclusiveGateway⟩

/-- **What a node is** is read back from an object in an object. -/
theorem takes_reader (k : NodeKind) : Takes reader k.toJson.compact.toList k := by
  have hname : names.lookup (choiceName k.element) = some k.element := by
    cases k <;> rfl
  have htakes : Takes (readRecord (shape k.element)) (Filling.object [k.filling]).compact.toList
      (Filling.fill (shape k.element).blank [k.filling]) := by
    refine takes_readRecord (shape k.element) [k.filling] ?_ (List.nodup_singleton _) ?_
    · exact List.forall_mem_singleton.2 k.fits_filling
    · intro m hm
      have hkeys : (shape k.element).members.map (·.name) = [k.filling].map (·.key) := by
        cases k <;> rfl
      rw [← hkeys]
      exact .inr (List.mem_map_of_mem hm)
  have hfill : Filling.fill (shape k.element).blank [k.filling] = k := by cases k <;> rfl
  rw [hfill] at htakes
  rw [toJson_eq_object]
  exact takes_choice hname htakes

end NodeKind

namespace Node

/-- The fields of a node. -/
def fillings (n : Node) : List (Filling Node) := [
  ⟨"id", .text n.id, fun r => { r with id := n.id }⟩,
  ⟨"name", .ofOption n.name, fun r => { r with name := n.name }⟩,
  ⟨"kind", n.kind.toJson, fun r => { r with kind := n.kind }⟩,
  ⟨"expression", .ofOption n.text, fun r => { r with text := n.text }⟩,
  ⟨"outgoing", .list (n.outgoing.map .text), fun r => { r with outgoing := n.outgoing }⟩]

theorem fits_of_mem_fillings {n : Node} : ∀ f ∈ n.fillings, f.Fits shape.members := by
  simp only [fillings, List.forall_mem_cons, List.not_mem_nil, false_implies, implies_true,
    and_true]
  exact ⟨⟨_, rfl, fun r => (takes_readText _).bind_pure _⟩,
    ⟨_, rfl, fun r => (takes_readOptional _).bind_pure _⟩,
    ⟨_, rfl, fun r => (NodeKind.takes_reader _).bind_pure _⟩,
    ⟨_, rfl, fun r => (takes_readOptional _).bind_pure _⟩,
    ⟨_, rfl, fun r => (takes_readList _).bind_pure _⟩⟩

/-- A node is read back. -/
theorem ofJson_toJson (n : Node) : ofJson n.toJson.compact = .ok n := by
  have htakes : Takes (readRecord shape) (Filling.object n.fillings).compact.toList
      (Filling.fill shape.blank n.fillings) :=
    takes_readRecord shape n.fillings n.fits_of_mem_fillings (by simp [fillings])
      (by simp [shape, fillings])
  exact readAll_of_takes htakes

end Node

/-- **What is written as JSON is read back.** Every node, whatever its kind and
with or without each optional part, every verdict and every kind of element is
what is read from its compact text. So are the options of emission and of
resolution; if any of their fields are removed from the object, what is read is
the same options with exactly these at their defaults. -/
theorem ofJson_compact :
    (∀ n : Node, Node.ofJson n.toJson.compact = .ok n) ∧
    (∀ v : Verdict, Verdict.ofJson v.toJson.compact = .ok v) ∧
    (∀ k : ElementKind, ElementKind.ofJson k.toJson.compact = .ok k) ∧
    (∀ c : EmitConfig, EmitConfig.ofJson c.toJson.compact = .ok c ∧
      ∀ removed, EmitConfig.ofJson (c.toJson.without removed).compact = .ok (c.reset removed)) ∧
    ∀ o : ResolveOptions, ResolveOptions.ofJson o.toJson.compact = .ok o ∧
      ∀ removed, ResolveOptions.ofJson (o.toJson.without removed).compact =
        .ok (o.reset removed) := by
  refine ⟨Node.ofJson_toJson, Verdict.ofJson_toJson, ElementKind.ofJson_toJson,
    fun c => ⟨?_, c.ofJson_without⟩, fun o => ⟨?_, o.ofJson_without⟩⟩
  · exact c.ofJson_without []
  · exact o.ofJson_without []

end ProcessCompiler
