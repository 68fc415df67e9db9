import ProcessCompiler.Proofs.Program.Listing
/-!
# Imports

A program imports the modules that its tasks call, in the order in which they
are called. With or without repetitions: the one list is the first occurrences of
the other, `Graph.imports_lower`, and nothing else in the program or in its text
depends on the choice.
-/

namespace ProcessCompiler

open List Text

/-- `ys` has each entry of `xs` once, in the order in which they first occur. -/
structure FirstOccurrences {α : Type} [DecidableEq α] (ys xs : List α) : Prop where
  sublist : ys <+ xs
  nodup : ys.Nodup
  mem_iff : ∀ x, x ∈ ys ↔ x ∈ xs
  ordered : ys.Pairwise fun x y => xs.idxOf x < xs.idxOf y

theorem FirstOccurrences.map {α β : Type} [DecidableEq α] [DecidableEq β] {ys xs : List α}
    (h : FirstOccurrences ys xs) {f : α → β} (hf : Function.Injective f) :
    FirstOccurrences (ys.map f) (xs.map f) where
  sublist := h.sublist.map f
  nodup := h.nodup.map hf
  mem_iff := fun z => by simp [List.mem_map, h.mem_iff]
  ordered := by
    have hidx : ∀ x, (xs.map f).idxOf (f x) = xs.idxOf x := fun x => by
      simp [List.idxOf, List.findIdx_map, Function.comp_def, hf.beq_eq]
    simp only [List.pairwise_map, hidx]
    exact h.ordered

namespace Lowering

variable {seen xs : List String} {x : String}

theorem mem_firstOnly : x ∈ firstOnly seen xs ↔ x ∈ xs ∧ x ∉ seen := by
  induction xs generalizing seen with
  | nil => simp [firstOnly]
  | cons name rest ih =>
    rw [firstOnly]
    split <;> rename_i hseen
    · rw [ih, List.mem_cons]
      grind
    · rw [List.mem_cons, ih, List.mem_cons, List.mem_cons]
      grind

theorem firstOnly_sublist (seen xs : List String) : firstOnly seen xs <+ xs := by
  induction xs generalizing seen with
  | nil => exact List.Sublist.refl _
  | cons name rest ih =>
    rw [firstOnly]
    split
    · exact (ih seen).cons name
    · exact (ih (name :: seen)).cons_cons name

theorem nodup_firstOnly (seen xs : List String) : (firstOnly seen xs).Nodup := by
  induction xs generalizing seen with
  | nil => exact List.nodup_nil
  | cons name rest ih =>
    rw [firstOnly]
    split
    · exact ih seen
    · refine List.nodup_cons.2 ⟨fun hmem => ?_, ih (name :: seen)⟩
      exact (mem_firstOnly.1 hmem).2 List.mem_cons_self

/-- Names other than the first stand one place further back in a longer list. -/
theorem pairwise_idxOf_cons {ys rest : List String} {name : String}
    (h : ys.Pairwise fun x y => rest.idxOf x < rest.idxOf y) (hne : name ∉ ys) :
    ys.Pairwise fun x y => (name :: rest).idxOf x < (name :: rest).idxOf y := by
  refine h.imp_of_mem fun {x y} hx hy hlt => ?_
  rw [List.idxOf_cons_ne _ (ne_of_mem_of_not_mem hx hne).symm,
    List.idxOf_cons_ne _ (ne_of_mem_of_not_mem hy hne).symm]
  omega

theorem ordered_firstOnly (seen xs : List String) :
    (firstOnly seen xs).Pairwise fun x y => xs.idxOf x < xs.idxOf y := by
  induction xs generalizing seen with
  | nil => exact List.Pairwise.nil
  | cons name rest ih =>
    rw [firstOnly]
    split <;> rename_i hseen
    · refine pairwise_idxOf_cons (ih seen) fun hmem => (mem_firstOnly.1 hmem).2 ?_
      exact List.contains_iff_mem.1 hseen
    · have hnew : name ∉ firstOnly (name :: seen) rest := fun hmem =>
        (mem_firstOnly.1 hmem).2 List.mem_cons_self
      refine List.pairwise_cons.2 ⟨fun y hy => ?_, pairwise_idxOf_cons (ih _) hnew⟩
      rw [List.idxOf_cons_self, List.idxOf_cons_ne _ (ne_of_mem_of_not_mem hy hnew).symm]
      omega

theorem firstOccurrences_firstOnly (xs : List String) : FirstOccurrences (firstOnly [] xs) xs where
  sublist := firstOnly_sublist [] xs
  nodup := nodup_firstOnly [] xs
  mem_iff := fun x => by simp [mem_firstOnly]
  ordered := ordered_firstOnly [] xs

/-- The modules that a text calls, none if it cannot be read. -/
def readModules (text : String) : List String :=
  match referencedModules .statements text with
  | .ok modules => modules
  | .error _ => []

/-- The modules that a node calls: those of its text, if it is a task and has one. -/
def modulesOf (n : Node) : List String :=
  match n.kind, n.expression with
  | .task _, some text => readModules text
  | _, _ => []

theorem usedModules_eq_flatMap (nodes : List Node) : usedModules nodes = nodes.flatMap modulesOf := by
  change (taskTexts nodes).flatMap readModules = _
  induction nodes with
  | nil => rfl
  | cons n nodes ih =>
    rw [List.flatMap_cons, ← ih]
    cases hkind : n.kind <;> cases hexpression : n.expression <;>
      simp [taskTexts, modulesOf, NodeKind.element, hkind, hexpression]

end Lowering

namespace Layout

variable {config : EmitConfig}

/-- The declaration that imports a module. -/
def useLine (config : EmitConfig) (m : String) : String :=
  "use " ++ config.apiRoot ++ "::" ++ m ++ ";\n"

theorem useLine_injective : Function.Injective (useLine config) := by
  intro m m' h
  simpa [useLine] using h

/-- The imports end the header. -/
theorem exists_header_eq (config : EmitConfig) : ∃ front : String, ∀ imports,
    header config imports = front ++ String.join (imports.map (useLine config)) :=
  ⟨_, fun _ => rfl⟩

end Layout

namespace Graph

open Layout

/-- **Imports with and without repetitions.** The shorter list is the first
occurrences of the longer, and the programs differ in nothing else. The longer one
is what the tasks call, node after node. Of the two texts, the one has the `use`
declarations of the other without the repeated ones, and the same text around
them. -/
theorem imports_lower (g : Graph) (start : Node) (config : EmitConfig) :
    let once := { config with dedupeImports := true }
    let often := { config with dedupeImports := false }
    let short := g.lower start once
    let long := g.lower start often
    FirstOccurrences short.imports long.imports ∧
    short = { long with imports := short.imports } ∧
    long.imports = g.toList.flatMap Lowering.modulesOf ∧
    FirstOccurrences (short.imports.map (useLine config)) (long.imports.map (useLine config)) ∧
    ∃ before behind : String,
      short.render once = before ++ String.join (short.imports.map (useLine config)) ++ behind ∧
      long.render often = before ++ String.join (long.imports.map (useLine config)) ++ behind := by
  intro once often short long
  have hfirst : FirstOccurrences short.imports long.imports :=
    Lowering.firstOccurrences_firstOnly _
  obtain ⟨before, hheader⟩ := exists_header_eq config
  refine ⟨hfirst, rfl, Lowering.usedModules_eq_flatMap _, hfirst.map useLine_injective, before,
    entry config long.entry ++ String.join (long.procedures.map fun q =>
      "\n" ++ procedure config.context q), ?_, ?_⟩
  · calc short.render once
        = header config short.imports ++ entry config long.entry ++
          String.join (long.procedures.map fun q => "\n" ++ procedure config.context q) := rfl
      _ = _ := by rw [hheader, String.append_assoc]
  · calc long.render often
        = header config long.imports ++ entry config long.entry ++
          String.join (long.procedures.map fun q => "\n" ++ procedure config.context q) := rfl
      _ = _ := by rw [hheader, String.append_assoc]

end Graph

end ProcessCompiler
