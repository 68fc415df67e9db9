import ProcessCompiler.Proofs.Validation.Rules
/-!
# Emission with and without validation

A program's text is written in one of two ways: from an accepted graph, or from
the diagram itself. The second way looks for the start event on its own, and its
answer is the empty text where it finds none. Both come to the same: an accepted
diagram has the same text either way, and since no program's text is empty
(`Program.render_ne_empty`), the empty text says exactly that the diagram does
not resolve or has no single start event.
-/

namespace ProcessCompiler

/-- No program has an empty text, since it holds the entry procedure. -/
theorem Program.render_ne_empty (p : Program) (config : EmitConfig) : p.render config ≠ "" := by
  intro h
  have hentry : Layout.entry config p.entry = "" :=
    (String.append_eq_empty_iff.1 (String.append_eq_empty_iff.1 h).1).2
  have hend : "\n" = "" := (String.append_eq_empty_iff.1 hentry).2
  exact absurd hend (by decide)

namespace Diagram

variable {s : Strictness} {d : Diagram} {g : Graph}

/-- Around its only start event a diagram is emitted as its program's text. -/
theorem emitUnchecked_of_onlyStart {start : Node} (hg : d.graph s = .ok g)
    (hstart : g.OnlyStart start) (config : EmitConfig) :
    d.emitUnchecked s config = (g.lower start config).render config := by
  have hstarts := (filed_of_graph hg).startEvents_eq_singleton_iff.2 hstart
  simp only [emitUnchecked, hg, hstarts]

/-- Without a single start event nothing is emitted. -/
theorem emitUnchecked_of_no_onlyStart (hg : d.graph s = .ok g) (hnone : ¬∃ start, g.OnlyStart start)
    (config : EmitConfig) : d.emitUnchecked s config = "" := by
  simp only [emitUnchecked, hg]
  split
  · rename_i start hstarts
    exact absurd ⟨start, (filed_of_graph hg).startEvents_eq_singleton_iff.1 hstarts⟩ hnone
  · rfl

/-- **Both ways of emission agree.** What is accepted has the same text either
way, and that text is not empty. Whatever the diagram, the text without
validation is empty exactly if the diagram does not resolve, or resolves to a
graph without a single start event. -/
theorem emit_eq_emitUnchecked (s : Strictness) (config : EmitConfig) (d : Diagram) :
    (∀ v, d.validate s = .ok v →
      v.emit config = d.emitUnchecked s config ∧ v.emit config ≠ "") ∧
    (d.emitUnchecked s config = "" ↔
      (∃ f, d.graph s = .error f) ∨ ∃ g, d.graph s = .ok g ∧ ¬∃ start, g.OnlyStart start) := by
  constructor
  · intro v hv
    have haccepts := validate_eq_ok_iff.1 hv
    have hemit := emitUnchecked_of_onlyStart haccepts.resolved haccepts.only config
    exact ⟨hemit.symm, Program.render_ne_empty _ config⟩
  · cases hg : d.graph s with
    | error f => simp [emitUnchecked, hg]
    | ok g =>
      by_cases hstart : ∃ start, g.OnlyStart start
      · obtain ⟨start, honly⟩ := hstart
        have hne : d.emitUnchecked s config ≠ "" := by
          rw [emitUnchecked_of_onlyStart hg honly]
          exact Program.render_ne_empty _ config
        refine ⟨fun hempty => absurd hempty hne, ?_⟩
        rintro (⟨f, hf⟩ | ⟨g', hg', hnone⟩)
        · cases hf
        · exact absurd ⟨start, Except.ok.inj hg' ▸ honly⟩ hnone
      · simp only [emitUnchecked_of_no_onlyStart hg hstart, true_iff]
        exact .inr ⟨g, rfl, hstart⟩

/-- An accepted process, and one that does not resolve strictly. -/
theorem emit_eq_emitUnchecked_shipping :
    (∃ v, shipping.validate .strict = .ok v ∧
      v.emit .default = shipping.emitUnchecked .strict .default ∧ v.emit .default ≠ "") ∧
    doubled.emitUnchecked .strict .default = "" := by
  obtain ⟨v, hv⟩ := exists_validate_shipping
  refine ⟨⟨v, hv, (emit_eq_emitUnchecked .strict .default shipping).1 v hv⟩, ?_⟩
  have hfails : (doubled.graph .strict).isOk = false := by decide +kernel
  refine (emit_eq_emitUnchecked .strict .default doubled).2.2 (.inl ?_)
  cases hg : doubled.graph .strict with
  | error f => exact ⟨f, rfl⟩
  | ok g =>
    rw [hg] at hfails
    cases hfails

end Diagram

end ProcessCompiler
