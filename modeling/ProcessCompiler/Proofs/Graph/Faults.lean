import ProcessCompiler.Graph.Resolution
/-!
# Computations that meet faults

The two ways of resolving a diagram differ only in what a fault does. The
judgement `Meets` ties them together: a lenient computation always ends,
with a result and the faults it passed over, and the strict one ends with
the same result if there were none, and with the first of them otherwise.
It holds of meeting a fault and is kept by putting computations in a row.
-/

namespace ProcessCompiler

namespace Resolution

variable {α β : Type}

/-- How a strict computation ends that would give `a` but meets faults. -/
def ending (a : α) (log : List Fault) : List Fault → Except Fault (α × List Fault)
  | [] => .ok (a, log)
  | f :: _ => .error f

/-- **What a computation meets.** Whatever was passed over before, its
lenient form gives the result and adds the faults to the list; its strict
form gives the result if there are none and ends with the first otherwise. -/
structure Meets (m : Strictness → Resolve α) (a : α) (faults : List Fault) : Prop where
  lenient : ∀ log, (m .lenient).run log = .ok (a, log ++ faults)
  strict : ∀ log, (m .strict).run log = ending a log faults

/-- A result meets no fault. -/
theorem Meets.pure (a : α) : Meets (fun _ => Pure.pure a) a [] where
  lenient log := by rw [List.append_nil]; rfl
  strict _ := rfl

/-- A fault meets itself. -/
theorem meets_degrade (f : Fault) : Meets (degrade · f) () [f] where
  lenient _ := rfl
  strict _ := rfl

/-- **Computations in a row** meet the faults of the first and then those
of the second. -/
theorem Meets.bind {m : Strictness → Resolve α} {k : Strictness → α → Resolve β} {a : α} {b : β}
    {faults later : List Fault} (hm : Meets m a faults) (hk : Meets (k · a) b later) :
    Meets (fun s => m s >>= k s) b (faults ++ later) where
  lenient log := by
    rw [StateT.run_bind, hm.lenient, ← List.append_assoc]
    exact hk.lenient (log ++ faults)
  strict log := by
    rw [StateT.run_bind, hm.strict]
    cases faults with
    | nil => exact hk.strict log
    | cons f rest => rfl

/-- A computation behind a fault that is met only under a condition. -/
theorem Meets.degrade_if {m : Strictness → Resolve α} {a : α} {faults : List Fault}
    (h : Meets m a faults) (c : Prop) [Decidable c] (f : Fault) :
    Meets (fun s => if c then (do degrade s f; m s) else m s) a
      (if c then f :: faults else faults) := by
  by_cases hc : c
  · simp only [if_pos hc]
    exact (meets_degrade f).bind h
  · simp only [if_neg hc]
    exact h

end Resolution

end ProcessCompiler
