import Mathlib.Logic.Function.Iterate
/-!
# Loops

A loop runs its body until a test holds, and nothing in it says that the test
ever will. `Loop` relates a state to the one in which the loop is left, with the
number of rounds it took; a loop that goes on forever is related to no state.
A loop ends exactly at the first round after which its test holds (`loop_iff`).
-/

namespace ProcessCompiler

/-- **A loop that ends.** From the state `a` the body is run as long as the test
`done` fails, and the loop is left in the state `b`, after the given number of
rounds. -/
inductive Loop {α : Type} (done : α → Bool) (body : α → α) : ℕ → α → α → Prop where
  /-- The test holds, and the loop is left. -/
  | leave {a : α} (h : done a = true) : Loop done body 0 a a
  /-- The test fails, and the body is run once more. -/
  | again {rounds : ℕ} {a b : α} (h : done a = false) (rest : Loop done body rounds (body a) b) :
      Loop done body (rounds + 1) a b

/-- **Where a loop ends**: in the first state of its run for which the test holds. -/
theorem loop_iff {α : Type} {done : α → Bool} {body : α → α} {rounds : ℕ} {a b : α} :
    Loop done body rounds a b ↔
      b = body^[rounds] a ∧ done b = true ∧ ∀ m < rounds, done (body^[m] a) = false := by
  constructor
  · intro h
    induction h with
    | leave h => exact ⟨rfl, h, fun m hm => absurd hm (Nat.not_lt_zero m)⟩
    | again h _ ih =>
      obtain ⟨hb, hdone, hbefore⟩ := ih
      refine ⟨by rw [Function.iterate_succ_apply, hb], hdone, fun m hm => ?_⟩
      cases m with
      | zero => exact h
      | succ m =>
        rw [Function.iterate_succ_apply]
        exact hbefore m (by omega)
  · rintro ⟨rfl, hdone, hbefore⟩
    induction rounds generalizing a with
    | zero => exact .leave hdone
    | succ rounds ih =>
      refine .again (hbefore 0 (by omega)) (ih hdone fun m hm => ?_)
      rw [← Function.iterate_succ_apply]
      exact hbefore (m + 1) (by omega)

end ProcessCompiler
