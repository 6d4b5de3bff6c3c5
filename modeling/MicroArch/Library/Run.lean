import Mathlib.Data.Nat.Init
import Mathlib.Order.RelClasses
import Mathlib.Tactic.TypeStar

/-!
# Runs of a Deterministic Machine

A machine is a step function on a type of states. Its run from a state is
unique, so a property of every run is a property of `runFor step s n` for
every `n`, and the arguments below are the ones every machine shares.

`runFor_invariant` packages the induction behind an invariant once. What it
cannot express is a property that looks back at the run, such as "this was
on the bus at some earlier step"; those are proved by induction on the step
count directly, with `runFor_succ` to peel off the last step.

`reaches_of_measure` is the termination rule. It does not ask the measure to
drop on each step: a machine whose cycle takes several steps only makes
progress from one cycle boundary to the next, so the rule lets the caller
name how many steps one round takes. The measure takes values in any
well-founded order, so that it can be lexicographic.

## Main definitions

* `runFor`: The state after a number of steps.

## Theorems

* `runFor_succ`: The last step of a run.
* `runFor_add`: Splitting a run at an intermediate step.
* `runFor_invariant`: What one step preserves, every run preserves.
* `reaches_of_measure`: A measure that drops each round forces the goal.
-/

namespace MicroArch

namespace Run

variable {σ : Type*}

/-- The state after `n` steps from `s`. -/
def runFor (step : σ → σ) (s : σ) : Nat → σ
  | 0 => s
  | n + 1 => step (runFor step s n)

@[simp] theorem runFor_zero (step : σ → σ) (s : σ) : runFor step s 0 = s := rfl

theorem runFor_succ (step : σ → σ) (s : σ) (n : Nat) :
    runFor step s (n + 1) = step (runFor step s n) := rfl

theorem runFor_add (step : σ → σ) (s : σ) (m n : Nat) :
    runFor step s (m + n) = runFor step (runFor step s m) n := by
  induction n with
  | zero => rfl
  | succ k ih =>
      rw [← Nat.add_assoc, runFor_succ, runFor_succ, ih]

theorem runFor_invariant (step : σ → σ) (I : σ → Prop) (s : σ) (h0 : I s)
    (hstep : ∀ t, I t → I (step t)) : ∀ n, I (runFor step s n) := by
  intro n
  induction n with
  | zero => exact h0
  | succ k ih => exact hstep _ ih

/-- Every state satisfying `I` reaches the goal, provided a round of some
    number of steps either reaches it or lands on `I` with a smaller
    measure. -/
theorem reaches_of_measure {β : Type*} [Preorder β] [WellFoundedLT β] (step : σ → σ)
    (I goal : σ → Prop) (measure : σ → β)
    (hround : ∀ s, I s → ∃ k, goal (runFor step s k) ∨
      (I (runFor step s k) ∧ measure (runFor step s k) < measure s)) :
    ∀ s, I s → ∃ k, goal (runFor step s k) := by
  have key : ∀ b s, measure s = b → I s → ∃ k, goal (runFor step s k) := by
    intro b
    -- On the measure, since a round of several steps is no subterm of anything.
    induction b using WellFoundedLT.induction with
    | ind b ih =>
        intro s hb hI
        rcases hround s hI with ⟨k, hgoal | ⟨hI', hdrop⟩⟩
        · exact ⟨k, hgoal⟩
        · rw [hb] at hdrop
          rcases ih _ hdrop _ rfl hI' with ⟨j, hj⟩
          -- The round, and from where it ends the rest.
          exact ⟨k + j, by rw [runFor_add]; exact hj⟩
  intro s hI
  exact key (measure s) s rfl hI

end Run

end MicroArch
