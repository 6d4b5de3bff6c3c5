import MicroArch.Library.Run
import MicroArch.Tomasulo.Pipeline

/-!
# The Simulation Loop

`runTomasulo` as a machine that performs one stage function per step. A
configuration is the stage that runs next, the cycle number it is called
with, and the pipeline state, so the states between two stages of a cycle are
configurations too, and an invariant of every configuration is an invariant
of every state the pipeline can be seen in.

The loop body runs the stages in reverse order, increments the cycle, and
tests for the end; `returned` is where the loop breaks, and the machine stays
there. The run on a trace is unique, so "every run" is the run `runTomasulo`
and its step count.

The cycle is an `int` in the source, and so are the stamps that are copied from
it. Here it is a number that does not overflow, which is the same below
2147483648 cycles. `returns_within` in `Tomasulo.Cycles` bounds the cycles of a
program of `n` instructions by `23 * n + 30`, so the two agree on the whole run
of every program of up to ninety million instructions whose writers broadcast.

What happens in a run is read off consecutive configurations. An instruction
is placed in a unit when `issueToExecute` fills a slot that was empty, is
broadcast when `executeToCDB` puts it on the bus, enters a station when
`dispatchToIssue` puts it in one, and is fetched when `fetchToDispatch` moves
past it.

## Main definitions

* `Stage`: The stage functions, and the end of the loop.
* `Config`: What the loop is about to do, and in which state.
* `step`: One stage function.
* `runTomasulo`: The configuration after a number of stages.
* `Returned`: The loop has ended.
* `FetchedAt`, `EntersAt`, `StartsAt`, `BroadcastAt`: The events of a run.

## Theorems

* `step_cycle`: When the cycle number is incremented.
* `cycle_mono`: The cycle number never goes back.
* `returned_mono`: A loop that has ended stays ended.
* `returned_empty`: A loop that has ended left an empty pipeline.
-/

namespace MicroArch

namespace Tomasulo

/-- The stage functions in the order the loop calls them. -/
inductive Stage where
  | cdbToRetire
  | executeToCDB
  | issueToExecute
  | fetchToDispatch
  | dispatchToIssue
  | isSimulationDone
  | returned
  deriving DecidableEq

/-- A point of the loop: the stage to run next, the cycle, and the state. -/
structure Config where
  stage : Stage
  cycle : Nat
  state : State

/-- Runs one stage. The cycle is incremented after the last stage and before
    the end test. -/
def step (trace : Trace) (simInsn : Nat) (c : Config) : Config :=
  match c.stage with
  | .cdbToRetire => { c with stage := .executeToCDB, state := cdbToRetire c.state }
  | .executeToCDB =>
    { c with stage := .issueToExecute, state := executeToCDB trace c.cycle c.state }
  | .issueToExecute =>
    { c with stage := .fetchToDispatch, state := issueToExecute trace c.cycle c.state }
  | .fetchToDispatch =>
    { c with stage := .dispatchToIssue, state := fetchToDispatch trace c.cycle c.state }
  | .dispatchToIssue =>
    -- The increment stands between the last stage and the end test.
    { stage := .isSimulationDone, cycle := c.cycle + 1,
      state := dispatchToIssue trace c.cycle c.state }
  | .isSimulationDone =>
    let done := isSimulationDone simInsn c.state
    { c with stage := if done.1 then .returned else .cdbToRetire, state := done.2 }
  | .returned => c

/-- The loop is entered in cycle one. -/
def Config.initial : Config := { stage := .cdbToRetire, cycle := 1, state := State.initial }

/-- The run on a trace: the configuration after `n` stages. -/
def runTomasulo (trace : Trace) (simInsn : Nat) (n : Nat) : Config :=
  Run.runFor (step trace simInsn) Config.initial n

/-- The loop has ended; the cycle is then what the function returns. -/
def Returned (trace : Trace) (simInsn n : Nat) : Prop :=
  (runTomasulo trace simInsn n).stage = .returned

/-- The step reads entry `p` of the trace. -/
def FetchedAt (trace : Trace) (simInsn n p : Nat) : Prop :=
  (runTomasulo trace simInsn n).stage = .fetchToDispatch ∧
    (runTomasulo trace simInsn n).state.fetchIndex = p ∧
    (runTomasulo trace simInsn (n + 1)).state.fetchIndex = p + 1

/-- The entry is read at some point of the run. -/
def Fetched (trace : Trace) (simInsn p : Nat) : Prop := ∃ n, FetchedAt trace simInsn n p

/-- The step puts `p` in a reservation station. -/
def EntersAt (trace : Trace) (simInsn n p : Nat) : Prop :=
  (runTomasulo trace simInsn n).stage = .dispatchToIssue ∧
    ¬ (runTomasulo trace simInsn n).state.Held p ∧
    (runTomasulo trace simInsn (n + 1)).state.Held p

/-- The instruction goes through a reservation station. -/
def Stationed (trace : Trace) (simInsn p : Nat) : Prop := ∃ m, EntersAt trace simInsn m p

/-- The step puts `p` in the free slot `u` of a functional unit. -/
def StartsAt (trace : Trace) (simInsn n : Nat) (u : FuSlot) (p : Nat) : Prop :=
  (runTomasulo trace simInsn n).stage = .issueToExecute ∧
    (runTomasulo trace simInsn n).state.unit u = none ∧
    (runTomasulo trace simInsn (n + 1)).state.unit u = some p

/-- The step puts `p` on the common data bus. -/
def BroadcastAt (trace : Trace) (simInsn n p : Nat) : Prop :=
  (runTomasulo trace simInsn n).stage = .executeToCDB ∧
    (runTomasulo trace simInsn (n + 1)).state.commonDataBus = some p

theorem runTomasulo_succ (trace : Trace) (simInsn n : Nat) :
    runTomasulo trace simInsn (n + 1) = step trace simInsn (runTomasulo trace simInsn n) := rfl

theorem runTomasulo_add (trace : Trace) (simInsn m n : Nat) :
    runTomasulo trace simInsn (m + n)
      = Run.runFor (step trace simInsn) (runTomasulo trace simInsn m) n :=
  Run.runFor_add _ _ _ _

/-- A step only moves the cycle number when the last stage of a cycle runs. -/
theorem step_cycle (trace : Trace) (simInsn : Nat) (c : Config) :
    (step trace simInsn c).cycle
      = if c.stage = .dispatchToIssue then c.cycle + 1 else c.cycle := by
  rcases hs : c.stage <;> simp only [step, hs, reduceCtorEq, if_true, if_false]

theorem cycle_mono (trace : Trace) (simInsn m n : Nat) (h : m ≤ n) :
    (runTomasulo trace simInsn m).cycle ≤ (runTomasulo trace simInsn n).cycle := by
  induction n, h using Nat.le_induction with
  | base => exact Nat.le_refl _
  | succ n _ ih =>
      rw [runTomasulo_succ, step_cycle]
      -- Only one of the seven stages moves the cycle, and it moves it up.
      by_cases hs : (runTomasulo trace simInsn n).stage = .dispatchToIssue
      · rw [if_pos hs]
        omega
      · rw [if_neg hs]
        exact ih

theorem returned_succ (trace : Trace) (simInsn n : Nat) (h : Returned trace simInsn n) :
    runTomasulo trace simInsn (n + 1) = runTomasulo trace simInsn n := by
  unfold Returned at h
  -- A configuration that has returned is a fixed point of the step.
  rw [runTomasulo_succ, step, h]

/-- A loop that has ended stays as it is. -/
theorem returned_mono (trace : Trace) (simInsn m n : Nat) (hmn : m ≤ n)
    (h : Returned trace simInsn m) :
    runTomasulo trace simInsn n = runTomasulo trace simInsn m := by
  induction n, hmn using Nat.le_induction with
  | base => rfl
  | succ n _ ih =>
      have hn : Returned trace simInsn n := by
        unfold Returned
        rw [ih]
        exact h
      rw [returned_succ trace simInsn n hn, ih]

/-- The loop only ends when the end test finds the pipeline empty. -/
theorem returned_empty (trace : Trace) (simInsn n : Nat) (h : Returned trace simInsn n) :
    (runTomasulo trace simInsn n).state.Empty ∧
      simInsn ≤ (runTomasulo trace simInsn n).state.fetchIndex ∧
      (runTomasulo trace simInsn n).state.dontFetch = true := by
  -- By induction on the number of stages: only the end test can return.
  induction n with
  | zero => exact absurd h (by simp only [Returned, runTomasulo, Run.runFor_zero,
      Config.initial, reduceCtorEq, not_false_eq_true])
  | succ n ih =>
      cases hs : (runTomasulo trace simInsn n).stage with
      | returned =>
          rw [returned_succ trace simInsn n hs]
          exact ih hs
      | isSimulationDone =>
          rw [Returned, runTomasulo_succ, step, hs] at h
          rw [runTomasulo_succ, step, hs]
          simp only at h ⊢
          by_cases hd : (isSimulationDone simInsn (runTomasulo trace simInsn n).state).1 = true
          · unfold isSimulationDone at hd ⊢
            by_cases hn : (runTomasulo trace simInsn n).state.fetchIndex ≥ simInsn
            · rw [if_pos hn] at hd ⊢
              exact ⟨of_decide_eq_true hd, hn, rfl⟩
            · rw [if_neg hn] at hd
              exact absurd hd Bool.false_ne_true
          · rw [if_neg hd] at h
            exact absurd h (by simp only [reduceCtorEq, not_false_eq_true])
      -- No other stage is followed by the return.
      | _ =>
          rw [Returned, runTomasulo_succ, step, hs] at h
          exact absurd h (by simp only [reduceCtorEq, not_false_eq_true])

end Tomasulo

end MicroArch
