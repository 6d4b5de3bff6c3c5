import Mathlib.Algebra.BigOperators.Ring.Finset
import Mathlib.Data.Fintype.BigOperators
import MicroArch.Library.TwoLevel

/-!
# Competing With a Fixed Prediction

How many branches a two-level predictor mispredicts, without any assumption
about the branches.

A counter that is compared with always predicting one direction pays for its
mispredictions with the outcomes that go the other way. `remaining` is the
potential. An outcome in the direction lowers it whenever it is mispredicted,
and an outcome against it raises it by one at most. So a counter mispredicts
at most twice as often as the better of the two directions, up to what it has
to learn at the start.

The mispredictions of a predictor are those of its counters, each met by the
outcomes it was trained with.

## Main definitions

* `Shape.misses`: The mispredictions of one counter.
* `Shape.allMissed`: The mispredictions of a predictor.
* `Shape.allowance`: Twice the mispredictions of the better direction.

## Theorems

* `misses_add_remaining_le`: What the potential pays for.
* `allMissed_eq_sum`: Every misprediction is one of a counter.
* `allMissed_le`: The bound for a predictor.
-/

namespace MicroArch

namespace TwoLevel

namespace Shape

/-! ### One counter -/

/-- The mispredictions of a counter by its outcomes, the newest one first. -/
def misses (S : Shape) : List Bool → Nat
  | [] => 0
  | dir :: outs => misses S outs + if decide (S.taken ≤ S.count outs) ≠ dir then 1 else 0

/-- What a counter may mispredict: all outcomes against a direction twice, and
    what it has to learn at the start. -/
def allowance (S : Shape) (outs : List Bool) : Nat :=
  min (S.remaining true S.start + 2 * outs.count false)
    (S.remaining false S.start + 2 * outs.count true)

variable {S : Shape}

/-- An outcome against the direction raises the potential by one at most. -/
theorem remaining_sat_not (c : Nat) (dir : Bool) :
    S.remaining dir (sat S.top (!dir) c) ≤ S.remaining dir c + 1 := by
  cases dir with
  | false =>
      simp only [remaining, sat, Bool.not_false, Bool.false_eq_true, if_false, if_true]
      omega
  | true =>
      simp only [remaining, sat, Bool.not_true, Bool.false_eq_true, if_false, if_true]
      omega

theorem misses_add_remaining_le (dir : Bool) (outs : List Bool) :
    S.misses outs + S.remaining dir (S.count outs)
      ≤ S.remaining dir S.start + 2 * outs.count (!dir) := by
  induction outs with
  | nil => simp [misses, count]
  | cons out outs ih =>
      rw [misses, count]
      by_cases hout : out = dir
      · subst hout
        -- An outcome in the direction pays for its own misprediction.
        have hpaid := remaining_sat (S := S) (count_le outs) out
        have hcount : (out :: outs).count (!out) = outs.count (!out) :=
          List.count_cons_of_ne (by cases out <;> decide)
        omega
      · obtain rfl : out = !dir := by revert hout; cases out <;> cases dir <;> decide
        -- An outcome against it counts twice: it may be mispredicted, and raises the potential.
        have hraised := remaining_sat_not (S := S) (S.count outs) dir
        have hcount : ((!dir) :: outs).count (!dir) = outs.count (!dir) + 1 := List.count_cons_self
        split_ifs <;> omega

theorem misses_le_allowance (outs : List Bool) : S.misses outs ≤ S.allowance outs := by
  have htrue := misses_add_remaining_le (S := S) true outs
  have hfalse := misses_add_remaining_le (S := S) false outs
  rw [Bool.not_true] at htrue
  rw [Bool.not_false] at hfalse
  exact le_min (by omega) (by omega)

/-! ### All counters -/

section

variable {β τ : Type*} [DecidableEq β] [DecidableEq τ]

/-- The mispredictions of a run, the newest branch first. -/
def allMissed (S : Shape) : List (Event β τ) → Nat
  | [] => 0
  | e :: es => allMissed S es + if S.predict (S.after es) e.first e.second ≠ e.dir then 1 else 0

/-- Every misprediction is one of the counter that made the prediction. -/
theorem allMissed_eq_sum {A : Finset (τ × Nat)} (es : List (Event β τ))
    (hA : ∀ e ∈ es, ∀ h < 2 ^ S.bits, (e.second, h) ∈ A) :
    S.allMissed es = ∑ x ∈ A, S.misses (S.trained x.1 x.2 es) := by
  induction es with
  | nil => simp [allMissed, trained, misses]
  | cons e es ih =>
      have hkey : (e.second, S.pattern e.first es) ∈ A :=
        hA e List.mem_cons_self _ (S.pattern_lt e.first es)
      -- Only the counter that is selected is trained.
      have hstep : ∀ x ∈ A, S.misses (S.trained x.1 x.2 (e :: es))
          = S.misses (S.trained x.1 x.2 es) + if (e.second, S.pattern e.first es) = x
            then (if S.predict (S.after es) e.first e.second ≠ e.dir then 1 else 0) else 0 := by
        rintro ⟨t, h⟩ -
        simp only [trained, Prod.mk.injEq]
        by_cases hmet : e.second = t ∧ S.pattern e.first es = h
        · rcases hmet with ⟨rfl, rfl⟩
          rw [if_pos ⟨rfl, rfl⟩, if_pos ⟨rfl, rfl⟩, misses, predict, after_history, after_counter]
        · rw [if_neg hmet, if_neg hmet, Nat.add_zero]
      rw [allMissed, ih fun e' he' => hA e' (List.mem_cons_of_mem _ he'),
        Finset.sum_congr rfl hstep, Finset.sum_add_distrib, Finset.sum_ite_eq, if_pos hkey]

/-- A predictor mispredicts at most what its counters may. -/
theorem allMissed_le [Fintype τ] (es : List (Event β τ)) :
    S.allMissed es ≤
      ∑ t, ∑ h ∈ Finset.range (2 ^ S.bits), S.allowance (S.trained t h es) := by
  have hA : ∀ e ∈ es, ∀ h < 2 ^ S.bits,
      (e.second, h) ∈ (Finset.univ : Finset τ) ×ˢ Finset.range (2 ^ S.bits) := by
    intro e _ h hh
    rw [Finset.mem_product, Finset.mem_range]
    exact ⟨Finset.mem_univ _, hh⟩
  rw [allMissed_eq_sum es hA, Finset.sum_product]
  exact Finset.sum_le_sum fun t _ => Finset.sum_le_sum fun h _ => misses_le_allowance _

end

end Shape

end TwoLevel

end MicroArch
