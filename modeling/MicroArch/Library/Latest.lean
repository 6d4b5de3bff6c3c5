import Mathlib.Order.Basic
import Mathlib.Tactic.Common

/-!
# The Latest Position with a Property

The reference an incrementally maintained "who did this last" table is
compared with: the greatest position below a bound that has a property, found
by counting down from the bound.

A table that is updated as a front moves over the positions has to agree with
`latest` at that front, and the front may pass positions without the property
in any number at once. `latest_congr` covers those moves: the result only
depends on which positions with the property lie below the bound.

Counting down makes the definition computable and gives it two equations, one
for a position with the property and one for a position without; inductions on
the bound use these. Everything else is about the position that is found, by
`latest_eq_some`.

## Main definitions

* `latest`: The greatest position below a bound with a property.

## Theorems

* `latest_eq_some`: What `latest` finds, and that it is the only one.
* `latest_eq_none`: When it finds nothing there is nothing.
* `latest_congr`: Bounds with the same positions below them agree.
* `latest_of_subset`: A sparser property with the same latest position.
-/

namespace MicroArch

namespace Latest

variable {P R : Nat → Prop} [DecidablePred P] [DecidablePred R]

/-- The greatest position below the bound with the property. -/
def latest (P : Nat → Prop) [DecidablePred P] : Nat → Option Nat
  | 0 => none
  | n + 1 => if P n then some n else latest P n

theorem latest_succ_pos {n : Nat} (h : P n) : latest P (n + 1) = some n := by
  rw [latest, if_pos h]

theorem latest_succ_neg {n : Nat} (h : ¬ P n) : latest P (n + 1) = latest P n := by
  rw [latest, if_neg h]

theorem latest_eq_none (n : Nat) : latest P n = none ↔ ∀ p, p < n → ¬ P p := by
  -- By induction on the bound, as the search counts down from it.
  induction n with
  | zero => exact ⟨fun _ p hp => absurd hp (Nat.not_lt_zero p), fun _ => rfl⟩
  | succ n ih =>
      by_cases hn : P n
      · rw [latest_succ_pos hn]
        refine ⟨fun h => absurd h (by simp only [reduceCtorEq, not_false_eq_true]), fun h => ?_⟩
        exact absurd hn (h n (Nat.lt_succ_self n))
      · rw [latest_succ_neg hn, ih]
        refine ⟨fun h p hp => ?_, fun h p hp => h p (Nat.lt_succ_of_lt hp)⟩
        rcases Nat.lt_succ_iff_lt_or_eq.mp hp with hlt | rfl
        · exact h p hlt
        · exact hn

theorem latest_eq_some (n p : Nat) :
    latest P n = some p ↔ p < n ∧ P p ∧ ∀ q, p < q → q < n → ¬ P q := by
  induction n with
  | zero =>
      refine ⟨fun h => absurd h ?_, fun h => absurd h.1 (Nat.not_lt_zero p)⟩
      simp only [latest, reduceCtorEq, not_false_eq_true]
  | succ n ih =>
      by_cases hn : P n
      · rw [latest_succ_pos hn, Option.some.injEq]
        constructor
        · rintro rfl
          exact ⟨Nat.lt_succ_self n, hn, fun q hq hlt => by omega⟩
        · intro hcase
          rcases hcase with ⟨hlt, -, hmax⟩
          -- A result below the bound would pass over the bound itself.
          by_contra hne
          exact hmax n (by omega) (Nat.lt_succ_self n) hn
      · rw [latest_succ_neg hn, ih]
        constructor
        · intro hcase
          rcases hcase with ⟨hlt, hp, hmax⟩
          refine ⟨by omega, hp, fun q hq hqn => ?_⟩
          rcases Nat.lt_succ_iff_lt_or_eq.mp hqn with hlt' | rfl
          · exact hmax q hq hlt'
          · exact hn
        · intro hcase
          rcases hcase with ⟨hlt, hp, hmax⟩
          have hpn : p ≠ n := fun h => hn (h ▸ hp)
          exact ⟨by omega, hp, fun q hq hqn => hmax q hq (by omega)⟩

/-- The result only depends on which positions with the property lie below
    the bound. -/
theorem latest_congr {m n : Nat} (h : ∀ p, P p → (p < m ↔ p < n)) : latest P m = latest P n := by
  refine Option.ext fun p => ?_
  -- Both sides are characterized by what lies below their bounds.
  rw [latest_eq_some, latest_eq_some]
  constructor
  · intro hcase
    rcases hcase with ⟨hlt, hp, hmax⟩
    exact ⟨(h p hp).mp hlt, hp, fun q hq hqn hPq => hmax q hq ((h q hPq).mpr hqn) hPq⟩
  · intro hcase
    rcases hcase with ⟨hlt, hp, hmax⟩
    exact ⟨(h p hp).mpr hlt, hp, fun q hq hqm hPq => hmax q hq ((h q hPq).mp hqm) hPq⟩

/-- A position that is the latest of a larger class, and belongs to the
    smaller one, is the latest of the smaller one. -/
theorem latest_of_subset {n p : Nat} (hsub : ∀ q, R q → P q) (h : latest P n = some p)
    (hp : R p) : latest R n = some p := by
  rw [latest_eq_some] at h ⊢
  exact ⟨h.1, hp, fun q hq hqn hR => h.2.2 q hq hqn (hsub q hR)⟩

end Latest

end MicroArch
