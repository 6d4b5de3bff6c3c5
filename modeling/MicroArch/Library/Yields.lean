import Mathlib.Data.List.FinRange
import Mathlib.Data.List.Induction
import Mathlib.Tactic.Common

/-!
# Computations That Have a Result

A program of checked steps is an `Option`: it has no result when one of the
checks failed. `Yields x P` says that `x` has a result and that the result
satisfies `P`, which is the total-correctness triple of such a program.

A proof follows the text of the program. Each bind is `Yields.bind`, with the
specification of the step that was bound; a loop is one of the `foldlM`
rules, with the invariant as a function of the part of the list, or of the
number of rounds, that lies behind.

## Main definitions

* `Yields`: The computation has a result with a property.

## Theorems

* `Yields.bind`: The rule of composition.
* `Yields.mono`: The rule of consequence.
* `Yields.and`: The rule of conjunction.
* `Yields.foldlM`: A loop over a list keeps an invariant of the list so far.
* `Yields.foldlM_range`, `Yields.foldlM_finRange`: Counted loops.
-/

namespace MicroArch

universe u

variable {α β : Type u}

/-- The computation has a result, and the result satisfies `P`. -/
def Yields (x : Option α) (P : α → Prop) : Prop := ∃ a, x = some a ∧ P a

namespace Yields

variable {x : Option α} {P Q : α → Prop} {R : β → Prop}

theorem ret {a : α} (h : P a) : Yields (some a) P := ⟨a, rfl, h⟩

theorem bind {f : α → Option β} (hx : Yields x P) (hf : ∀ a, P a → Yields (f a) R) :
    Yields (x >>= f) R := by
  rcases hx with ⟨a, rfl, ha⟩
  exact hf a ha

theorem map {f : α → β} (hx : Yields x P) (hf : ∀ a, P a → R (f a)) : Yields (x.map f) R := by
  rcases hx with ⟨a, rfl, ha⟩
  exact ⟨f a, rfl, hf a ha⟩

theorem mono (hx : Yields x P) (h : ∀ a, P a → Q a) : Yields x Q := by
  rcases hx with ⟨a, hx, ha⟩
  exact ⟨a, hx, h a ha⟩

/-- Two specifications of one computation hold of the same result. -/
theorem and (hx : Yields x P) (hy : Yields x Q) : Yields x fun a => P a ∧ Q a := by
  rcases hx with ⟨a, hx, ha⟩
  rcases hy with ⟨b, hb, hq⟩
  rw [hx, Option.some.injEq] at hb
  subst hb
  exact ⟨a, hx, ha, hq⟩

/-- A test decides which of two computations runs. -/
theorem ite {c : Prop} [Decidable c] {y : Option α} (hx : c → Yields x P)
    (hy : ¬ c → Yields y P) : Yields (if c then x else y) P := by
  by_cases h : c
  · rw [if_pos h]
    exact hx h
  · rw [if_neg h]
    exact hy h

/-- A loop over a list. The invariant may speak of the elements that the loop
    has passed. -/
theorem foldlM {f : β → α → Option β} {b : β} (Inv : List α → β → Prop) (l : List α)
    (init : Inv [] b) (step : ∀ pre a b, Inv pre b → Yields (f b a) (Inv (pre ++ [a]))) :
    Yields (l.foldlM f b) (Inv l) := by
  -- From the end of the list, so that the prefix is what the hypothesis is about.
  induction l using List.reverseRecOn with
  | nil => exact ret init
  | append_singleton l a ih =>
      rw [List.foldlM_append]
      refine ih.bind fun b' hb' => ?_
      rw [List.foldlM_cons]
      exact (step l a b' hb').bind fun b'' hb'' => ret hb''

/-- A loop that counts. -/
theorem foldlM_range {f : β → Nat → Option β} {b : β} (Inv : Nat → β → Prop) (n : Nat)
    (init : Inv 0 b) (step : ∀ i b, i < n → Inv i b → Yields (f b i) (Inv (i + 1))) :
    Yields ((List.range n).foldlM f b) (Inv n) := by
  induction n with
  | zero => exact ret init
  | succ n ih =>
      rw [List.range_succ, List.foldlM_append]
      have hn := ih fun i b hi => step i b (Nat.lt_succ_of_lt hi)
      refine hn.bind fun b' hb' => ?_
      rw [List.foldlM_cons]
      exact (step n b' (Nat.lt_succ_self n) hb').bind fun b'' hb'' => ret hb''

/-- A loop that counts over a bounded type. -/
theorem foldlM_finRange {n : Nat} {f : β → Fin n → Option β} {b : β} (Inv : Nat → β → Prop)
    (init : Inv 0 b) (step : ∀ (k : Fin n) b, Inv k b → Yields (f b k) (Inv (k + 1))) :
    Yields ((List.finRange n).foldlM f b) (Inv n) := by
  induction n with
  | zero => exact ret init
  | succ n ih =>
      rw [List.finRange_succ_last, List.foldlM_append, List.foldlM_map]
      have hn := ih fun k => step k.castSucc
      refine hn.bind fun b' hb' => ?_
      rw [List.foldlM_cons]
      exact (step (Fin.last n) b' hb').bind fun b'' hb'' => ret hb''

end Yields

end MicroArch
