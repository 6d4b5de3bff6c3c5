import Mathlib.Data.List.Induction
import Mathlib.Tactic.Common

/-!
# Computations That May Fail

A program that can be stopped by faults is an `Except`. `Ends allowed x P`
says that `x` has a result which satisfies `P`, or that it was stopped by a
fault that is allowed. Faults that are not allowed do not occur.

A proof follows the text of the program, one rule application per bind.

The faults are a parameter of every statement, since the same program is looked
at twice: once to show that only certain faults occur, and once for what holds
of its result when any may. `Ends.meet` combines the two, and `Ends.of_eq` takes
a result out when the program is known to have one.

## Main definitions

* `Ends`: The computation has a result with a property, or an allowed fault.

## Theorems

* `bind_eq_ok`: The steps of a composition that has a result.
* `Ends.bind`: The rule of composition.
* `Ends.mono`: The rule of consequence.
* `Ends.meet`: Two ways of reasoning about one computation.
* `Ends.foldlM`: A loop over a list keeps an invariant of the list so far.
-/

namespace MicroArch

universe u v

variable {ε : Type v} {α β : Type u}

/-- The computation has a result with the property, or ends in an allowed
    fault. -/
def Ends (allowed : ε → Prop) (x : Except ε α) (P : α → Prop) : Prop :=
  match x with
  | .ok a => P a
  | .error e => allowed e

/-- What led to the result of a composition. -/
theorem bind_eq_ok {x : Except ε α} {f : α → Except ε β} {b : β} (h : x >>= f = .ok b) :
    ∃ a, x = .ok a ∧ f a = .ok b := by
  cases x with
  | ok a => exact ⟨a, rfl, h⟩
  | error e => exact absurd h nofun

namespace Ends

variable {allowed : ε → Prop} {x y : Except ε α} {P Q : α → Prop} {R : β → Prop}

theorem ret {a : α} (h : P a) : Ends allowed (.ok a) P := h

theorem fail {e : ε} (h : allowed e) : Ends allowed (.error e : Except ε α) P := h

theorem bind {f : α → Except ε β} (hx : Ends allowed x P)
    (hf : ∀ a, P a → Ends allowed (f a) R) : Ends allowed (x >>= f) R := by
  cases x with
  | ok a => exact hf a hx
  | error e => exact hx

theorem mono (hx : Ends allowed x P) (h : ∀ a, P a → Q a) : Ends allowed x Q := by
  cases x with
  | ok a => exact h a hx
  | error e => exact hx

/-- More faults may be allowed. -/
theorem weaken {allowed' : ε → Prop} (hx : Ends allowed x P) (h : ∀ e, allowed e → allowed' e) :
    Ends allowed' x P := by
  cases x with
  | ok a => exact hx
  | error e => exact h e hx

/-- A test decides which of two computations runs. -/
theorem ite {c : Prop} [Decidable c] (hx : c → Ends allowed x P) (hy : ¬ c → Ends allowed y P) :
    Ends allowed (if c then x else y) P := by
  by_cases h : c
  · rw [if_pos h]
    exact hx h
  · rw [if_neg h]
    exact hy h

/-- What holds of a result whenever there is one need not know of the faults. -/
theorem and_of_ok (hx : Ends allowed x P) (h : ∀ a, x = .ok a → Q a) :
    Ends allowed x fun a => P a ∧ Q a := by
  cases x with
  | ok a => exact ⟨hx, h a rfl⟩
  | error e => exact hx

theorem of_eq {a : α} (h : Ends allowed x P) (hx : x = .ok a) : P a := by
  subst hx
  exact h

/-- What two ways of reasoning say of a computation, and of its faults. -/
theorem meet {allowed' allowed'' : ε → Prop} (hx : Ends allowed x P) (hy : Ends allowed' x Q)
    (h : ∀ e, allowed e → allowed' e → allowed'' e) : Ends allowed'' x fun a => P a ∧ Q a := by
  cases x with
  | ok a => exact ⟨hx, hy⟩
  | error e => exact h e hx hy

/-- Every computation ends in some way. -/
theorem any (x : Except ε α) : Ends (fun _ => True) x fun _ => True := by
  cases x <;> exact trivial

/-- A computation that has no faults has a result. -/
theorem exists_ok (hx : Ends (fun _ => False) x P) : ∃ a, x = .ok a ∧ P a := by
  cases x with
  | ok a => exact ⟨a, rfl, hx⟩
  | error e => exact hx.elim

/-- A loop over a list. The invariant may speak of the elements that the loop
    has passed. -/
theorem foldlM {f : β → α → Except ε β} {b : β} (Inv : List α → β → Prop) (l : List α)
    (init : Inv [] b)
    (step : ∀ pre a b, pre ++ [a] <+: l → Inv pre b → Ends allowed (f b a) (Inv (pre ++ [a]))) :
    Ends allowed (l.foldlM f b) (Inv l) := by
  -- From the end of the list, so that the prefix is what the hypothesis is about.
  induction l using List.reverseRecOn with
  | nil => exact ret init
  | append_singleton l a ih =>
      rw [List.foldlM_append]
      refine (ih fun pre c b hpre => step pre c b (hpre.trans (List.prefix_append l [a]))).bind
        fun b' hb' => ?_
      rw [List.foldlM_cons]
      exact (step l a b' (List.prefix_refl _) hb').bind fun b'' hb'' => ret hb''

end Ends

end MicroArch
