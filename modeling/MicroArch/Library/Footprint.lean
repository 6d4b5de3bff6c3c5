import Mathlib.Data.Set.Insert
import Mathlib.Tactic.Common

/-!
# Footprints

What a program reads and writes, found along its text.

A state has locations, and a rest that every program may use. A footprint of a
program names the locations `A` it may read, the locations `B` that are
determined by these and the rest when it ends, and the locations `W` it may
write. Two runs from states that agree on `A` then go the same way and end in
states that agree on `B`, and a location outside `W` is left alone.

The rules follow the program. Reading needs a location of `A`, writing a
location of `W`, which is determined from then on, and a choice must be made
by values that are already known.

## Main definitions

* `View`: The locations of a state, and its rest.
* `Agree`: Two states agree on some locations and on the rest.
* `Footprint`: What a program reads, determines and writes.

## Theorems

* `Footprint.pure`, `Footprint.bind`, `Footprint.throw`: The rules of the
  monad.
* `Footprint.reading`, `Footprint.writing`: The rules of
  the state.
* `Footprint.mono`: Fewer locations are read, more are written.
-/

namespace MicroArch

universe u

/-- The locations of a state, and its rest. -/
structure View (σ L V ρ : Type*) where
  get : σ → L → V
  rest : σ → ρ

variable {σ ε α β : Type u} {L V ρ : Type*} (w : View σ L V ρ)

/-- Two states agree on some locations and on the rest. -/
structure Agree (A : Set L) (s t : σ) : Prop where
  rest : w.rest s = w.rest t
  get : ∀ l ∈ A, w.get s l = w.get t l

variable {w}

theorem Agree.mono {A B : Set L} {s t : σ} (h : Agree w A s t) (hBA : B ⊆ A) : Agree w B s t :=
  ⟨h.rest, fun l hl => h.get l (hBA hl)⟩

variable (w)

/-- Two runs end alike. -/
def Alike (B : Set L) : Except ε (α × σ) → Except ε (α × σ) → Prop
  | .ok (a, s), .ok (b, t) => a = b ∧ Agree w B s t
  | .error e, .error f => e = f
  | _, _ => False

/-- A program reads `A`, determines `B` and writes `W`. -/
structure Footprint (A B W : Set L) (x : StateT σ (Except ε) α) : Prop where
  related : ∀ s t, Agree w A s t → Alike w B (x s) (x t)
  frame : ∀ s a s', x s = .ok (a, s') → ∀ l ∉ W, w.get s' l = w.get s l

namespace Footprint

variable {w} {A B C W W' : Set L} {x : StateT σ (Except ε) α} {f : α → StateT σ (Except ε) β}

theorem pure (a : α) : Footprint w A A W (Pure.pure a : StateT σ (Except ε) α) where
  related _ _ h := ⟨rfl, h⟩
  frame s b s' hs l _ := by
    cases hs
    rfl

theorem throw (e : ε) : Footprint w A B W (fun _ => .error e : StateT σ (Except ε) α) where
  related _ _ _ := rfl
  frame _ _ _ hs := nomatch hs

/-- One after the other. -/
theorem bind (hx : Footprint w A B W x) (hf : ∀ a, Footprint w B C W (f a)) :
    Footprint w A C W (x >>= f) where
  related s t h := by
    have hst := hx.related s t h
    simp only [Bind.bind, StateT.bind, Except.bind]
    revert hst
    -- The first parts end alike; only if both have results do the second parts run.
    rcases x s with e | ⟨a, s'⟩ <;> rcases x t with e' | ⟨b, t'⟩ <;> intro hst
    · exact hst
    · exact hst.elim
    · exact hst.elim
    · obtain ⟨rfl, hst'⟩ := hst
      exact (hf a).related s' t' hst'
  frame s b s' hs l hl := by
    simp only [Bind.bind, StateT.bind, Except.bind] at hs
    cases hx' : x s with
    | error e => simp [hx'] at hs
    | ok r =>
        rcases r with ⟨a, s₁⟩
        simp only [hx'] at hs
        rw [(hf a).frame s₁ b s' hs l hl, hx.frame s a s₁ hx' l hl]

/-- A choice by a value that is known. -/
theorem ite {c : Prop} [Decidable c] {y : StateT σ (Except ε) α} (hx : c → Footprint w A B W x)
    (hy : ¬ c → Footprint w A B W y) : Footprint w A B W (if c then x else y) := by
  by_cases h : c
  · rw [if_pos h]
    exact hx h
  · rw [if_neg h]
    exact hy h

theorem mono {A' B' : Set L} (hx : Footprint w A B W x) (hA : A ⊆ A') (hB : B' ⊆ B)
    (hW : W ⊆ W') : Footprint w A' B' W' x where
  related s t h := by
    have hst := hx.related s t (h.mono hA)
    revert hst
    rcases x s with e | ⟨a, s'⟩ <;> rcases x t with e' | ⟨b, t'⟩ <;> intro hst
    · exact hst
    · exact hst.elim
    · exact hst.elim
    · exact ⟨hst.1, hst.2.mono hB⟩
  frame s a s' hs l hl := hx.frame s a s' hs l fun hcase => hl (hW hcase)

/-- A program that returns what stands at a location. -/
theorem reading {l : L} (hl : l ∈ A) (g : V → α) :
    Footprint w A A W (fun s => .ok (g (w.get s l), s) : StateT σ (Except ε) α) where
  related s t h := ⟨congrArg g (h.get l hl), h⟩
  frame s a s' hs k _ := by
    obtain ⟨-, rfl⟩ : g (w.get s l) = a ∧ s = s' := by simpa using hs
    rfl

/-- A program that puts a value at a location. -/
theorem writing {l : L} {v : V} {put : σ → σ} {a : α} (hl : l ∈ W)
    (hrest : ∀ s, w.rest (put s) = w.rest s) (hself : ∀ s, w.get (put s) l = v)
    (hother : ∀ s k, k ≠ l → w.get (put s) k = w.get s k) :
    Footprint w A (insert l A) W (fun s => .ok (a, put s) : StateT σ (Except ε) α) where
  related s t h := by
    refine ⟨rfl, by rw [hrest, hrest, h.rest], fun k hk => ?_⟩
    -- The location that is written has the same value in both runs, whatever it had before.
    by_cases hkl : k = l
    · rw [hkl, hself, hself]
    · rw [hother s k hkl, hother t k hkl]
      exact h.get k (hk.resolve_left hkl)
  frame s b s' hs k hk := by
    obtain ⟨-, rfl⟩ : a = b ∧ put s = s' := by simpa using hs
    exact hother s k fun hkl => hk (hkl ▸ hl)

end Footprint

end MicroArch
