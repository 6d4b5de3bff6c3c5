import Mathlib.Logic.Function.Basic

/-!
# Arrays With a Record of Their Use

An array of a C program as the memory behind its first cell, together with
the indices at which a routine has read and written it. An index outside the
declared bounds has no other effect here than to be recorded, so that a
routine can be followed past it and the bounds are a property of the record.

An array that refuses such an index, as the one of `Library.CArray`, cannot be
used where the routine is to be described past it. Here reading beyond the end
is what C does on a machine with flat memory, and `Within` says when nothing
depends on that.

## Main definitions

* `Traced`: Memory, with the indices used.
* `Traced.read`, `Traced.write`: Access to a cell.
* `Traced.readAll`: Access to several cells.
* `Traced.Within`: All indices used are below a bound.

## Theorems

* `Within.read`, `Within.write`: One more index.
* `writes_foldl_write`: A loop that writes one value.
-/

namespace MicroArch

/-- The memory of an array and the indices used, the latest first. -/
structure Traced (α : Type) where
  cell : Nat → α
  reads : List Nat
  writes : List Nat

namespace Traced

variable {α : Type}

/-- Memory that has not been used yet. -/
def of (cell : Nat → α) : Traced α := { cell := cell, reads := [], writes := [] }

def read (a : Traced α) (i : Nat) : α × Traced α := (a.cell i, { a with reads := i :: a.reads })

def write (a : Traced α) (i : Nat) (v : α) : Traced α :=
  { a with cell := Function.update a.cell i v, writes := i :: a.writes }

/-- Reads the cells of a list of indices, in its order. -/
def readAll (a : Traced α) (l : List Nat) : List α × Traced α :=
  (l.map a.cell, { a with reads := l.reverse ++ a.reads })

/-- Every index used is below the bound. -/
def Within (a : Traced α) (n : Nat) : Prop := (∀ i ∈ a.reads, i < n) ∧ ∀ i ∈ a.writes, i < n

theorem within_of (cell : Nat → α) (n : Nat) : (of cell).Within n := ⟨nofun, nofun⟩

theorem Within.read {a : Traced α} {n i : Nat} (h : a.Within n) (hi : i < n) :
    (a.read i).2.Within n :=
  ⟨List.forall_mem_cons.mpr ⟨hi, h.1⟩, h.2⟩

theorem Within.write {a : Traced α} {n i : Nat} (h : a.Within n) (hi : i < n) (v : α) :
    (a.write i v).Within n :=
  ⟨h.1, List.forall_mem_cons.mpr ⟨hi, h.2⟩⟩

/-- A loop that goes on using an array stays in it. -/
theorem Within.foldl {ι : Type} {f : Traced α → ι → Traced α} {n : Nat} (l : List ι)
    {a : Traced α} (h : a.Within n) (hf : ∀ a, ∀ i ∈ l, a.Within n → (f a i).Within n) :
    (l.foldl f a).Within n := by
  induction l generalizing a with
  | nil => exact h
  | cons i l ih =>
      exact ih (hf a i List.mem_cons_self h) fun a j hj => hf a j (List.mem_cons_of_mem i hj)

theorem reads_foldl_write (l : List Nat) (v : α) (a : Traced α) :
    (l.foldl (fun a i => a.write i v) a).reads = a.reads := by
  induction l generalizing a with
  | nil => rfl
  -- A write notes its index among the writes alone.
  | cons i l ih => exact ih (a.write i v)

theorem writes_foldl_write (l : List Nat) (v : α) (a : Traced α) :
    (l.foldl (fun a i => a.write i v) a).writes = l.reverse ++ a.writes := by
  induction l generalizing a with
  | nil => rfl
  | cons i l ih =>
      rw [List.foldl_cons, ih, List.reverse_cons, List.append_assoc]
      rfl

end Traced

end MicroArch
