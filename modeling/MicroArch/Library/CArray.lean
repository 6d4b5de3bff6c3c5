import Mathlib.Data.Fin.Basic
import Mathlib.Logic.Function.Basic
import MicroArch.Library.Yields

/-!
# Bounds-Checked Arrays

Arrays of a fixed length that are indexed with integers, the way a C program
indexes them. Reading or writing outside the bounds has no result, so that a
program which has one has stayed inside.

Proofs about such programs work with the cells: `get_natCast` and
`set_natCast` turn an access whose index is in range into one.

An index is an integer, because a C program may compute a negative one; a row
that is marked as missing by the index `-1` is then refused, as it has to be.
The cells themselves are a function, so that what a loop over the array does to
one cell can be said without following the loop.

## Main definitions

* `CArray`: An array of a given length.
* `CArray.get`, `CArray.set`: Checked access.
* `CArray.map`: Every cell changed in the same way.
* `CArray.moveUp`: The cells of a shift register moved by one.

## Theorems

* `CArray.get_natCast`: Reading inside the bounds.
* `CArray.set_natCast`: Writing inside the bounds.
* `CArray.yields_get`, `CArray.yields_set`: The same as specifications.
-/

namespace MicroArch

universe u

/-- An array of length `n`. -/
@[ext] structure CArray (n : Nat) (α : Type u) where
  cell : Fin n → α

namespace CArray

variable {α : Type u} {n : Nat}

/-- All cells hold the value. -/
def replicate (n : Nat) (v : α) : CArray n α := ⟨fun _ => v⟩

/-- Every cell changed by the function. -/
def map (f : α → α) (a : CArray n α) : CArray n α := ⟨fun i => f (a.cell i)⟩

/-- One cell changed. -/
def update (a : CArray n α) (i : Fin n) (v : α) : CArray n α := ⟨Function.update a.cell i v⟩

/-- The cells below `m` move up by one, over the last of them. The first one
    keeps its value. -/
def moveUp (a : CArray n α) (m : Nat) : CArray n α :=
  ⟨fun i => if 0 < i.val ∧ i.val < m then a.cell ⟨i.val - 1, by omega⟩ else a.cell i⟩

/-- Reads a cell. -/
def get (a : CArray n α) (i : Int) : Option α :=
  -- A C index is signed, so it can be out of range on both sides.
  if h : 0 ≤ i ∧ i < n then some (a.cell ⟨i.toNat, by omega⟩) else none

/-- Writes a cell. -/
def set (a : CArray n α) (i : Int) (v : α) : Option (CArray n α) :=
  if h : 0 ≤ i ∧ i < n then some (a.update ⟨i.toNat, by omega⟩ v) else none

@[simp] theorem replicate_cell (v : α) (i : Fin n) : (replicate n v).cell i = v := rfl

@[simp] theorem map_cell (f : α → α) (a : CArray n α) (i : Fin n) :
    (a.map f).cell i = f (a.cell i) := rfl

theorem moveUp_of_lt (a : CArray n α) {m : Nat} {i : Fin n} (hpos : 0 < i.val) (hlt : i.val < m) :
    (a.moveUp m).cell i = a.cell ⟨i.val - 1, by omega⟩ :=
  if_pos ⟨hpos, hlt⟩

theorem moveUp_of_le (a : CArray n α) {m : Nat} {i : Fin n} (h : m ≤ i.val) :
    (a.moveUp m).cell i = a.cell i :=
  if_neg fun hlt => absurd hlt.2 (Nat.not_lt_of_le h)

theorem update_cell (a : CArray n α) (i j : Fin n) (v : α) :
    (a.update i v).cell j = if j = i then v else a.cell j :=
  Function.update_apply _ _ _ _

@[simp] theorem update_self (a : CArray n α) (i : Fin n) (v : α) : (a.update i v).cell i = v :=
  Function.update_self _ _ _

theorem update_of_ne (a : CArray n α) {i j : Fin n} (v : α) (h : j ≠ i) :
    (a.update i v).cell j = a.cell j :=
  Function.update_of_ne h _ _

theorem get_natCast (a : CArray n α) (i : Nat) (h : i < n) :
    a.get (i : Int) = some (a.cell ⟨i, h⟩) := by
  rw [get, dif_pos ⟨by omega, by omega⟩]
  simp only [Int.toNat_natCast]

theorem set_natCast (a : CArray n α) (i : Nat) (v : α) (h : i < n) :
    a.set (i : Int) v = some (a.update ⟨i, h⟩ v) := by
  rw [set, dif_pos ⟨by omega, by omega⟩]
  simp only [Int.toNat_natCast]

theorem yields_get (a : CArray n α) (i : Nat) (h : i < n) :
    Yields (a.get (i : Int)) fun v => v = a.cell ⟨i, h⟩ := by
  rw [a.get_natCast i h]
  exact .ret rfl

theorem yields_set (a : CArray n α) (i : Nat) (v : α) (h : i < n) :
    Yields (a.set (i : Int) v) fun a' => a' = a.update ⟨i, h⟩ v := by
  rw [a.set_natCast i v h]
  exact .ret rfl

end CArray

end MicroArch
