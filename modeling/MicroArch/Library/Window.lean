import Mathlib.Data.Nat.Basic
import Mathlib.Tactic.Common

/-!
# Folding a Sliding Window

A window over the most recent bits of a history, folded to a few bits: bit
`j` of the fold is the exclusive or of the window's bits at the positions
that are `j` modulo the width.

When the history moves on by one, every position grows by one, so the fold
rotates, the new bit enters at position zero, and the bit that fell out of
the window has to be cancelled at the length of the window modulo the width.
`foldXor_slide` is that statement, and `foldXor_succ_push` the rotation
alone, for a window that is allowed to grow.

## Main definitions

* `foldXor`: One bit of the fold.
* `before`: The previous position of a rotation.
* `push`: A history that has moved on by one bit.

## Theorems

* `foldXor_of_le`: There is nothing at a position beyond the width.
* `succ_mod_eq_iff`: Which position moves to `j`.
* `foldXor_succ_push`: A history moved on by one folds to the rotation.
* `foldXor_slide`: The update of a fold when the window slides.
* `foldXor_congr`: The fold only depends on the window.
* `foldXor_of_differ`: What one bit of the window changes in the fold.
* `foldXor_bit`: The fold of bits is a bit.
-/

namespace MicroArch

namespace Window

variable {w : Nat}

/-- The exclusive or of the first `H` bits of a history at the positions that
    are `j` modulo `width`. -/
def foldXor (width : Nat) (g : Nat → BitVec w) (j : Nat) : Nat → BitVec w
  | 0 => 0#w
  | H + 1 => if H % width = j then foldXor width g j H ^^^ g H else foldXor width g j H

/-- The position before `j` in a rotation of the given width. -/
def before (width j : Nat) : Nat := if j = 0 then width - 1 else j - 1

/-- The history after one more bit, the newest one at position zero. -/
def push (b : BitVec w) (g : Nat → BitVec w) (i : Nat) : BitVec w := if i = 0 then b else g (i - 1)

theorem foldXor_succ (width : Nat) (g : Nat → BitVec w) (j H : Nat) :
    foldXor width g j (H + 1) = foldXor width g j H ^^^ (if H % width = j then g H else 0#w) := by
  rw [foldXor]
  by_cases h : H % width = j
  · rw [if_pos h, if_pos h]
  · rw [if_neg h, if_neg h, BitVec.xor_zero]

theorem foldXor_congr (width : Nat) (f g : Nat → BitVec w) (j H : Nat)
    (h : ∀ i, i < H → f i = g i) : foldXor width f j H = foldXor width g j H := by
  induction H with
  | zero => rfl
  | succ H ih =>
      rw [foldXor_succ, foldXor_succ, ih fun i hi => h i (Nat.lt_succ_of_lt hi),
        h H (Nat.lt_succ_self H)]

theorem foldXor_of_le (width : Nat) (g : Nat → BitVec w) (j H : Nat) (hpos : 0 < width)
    (hj : width ≤ j) : foldXor width g j H = 0#w := by
  induction H with
  | zero => rfl
  | succ H ih =>
      have hlt := Nat.mod_lt H hpos
      rw [foldXor_succ, ih, if_neg (by omega), BitVec.xor_zero]

/-- Two histories that differ at one position of the window have folds that
    differ at the residue of this position, and there by the same bits. -/
theorem foldXor_of_differ (width : Nat) (f g : Nat → BitVec w) (j H p : Nat) (hp : p < H)
    (h : ∀ i, i < H → i ≠ p → f i = g i) :
    foldXor width f j H
      = foldXor width g j H ^^^ (if p % width = j then f p ^^^ g p else 0#w) := by
  induction H with
  | zero => exact absurd hp (Nat.not_lt_zero p)
  | succ H ih =>
      rw [foldXor_succ, foldXor_succ]
      by_cases hlast : p = H
      · -- The position is the last one, so that the folds before it agree.
        subst hlast
        rw [foldXor_congr width f g j p fun i hi => h i (by omega) (by omega)]
        by_cases hj : p % width = j
        · rw [if_pos hj, if_pos hj, if_pos hj, BitVec.xor_assoc, BitVec.xor_comm (f p) (g p),
            ← BitVec.xor_assoc (g p), BitVec.xor_self, BitVec.zero_xor]
        · rw [if_neg hj, if_neg hj, if_neg hj, BitVec.xor_zero, BitVec.xor_zero]
      · rw [ih (by omega) fun i hi => h i (by omega),
          h H (Nat.lt_succ_self H) fun he => hlast he.symm, BitVec.xor_assoc, BitVec.xor_assoc,
          BitVec.xor_comm (if H % width = j then g H else 0#w)]

/-- A history of zeros and ones folds to zeros and ones. -/
theorem foldXor_bit (width : Nat) (g : Nat → BitVec w) (j H : Nat)
    (h : ∀ i, g i = 0#w ∨ g i = 1#w) : foldXor width g j H = 0#w ∨ foldXor width g j H = 1#w := by
  induction H with
  | zero => exact Or.inl rfl
  | succ H ih =>
      rw [foldXor_succ]
      by_cases hj : H % width = j
      · rw [if_pos hj]
        rcases ih with ih | ih <;> rcases h H with hH | hH <;> rw [ih, hH]
        · exact Or.inl (BitVec.xor_zero)
        · exact Or.inr (BitVec.zero_xor)
        · exact Or.inr (BitVec.xor_zero)
        · exact Or.inl (BitVec.xor_self)
      · rw [if_neg hj, BitVec.xor_zero]
        exact ih

/-- Moving on by one takes a residue to `j` from the position before. -/
theorem succ_mod_eq_iff (width H j : Nat) (hj : j < width) :
    (H + 1) % width = j ↔ H % width = before width j := by
  have hlt : H % width < width := Nat.mod_lt H (by omega)
  rw [← Nat.mod_add_mod]
  unfold before
  -- The residue wraps around exactly after the last position.
  by_cases hlast : H % width + 1 = width
  · rw [hlast, Nat.mod_self]
    by_cases hz : j = 0
    · rw [if_pos hz]
      omega
    · rw [if_neg hz]
      omega
  · rw [Nat.mod_eq_of_lt (by omega)]
    by_cases hz : j = 0
    · rw [if_pos hz]
      omega
    · rw [if_neg hz]
      omega

/-- After the history has moved on, the fold of one more bit is the old fold
    rotated, with the newest bit added at position zero. -/
theorem foldXor_succ_push (width : Nat) (g : Nat → BitVec w) (b : BitVec w) (j H : Nat)
    (hj : j < width) :
    foldXor width (push b g) j (H + 1)
      = (if j = 0 then b else 0#w) ^^^ foldXor width g (before width j) H := by
  -- By induction on the window: the bit added at `H + 1` was at `H` before.
  induction H with
  | zero =>
      rw [foldXor_succ, foldXor, foldXor, Nat.zero_mod, push, if_pos rfl, BitVec.zero_xor,
        BitVec.xor_zero]
      by_cases hz : j = 0
      · rw [if_pos hz, if_pos hz.symm]
      · rw [if_neg hz, if_neg fun h => hz h.symm]
  | succ H ih =>
      rw [foldXor_succ, ih, foldXor_succ, BitVec.xor_assoc, push, if_neg (Nat.succ_ne_zero H),
        Nat.add_sub_cancel]
      simp only [succ_mod_eq_iff width H j hj]

/-- How the fold of a window of fixed length changes when the history moves
    on: it rotates, the newest bit enters, and the bit that left the window
    is cancelled. -/
theorem foldXor_slide (width : Nat) (g : Nat → BitVec w) (b : BitVec w) (j H : Nat)
    (hj : j < width) :
    foldXor width (push b g) j H
      = ((if j = 0 then b else 0#w) ^^^ foldXor width g (before width j) H)
        ^^^ (if H % width = j then push b g H else 0#w) := by
  -- The window that may grow has one bit more, which is added to itself.
  rw [← foldXor_succ_push width g b j H hj, foldXor_succ, BitVec.xor_assoc, BitVec.xor_self,
    BitVec.xor_zero]

end Window

end MicroArch
