import Mathlib.Algebra.BigOperators.Group.Finset.Basic
import Mathlib.Data.BitVec
import MicroArch.Predictor.History

/-!
# How Far Back a Table Sees

The row and the tag of a branch in a tagged table are functions of the
history, since the registers they are computed from are folds of it. The
window of a table is `numHisBits` outcomes, so anything older has no
influence. A single outcome inside the window always changes the row: it
changes one cell of the second register, which is read as a decimal digit,
and the powers of ten below the tenth are not zero modulo the number of rows.

The window is one outcome shorter than the length the table is declared
with. Two histories that differ only in the oldest outcome of that length
are therefore the same to the table.

## Main definitions

* `foldedDigits`: A register of a table as a function of the history.
* `rowOf`, `tagOf`: So are the row and the tag of a branch.
* `AgreeOn`, `DifferOnlyAt`: Two histories compared on a window.

## Theorems

* `rowOf_congr`, `tagOf_congr`: Only the window counts.
* `rowOf_ne`: Every outcome inside the window counts.
* `sees_declared_history_iff`: Where the declared length is met.
-/

namespace MicroArch

namespace Predictor

open Window

/-- The value `getCSR` reads from a register, as a function of the history. -/
def foldedDigits (t : Fin NUM_TAGE_TABLES) (num : Fin 2) (g : Nat → UINT32) : UINT32 :=
  ∑ i ∈ Finset.range (if num = 0 then TAG_WIDTH - 1 else TAG_WIDTH),
    10#32 ^ i * foldXor (csrWidth num) g i (numHisBits t)

/-- The row of a branch under a history. -/
def rowOf (k : Fin NUM_TAGE_TABLES) (PC : UINT32) (g : Nat → UINT32) : UINT32 :=
  (PC ^^^ (PC >>> TAG_WIDTH) ^^^ foldedDigits k 1 g) &&& BitVec.ofNat 32 (NUM_TAGE_ENTRIES - 1)

/-- The tag of a branch under a history. -/
def tagOf (k : Fin NUM_TAGE_TABLES) (PC : UINT32) (g : Nat → UINT32) : UINT32 :=
  (PC ^^^ foldedDigits k 0 g ^^^ (foldedDigits k 1 g <<< 1))
    &&& BitVec.ofNat 32 (NUM_TAGE_ENTRIES - 1)

/-- Two histories agree on their first `L` outcomes. -/
def AgreeOn (L : Nat) (outs outs' : List Bool) : Prop :=
  ∀ i, i < L → outs.getD i false = outs'.getD i false

/-- Of their first `L` outcomes two histories differ in one, at position `p`. -/
def DifferOnlyAt (L p : Nat) (outs outs' : List Bool) : Prop :=
  p < L ∧ outs.getD p false ≠ outs'.getD p false ∧
    ∀ i, i < L → i ≠ p → outs.getD i false = outs'.getD i false

/-! ### The state read as a function of the history -/

theorem getCSR_of_folded {outs : List Bool} {s : State} (h : Folded outs s)
    (t : Fin NUM_TAGE_TABLES) (num : Fin 2) :
    getCSR t num s = some (foldedDigits t num (history outs)) := by
  -- The accumulator holds the digits read so far and the next power of ten.
  have hloop := Yields.foldlM_range
    (f := fun (acc : UINT32 × UINT32) (i : Nat) => do
      let c ← (s.CSR t num).get i
      return (acc.1 + acc.2 * c, acc.2 * 10))
    (b := (0, 1))
    (fun m acc => acc = (∑ i ∈ Finset.range m,
      10#32 ^ i * foldXor (csrWidth num) (history outs) i (numHisBits t), 10#32 ^ m))
    (if num = 0 then TAG_WIDTH - 1 else TAG_WIDTH) rfl ?_
  · rcases hloop with ⟨acc, heq, rfl⟩
    rw [getCSR, heq]
    rfl
  · intro i acc hi hacc
    subst hacc
    have hwidth : i < TAG_WIDTH := by
      by_cases hn : num = 0
      · rw [if_pos hn] at hi
        omega
      · rwa [if_neg hn] at hi
    refine ((s.CSR t num).yields_get i hwidth).bind fun c hc => .ret ?_
    subst hc
    rw [h.CSR, Finset.sum_range_succ, pow_succ]
    rfl

theorem indT_of_folded {outs : List Bool} {s : State} (h : Folded outs s)
    (k : Fin NUM_TAGE_TABLES) (PC : UINT32) : indT k PC s = some (rowOf k PC (history outs)) := by
  rw [indT, getCSR_of_folded h]
  rfl

theorem tagT_of_folded {outs : List Bool} {s : State} (h : Folded outs s)
    (k : Fin NUM_TAGE_TABLES) (PC : UINT32) : tagT k PC s = some (tagOf k PC (history outs)) := by
  rw [tagT, getCSR_of_folded h, getCSR_of_folded h]
  rfl

/-! ### The window -/

theorem foldedDigits_congr {t : Fin NUM_TAGE_TABLES} {outs outs' : List Bool}
    (h : AgreeOn (numHisBits t) outs outs') (num : Fin 2) :
    foldedDigits t num (history outs) = foldedDigits t num (history outs') := by
  refine Finset.sum_congr rfl fun j _ => ?_
  exact congrArg _ (foldXor_congr _ _ _ _ _ fun i hi => congrArg bit (h i hi))

theorem rowOf_congr {k : Fin NUM_TAGE_TABLES} {outs outs' : List Bool}
    (h : AgreeOn (numHisBits k) outs outs') (PC : UINT32) :
    rowOf k PC (history outs) = rowOf k PC (history outs') := by
  rw [rowOf, foldedDigits_congr h, ← rowOf]

theorem tagOf_congr {k : Fin NUM_TAGE_TABLES} {outs outs' : List Bool}
    (h : AgreeOn (numHisBits k) outs outs') (PC : UINT32) :
    tagOf k PC (history outs) = tagOf k PC (history outs') := by
  rw [tagOf, foldedDigits_congr h, foldedDigits_congr h, ← tagOf]

theorem history_bit (outs : List Bool) (i : Nat) :
    history outs i = 0#32 ∨ history outs i = 1#32 := by
  rw [history]
  cases outs.getD i false with
  | false => exact Or.inl rfl
  | true => exact Or.inr rfl

/-- One outcome of the window changes the second register by a power of ten
    below the tenth, up or down. -/
theorem foldedDigits_of_differ {t : Fin NUM_TAGE_TABLES} {outs outs' : List Bool} {p : Nat}
    (h : DifferOnlyAt (numHisBits t) p outs outs') :
    ∃ j, j < TAG_WIDTH - 1 ∧
      (foldedDigits t 1 (history outs) = foldedDigits t 1 (history outs') + 10#32 ^ j ∨
        foldedDigits t 1 (history outs') = foldedDigits t 1 (history outs) + 10#32 ^ j) := by
  rcases h with ⟨hp, hne, hagree⟩
  have hj : p % 10 < 10 := Nat.mod_lt p (by decide)
  have hmem : p % 10 ∈ Finset.range 11 := Finset.mem_range.mpr (by omega)
  -- The outcome at `p` is folded into one cell of the ten, and only that cell differs.
  have hcells : ∀ i, foldXor 10 (history outs) i (numHisBits t)
      = foldXor 10 (history outs') i (numHisBits t)
        ^^^ (if p % 10 = i then history outs p ^^^ history outs' p else 0#32) := fun i =>
    foldXor_of_differ 10 _ _ i _ p hp fun i hi hip => congrArg bit (hagree i hi hip)
  -- The two outcomes are different bits, so that the cell is turned over.
  have hflip : history outs p ^^^ history outs' p = 1#32 := by
    rw [history, history]
    revert hne
    cases outs.getD p false <;> cases outs'.getD p false <;> decide
  have hrest : ∑ i ∈ (Finset.range 11).erase (p % 10),
        10#32 ^ i * foldXor 10 (history outs) i (numHisBits t)
      = ∑ i ∈ (Finset.range 11).erase (p % 10),
        10#32 ^ i * foldXor 10 (history outs') i (numHisBits t) := by
    refine Finset.sum_congr rfl fun i hi => ?_
    rw [hcells i, if_neg fun he => (Finset.mem_erase.mp hi).1 he.symm, BitVec.xor_zero]
  have hcell := hcells (p % 10)
  rw [if_pos rfl, hflip] at hcell
  -- The digits of that cell, and those of the others, which are equal.
  have hsum : ∀ g, foldedDigits t 1 g = 10#32 ^ (p % 10) * foldXor 10 g (p % 10) (numHisBits t)
      + ∑ i ∈ (Finset.range 11).erase (p % 10), 10#32 ^ i * foldXor 10 g i (numHisBits t) :=
    fun g => (Finset.add_sum_erase _ _ hmem).symm
  refine ⟨p % 10, hj, ?_⟩
  rw [hsum (history outs), hsum (history outs'), hrest, hcell]
  rcases foldXor_bit 10 (history outs') (p % 10) (numHisBits t) (history_bit outs') with hc | hc
  · left
    rw [hc, BitVec.zero_xor, BitVec.mul_one, BitVec.mul_zero, BitVec.zero_add, BitVec.add_comm]
  · right
    rw [hc, BitVec.xor_self, BitVec.mul_one, BitVec.mul_zero, BitVec.zero_add, BitVec.add_comm]

/-- A power of ten below the tenth is seen by the mask of the rows. -/
theorem pow_ten_masked {j : Nat} (hj : j < TAG_WIDTH - 1) :
    (10#32 ^ j).toNat % NUM_TAGE_ENTRIES ≠ 0 := by
  revert j
  decide

theorem and_mask_toNat (x : UINT32) :
    (x &&& BitVec.ofNat 32 (NUM_TAGE_ENTRIES - 1)).toNat = x.toNat % NUM_TAGE_ENTRIES := by
  rw [BitVec.toNat_and]
  exact Nat.and_two_pow_sub_one_eq_mod x.toNat 10

/-- A mask distributes over an exclusive or, so the part that is the same on
    both sides can be dropped. -/
theorem and_mask_of_xor {x a b m : UINT32} (h : (x ^^^ a) &&& m = (x ^^^ b) &&& m) :
    a &&& m = b &&& m := by
  have hdistrib : ∀ c, (x ^^^ c) &&& m = (x &&& m) ^^^ (c &&& m) := by
    intro c
    ext i hi
    simp only [BitVec.getElem_and, BitVec.getElem_xor, Bool.and_xor_distrib_right]
  rw [hdistrib, hdistrib] at h
  exact (BitVec.xor_right_inj _).mp h

theorem masked_add_ne {a b d : UINT32} (hd : d.toNat % NUM_TAGE_ENTRIES ≠ 0) (h : a = b + d) :
    a &&& BitVec.ofNat 32 (NUM_TAGE_ENTRIES - 1) ≠
      b &&& BitVec.ofNat 32 (NUM_TAGE_ENTRIES - 1) := by
  intro heq
  have hmod := congrArg BitVec.toNat heq
  rw [and_mask_toNat, and_mask_toNat, h, BitVec.toNat_add] at hmod
  change d.toNat % 1024 ≠ 0 at hd
  change (b.toNat + d.toNat) % 2 ^ 32 % 1024 = b.toNat % 1024 at hmod
  omega

/-- A single outcome inside the window changes the row. -/
theorem rowOf_ne {k : Fin NUM_TAGE_TABLES} {outs outs' : List Bool} {p : Nat}
    (h : DifferOnlyAt (numHisBits k) p outs outs') (PC : UINT32) :
    rowOf k PC (history outs) ≠ rowOf k PC (history outs') := by
  intro heq
  have hmasked := and_mask_of_xor heq
  rcases foldedDigits_of_differ h with ⟨j, hj, hup | hdown⟩
  · -- A power of ten that is not zero modulo the rows moves the row.
    exact masked_add_ne (pow_ten_masked hj) hup hmasked
  · exact masked_add_ne (pow_ten_masked hj) hdown hmasked.symm

/-! ### The declared length -/

theorem AgreeOn.mono {L M : Nat} {outs outs' : List Bool} (h : AgreeOn L outs outs')
    (hM : M ≤ L) : AgreeOn M outs outs' :=
  fun i hi => h i (hi.trans_le hM)

theorem DifferOnlyAt.mono {L M p : Nat} {outs outs' : List Bool}
    (h : DifferOnlyAt L p outs outs') (hM : M ≤ L) (hp : p < M) : DifferOnlyAt M p outs outs' :=
  ⟨hp, h.2.1, fun i hi => h.2.2 i (hi.trans_le hM)⟩

/-- The declared length is one more than the window. -/
theorem HIS_BITS_eq (k : Fin NUM_TAGE_TABLES) : HIS_BITS k = numHisBits k + 1 := by
  revert k
  decide

/-- A table meets its declared length on two sequences of calls: if their
    last outcomes agree on it, row and tag are the same, and if they differ
    in one outcome, the rows differ. -/
def SeesDeclaredHistory (k : Fin NUM_TAGE_TABLES) (PC : UINT32) (calls calls' : List Call) : Prop :=
  ∃ s s' row row' tag tag',
    runCalls calls = some s ∧ indT k PC s = some row ∧ tagT k PC s = some tag ∧
    runCalls calls' = some s' ∧ indT k PC s' = some row' ∧ tagT k PC s' = some tag' ∧
    (AgreeOn (HIS_BITS k) (outcomes calls) (outcomes calls') → row = row' ∧ tag = tag') ∧
    ((∃ p, DifferOnlyAt (HIS_BITS k) p (outcomes calls) (outcomes calls')) → row ≠ row')

/-- The window does not reach the oldest outcome of the declared length. -/
theorem not_sees_of_oldest {k : Fin NUM_TAGE_TABLES} {calls calls' : List Call}
    (hdiff : DifferOnlyAt (HIS_BITS k) (HIS_BITS k - 1) (outcomes calls) (outcomes calls'))
    (PC : UINT32) : ¬ SeesDeclaredHistory k PC calls calls' := by
  intro hcase
  rcases hcase with ⟨s, s', row, row', tag, tag', hs, hrow, -, hs', hrow', -, -, hne⟩
  rcases yields_runCalls calls with ⟨t, hrun, hsound⟩
  rcases yields_runCalls calls' with ⟨t', hrun', hsound'⟩
  -- The window is one shorter than the declared length.
  have hlen := HIS_BITS_eq k
  rw [hrun, Option.some.injEq] at hs
  rw [hrun', Option.some.injEq] at hs'
  subst hs hs'
  rw [indT_of_folded hsound.folded, Option.some.injEq] at hrow
  rw [indT_of_folded hsound'.folded, Option.some.injEq] at hrow'
  refine hne ⟨_, hdiff⟩ ?_
  rw [← hrow, ← hrow']
  exact rowOf_congr (fun i hi => hdiff.2.2 i (by omega) (by omega)) PC

/-- It does unless the only difference is in the oldest outcome of the
    declared length. -/
theorem sees_declared_history_iff (k : Fin NUM_TAGE_TABLES) (PC : UINT32)
    (calls calls' : List Call) :
    SeesDeclaredHistory k PC calls calls' ↔
      ¬ DifferOnlyAt (HIS_BITS k) (HIS_BITS k - 1) (outcomes calls) (outcomes calls') := by
  constructor
  · intro hcase hdiff
    exact not_sees_of_oldest hdiff PC hcase
  · intro hnot
    rcases yields_runCalls calls with ⟨s, hrun, hsound⟩
    rcases yields_runCalls calls' with ⟨s', hrun', hsound'⟩
    have hlen := HIS_BITS_eq k
    have hle : numHisBits k ≤ HIS_BITS k := by omega
    refine ⟨s, s', _, _, _, _, hrun, indT_of_folded hsound.folded k PC,
      tagT_of_folded hsound.folded k PC, hrun', indT_of_folded hsound'.folded k PC,
      tagT_of_folded hsound'.folded k PC, fun hagree => ?_, fun hdiff => ?_⟩
    · exact ⟨rowOf_congr (hagree.mono hle) PC, tagOf_congr (hagree.mono hle) PC⟩
    · rcases hdiff with ⟨p, hp⟩
      -- A difference that is not the oldest outcome is inside the window.
      have hpos : p < numHisBits k := by
        by_contra hge
        have hlt := hp.1
        rw [show p = HIS_BITS k - 1 by omega] at hp
        exact hnot hp
      exact rowOf_ne (hp.mono hle hpos) PC

/-- One taken branch eight updates back is beyond what T1 sees. -/
theorem oldest_outcome_unseen :
    ¬ ∀ k PC calls calls', SeesDeclaredHistory k PC calls calls' := by
  intro h
  have hdiff : DifferOnlyAt (HIS_BITS 0) (HIS_BITS 0 - 1)
      (outcomes (.updatePredictor 0 true :: List.replicate 7 (.updatePredictor 0 false)))
      (outcomes (List.replicate 8 (.updatePredictor 0 false))) := by
    unfold DifferOnlyAt
    decide
  exact not_sees_of_oldest hdiff 0 (h _ _ _ _)

end Predictor

end MicroArch
