import MicroArch.Predictor.Horizon

/-!
# Aliasing in the Tagged Tables

Which branches a tagged table tells apart. Two branches with the same row and
the same tag share an entry: a prediction of the one finds the entry of the
other, and an allocation for the one overwrites it.

The tag and the row mix the address of the branch with the same two
registers, so the registers cancel when two branches are compared, and what
is left is a question about address bits. The tag keeps the low ten bits. The
row adds the bits shifted down by `TAG_WIDTH`, so that once the low ten agree
it fixes the ten bits from `TAG_WIDTH` on. Between the two lies one bit,
number ten, which neither of them sees: the mask of the tag is the mask of
the row and is one bit narrower than `TAG_WIDTH`.

Prediction and update compute tags and rows with the same formulas, `tagT`
and `indT`, so the results hold of both.

## Main definitions

* `SameRowAndTag`: Two branches share an entry of a table.
* `Seen`: The address bits that the row and the tag determine.

## Theorems

* `sameRowAndTag_iff`: Two branches share an entry when they agree in the bits
  that are seen.
* `match_separates_iff`: When a match determines the low address bits.
* `unseen_bit`: Two branches that a match does not separate.
-/

namespace MicroArch

namespace Predictor

variable {k : Fin NUM_TAGE_TABLES} {PC PC' : UINT32} {s : State}

/-- Two branches have the same row and the same tag in a table. -/
def SameRowAndTag (k : Fin NUM_TAGE_TABLES) (PC PC' : UINT32) (s : State) : Prop :=
  indT k PC s = indT k PC' s ∧ tagT k PC s = tagT k PC' s

/-- The address bits that enter the tag, or enter the row beside a bit of the
    tag. -/
def Seen (i : Nat) : Prop := i < TAG_WIDTH - 1 ∨ TAG_WIDTH ≤ i ∧ i < 2 * TAG_WIDTH - 1

/-- The mask keeps the low ten bits. -/
theorem and_mask_eq_iff (x y : UINT32) :
    x &&& BitVec.ofNat 32 (NUM_TAGE_ENTRIES - 1) = y &&& BitVec.ofNat 32 (NUM_TAGE_ENTRIES - 1) ↔
      ∀ i < TAG_WIDTH - 1, x.getLsbD i = y.getLsbD i := by
  rw [BitVec.toNat_inj.symm, and_mask_toNat, and_mask_toNat]
  change x.toNat % 2 ^ 10 = y.toNat % 2 ^ 10 ↔ ∀ i < 10, x.toNat.testBit i = y.toNat.testBit i
  refine ⟨fun h i hi => ?_, fun h => Nat.eq_of_testBit_eq fun i => ?_⟩
  · have hbit := congrArg (fun n => n.testBit i) h
    simpa only [Nat.testBit_mod_two_pow, hi, decide_true, Bool.true_and] using hbit
  · rw [Nat.testBit_mod_two_pow, Nat.testBit_mod_two_pow]
    by_cases hi : i < 10
    · rw [h i hi]
    · rw [decide_eq_false hi, Bool.false_and, Bool.false_and]

/-- What both sides are mixed with has no part in the comparison. -/
theorem xor_and_mask_eq_iff (x y c : UINT32) :
    (x ^^^ c) &&& BitVec.ofNat 32 (NUM_TAGE_ENTRIES - 1) =
        (y ^^^ c) &&& BitVec.ofNat 32 (NUM_TAGE_ENTRIES - 1) ↔
      ∀ i < TAG_WIDTH - 1, x.getLsbD i = y.getLsbD i := by
  rw [and_mask_eq_iff]
  refine forall₂_congr fun i _ => ?_
  rw [BitVec.getLsbD_xor, BitVec.getLsbD_xor, Bool.xor_left_inj]

/-- The tag keeps the low bits of the address. -/
theorem tagT_eq_iff :
    tagT k PC s = tagT k PC' s ↔ ∀ i < TAG_WIDTH - 1, PC.getLsbD i = PC'.getLsbD i := by
  rcases yields_getCSR k 0 s with ⟨csr0, h0, -⟩
  rcases yields_getCSR k 1 s with ⟨csr1, h1, -⟩
  -- The registers are the same for both addresses, so they cancel.
  rw [← xor_and_mask_eq_iff PC PC' (csr0 ^^^ (csr1 <<< 1))]
  simp only [tagT, h0, h1, Option.bind_eq_bind, Option.bind_some, Option.pure_def,
    Option.some.injEq, BitVec.xor_assoc]

/-- The row mixes the low bits of the address with the bits above the width of
    a tag. -/
theorem indT_eq_iff :
    indT k PC s = indT k PC' s ↔ ∀ i < TAG_WIDTH - 1,
      (PC.getLsbD i ^^ PC.getLsbD (TAG_WIDTH + i)) =
        (PC'.getLsbD i ^^ PC'.getLsbD (TAG_WIDTH + i)) := by
  rcases yields_getCSR k 1 s with ⟨csr1, h1, -⟩
  have hbits := xor_and_mask_eq_iff (PC ^^^ (PC >>> TAG_WIDTH)) (PC' ^^^ (PC' >>> TAG_WIDTH)) csr1
  simp only [BitVec.getLsbD_xor, BitVec.getLsbD_ushiftRight] at hbits
  rw [← hbits]
  simp only [indT, h1, Option.bind_eq_bind, Option.bind_some, Option.pure_def, Option.some.injEq]

/-- Two branches share an entry when they agree in the bits that are seen,
    whatever the registers hold. -/
theorem sameRowAndTag_iff :
    SameRowAndTag k PC PC' s ↔ ∀ i, Seen i → PC.getLsbD i = PC'.getLsbD i := by
  rw [SameRowAndTag, tagT_eq_iff, indT_eq_iff]
  constructor
  · rintro ⟨hrow, htag⟩ i (hi | ⟨hle, hlt⟩)
    · exact htag i hi
    · -- The row fixes the upper bit because the tag fixes its partner.
      have hpartner : i - TAG_WIDTH < TAG_WIDTH - 1 := by omega
      have hrow := hrow _ hpartner
      rw [htag _ hpartner, Bool.xor_right_inj, Nat.add_sub_cancel' hle] at hrow
      exact hrow
  · intro h
    refine ⟨fun i hi => ?_, fun i hi => h i (Or.inl hi)⟩
    rw [h i (Or.inl hi), h (TAG_WIDTH + i) (Or.inr ⟨Nat.le_add_right _ _, by omega⟩)]

theorem setWidth_eq_iff (n : Nat) :
    PC.setWidth n = PC'.setWidth n ↔ ∀ i < n, PC.getLsbD i = PC'.getLsbD i := by
  refine ⟨fun h i hi => ?_, fun h => BitVec.eq_of_getLsbD_eq fun i hi => ?_⟩
  · have hbit := congrArg (fun x => x.getLsbD i) h
    simpa only [BitVec.getLsbD_setWidth, hi, decide_true, Bool.true_and] using hbit
  · rw [BitVec.getLsbD_setWidth, BitVec.getLsbD_setWidth, h i hi]

/-- The low bits that are not seen are those of the bit below `TAG_WIDTH`. -/
theorem seen_or_eq {i : Nat} (hi : i < 2 * TAG_WIDTH - 1) : Seen i ∨ i = TAG_WIDTH - 1 := by
  rw [Seen]
  omega

/-- Two addresses differ in the unseen bit alone, as far as their low bits go. -/
theorem differ_unseen_iff :
    (PC ^^^ PC').setWidth (2 * TAG_WIDTH - 1) = BitVec.twoPow _ (TAG_WIDTH - 1) ↔
      (∀ i, Seen i → PC.getLsbD i = PC'.getLsbD i) ∧
        PC.getLsbD (TAG_WIDTH - 1) ≠ PC'.getLsbD (TAG_WIDTH - 1) := by
  have hxor : ∀ (a b : Bool) (p : Prop) [Decidable p], (a ^^ b) = decide p ↔ (a ≠ b ↔ p) := by
    intro a b p _
    cases a <;> cases b <;> simp
  have hbits : (PC ^^^ PC').setWidth (2 * TAG_WIDTH - 1) = BitVec.twoPow _ (TAG_WIDTH - 1) ↔
      ∀ i < 2 * TAG_WIDTH - 1, PC.getLsbD i ≠ PC'.getLsbD i ↔ TAG_WIDTH - 1 = i := by
    rw [BitVec.eq_of_getLsbD_eq_iff]
    refine forall₂_congr fun i hi => ?_
    rw [BitVec.getLsbD_setWidth, BitVec.getLsbD_xor, BitVec.getLsbD_twoPow, ← hxor]
    simp only [hi, decide_true, Bool.true_and, show TAG_WIDTH - 1 < 2 * TAG_WIDTH - 1 by decide]
  rw [hbits]
  constructor
  · -- Differing in the unseen bit alone means not to differ where it is seen.
    refine fun h => ⟨fun i hi => ?_, (h (TAG_WIDTH - 1) (by decide)).mpr rfl⟩
    by_contra hne
    have hunseen := (h i (by rw [Seen] at hi; omega)).mp hne
    rw [Seen] at hi
    omega
  · rintro ⟨hseen, hne⟩ i hi
    rcases seen_or_eq hi with hs | rfl
    · refine ⟨fun hdiff => absurd (hseen i hs) hdiff, fun heq => ?_⟩
      rw [Seen] at hs
      omega
    · exact ⟨fun _ => rfl, fun _ => hne⟩

/-- A match in the row and the tag determines the low 21 bits of the address
    unless the two addresses differ, among these bits, in bit ten alone. -/
theorem match_separates_iff (k : Fin NUM_TAGE_TABLES) (s : State) (PC PC' : UINT32) :
    (SameRowAndTag k PC PC' s →
        PC.setWidth (2 * TAG_WIDTH - 1) = PC'.setWidth (2 * TAG_WIDTH - 1)) ↔
      (PC ^^^ PC').setWidth (2 * TAG_WIDTH - 1) ≠ BitVec.twoPow _ (TAG_WIDTH - 1) := by
  rw [sameRowAndTag_iff, setWidth_eq_iff, Ne, differ_unseen_iff]
  constructor
  · rintro hsep ⟨hseen, hne⟩
    exact hne (hsep hseen (TAG_WIDTH - 1) (by decide))
  · intro hdiff hseen i hi
    rcases seen_or_eq hi with hi | rfl
    · exact hseen i hi
    · -- The bit that is left is the unseen one, in which they would have to differ.
      by_contra hne
      exact hdiff ⟨hseen, hne⟩

/-- Two branches 1024 bytes apart share an entry and differ in the low bits. -/
theorem unseen_bit :
    SameRowAndTag 0 0#32 1024#32 InitPredictor ∧
      (0#32).setWidth (2 * TAG_WIDTH - 1) ≠ (1024#32).setWidth (2 * TAG_WIDTH - 1) := by
  refine ⟨sameRowAndTag_iff.mpr fun i hi => ?_, by decide⟩
  have hi : i < 10 ∨ 11 ≤ i ∧ i < 21 := hi
  -- Address 1024 has bit ten alone.
  have hbit : (BitVec.twoPow 32 10).getLsbD i = false := by
    rw [BitVec.getLsbD_twoPow, decide_eq_false (p := 10 = i) (by omega), Bool.and_false]
  rw [BitVec.getLsbD_zero]
  exact hbit.symm

end Predictor

end MicroArch
