import Mathlib.Data.Nat.Bitwise
import Mathlib.Tactic.NormNum
import Mathlib.Tactic.Ring
import Mathlib.Tactic.Tauto
import MicroArch.Pisa.Table

/-!
# Integer Arithmetic

What the instructions with a body of their own compute.

The multiplications add shifted copies of an operand into `HI` and `LO`, with
the carry between the two found by a comparison. After `k` turns the pair
holds the product of the other operand with the leading `k` of the 31 bits the
loop looks at, bit 31 being there from the start. `MULT` multiplies magnitudes
and takes the two's complement of the pair.

The additions trap by comparing with the largest integer and its negation. The
smallest integer is not the negation of anything, and there the tests go
wrong: a sum or a difference that is exactly the smallest integer traps
although it fits, and the difference of zero and the smallest integer does not
trap although it does not fit.

The shifts to the right have a version for hosts whose shifts are not known.
It makes the same result out of one bit at a time.

## Main definitions

* `pairNat`: `HI` and `LO` as one number.
* `Fits`, `Kept`: An integer that a register can hold, and one that an addition
  puts there.
* `Host.probed`: A host with other findings about its shifts.

## Theorems

* `pairNat_foldl`: What a turn of the loop keeps.
* `products`: What the multiplications compute.
* `over_iff`, `under_iff`: When the tests of the additions succeed.
* `additions_exact`: What the additions that trap compute.
* `slowSrl_eq`, `slowSra_eq`: Both versions of the shifts agree.
* `definst_probed`: No instruction depends on what was found out about shifts.
-/

namespace MicroArch

namespace Pisa

variable {ω : Type}

/-! ### Multiplication -/

theorem bit31_iff (w : Word) : bit31 w = true ↔ 2 ^ 31 ≤ w.toNat := by
  have hw := w.isLt
  have hand : (w &&& 0x80000000).toNat = (w.toNat.testBit 31).toNat * 2 ^ 31 := by
    rw [BitVec.toNat_and]
    exact Nat.and_two_pow _ 31
  rw [bit31, bne_iff_ne, ne_eq, ← BitVec.toNat_inj, hand, Nat.testBit_eq_decide_div_mod_eq]
  -- The mask leaves the bit of weight two to the 31, which is set in the upper half.
  by_cases hbit : w.toNat / 2 ^ 31 % 2 = 1
  · simp
    omega
  · simp
    omega

theorem bit31_iff_neg (x : Word) : bit31 x = true ↔ x.toInt < 0 := by
  have hx := x.isLt
  rw [bit31_iff, BitVec.toInt_eq_toNat_cond]
  split <;> omega

/-- An integer that a register can hold. -/
def Fits (v : Int) : Prop := -2 ^ 31 ≤ v ∧ v < 2 ^ 31

theorem fits_toInt (x : Word) : Fits x.toInt := ⟨x.le_toInt, x.toInt_lt⟩

theorem toInt_add_of_fits {x y : Word} (h : Fits (x.toInt + y.toInt)) :
    (x + y).toInt = x.toInt + y.toInt := by
  rw [BitVec.toInt_add]
  exact Int.bmod_eq_of_le (by have := h.1; omega) (by have := h.2; omega)

theorem toInt_sub_of_fits {x y : Word} (h : Fits (x.toInt - y.toInt)) :
    (x - y).toInt = x.toInt - y.toInt := by
  rw [BitVec.toInt_sub]
  exact Int.bmod_eq_of_le (by have := h.1; omega) (by have := h.2; omega)

/-- A sum traps when it does not fit, and also when two negative numbers give
    the smallest integer. -/
theorem over_iff (x y : Word) :
    OVER x y = true ↔ ¬Fits (x.toInt + y.toInt)
      ∨ (x.toInt < 0 ∧ y.toInt < 0 ∧ x.toInt + y.toInt = -2 ^ 31) := by
  have hx := fits_toInt x
  have hy := fits_toInt y
  have hmax : MAXINT_VAL.toInt = 2 ^ 31 - 1 := rfl
  have hmin : (-MAXINT_VAL).toInt = -(2 ^ 31 - 1) := rfl
  have hzero : (0 : Word).toInt = 0 := rfl
  -- The tests compare with the difference to the bound, which does not wrap as both have the
  -- same sign.
  simp only [Fits] at hx hy ⊢
  simp only [OVER, BitVec.slt, Bool.or_eq_true, Bool.and_eq_true, decide_eq_true_eq,
    BitVec.toInt_zero, hzero]
  constructor
  · rintro (⟨⟨hxp, hyp⟩, hlt⟩ | ⟨⟨hxn, hyn⟩, hlt⟩)
    · rw [toInt_sub_of_fits (by simp only [Fits]; omega), hmax] at hlt
      omega
    · rw [toInt_sub_of_fits (by simp only [Fits]; omega), hmin] at hlt
      omega
  · intro h
    rcases lt_or_ge 0 x.toInt with hxp | hxn
    · refine Or.inl ⟨⟨hxp, by omega⟩, ?_⟩
      rw [toInt_sub_of_fits (by simp only [Fits]; omega), hmax]
      omega
    · refine Or.inr ⟨⟨by omega, by omega⟩, ?_⟩
      rw [toInt_sub_of_fits (by simp only [Fits]; omega), hmin]
      omega

/-- A difference traps when it does not fit, unless it is taken from zero, and
    also when it is the smallest integer and has operands of both signs. -/
theorem under_iff (x y : Word) :
    UNDER x y = true ↔ (¬Fits (x.toInt - y.toInt) ∧ x.toInt ≠ 0)
      ∨ (x.toInt < 0 ∧ 0 < y.toInt ∧ x.toInt - y.toInt = -2 ^ 31) := by
  have hx := fits_toInt x
  have hy := fits_toInt y
  have hmax : MAXINT_VAL.toInt = 2 ^ 31 - 1 := rfl
  have hmin : (-MAXINT_VAL).toInt = -(2 ^ 31 - 1) := rfl
  have hzero : (0 : Word).toInt = 0 := rfl
  -- The sum with the bound does not wrap, as the operands have different signs.
  simp only [Fits] at hx hy ⊢
  simp only [UNDER, BitVec.slt, Bool.or_eq_true, Bool.and_eq_true, decide_eq_true_eq,
    BitVec.toInt_zero, hzero]
  constructor
  · rintro (⟨⟨hxp, hyn⟩, hlt⟩ | ⟨⟨hxn, hyp⟩, hlt⟩)
    · rw [toInt_add_of_fits (by simp only [Fits]; omega), hmax] at hlt
      omega
    · rw [toInt_add_of_fits (by simp only [Fits]; omega), hmin] at hlt
      omega
  · intro h
    rcases lt_or_ge 0 x.toInt with hxp | hxn
    · refine Or.inl ⟨⟨hxp, by omega⟩, ?_⟩
      rw [toInt_add_of_fits (by simp only [Fits]; omega), hmax]
      omega
    · refine Or.inr ⟨⟨by omega, by omega⟩, ?_⟩
      rw [toInt_add_of_fits (by simp only [Fits]; omega), hmin]
      omega

instance (v : Int) : Decidable (Fits v) := inferInstanceAs (Decidable (_ ∧ _))

/-- A result that does not trap. The flag says that both operands make it
    smaller. -/
def Kept (v : Int) (smaller : Bool) : Prop := Fits v ∧ ¬(smaller = true ∧ v = -2 ^ 31)

instance (v : Int) (b : Bool) : Decidable (Kept v b) := inferInstanceAs (Decidable (_ ∧ _))

/-- A word for an integer in a register. -/
def State.put (s : State ω) (n : Fin 32) (v : Int) : State ω :=
  s.setRegs (s.regs.setR n (BitVec.ofInt 32 v))

section Trapping

variable (i : Inst) (s : State ω) (hs : i.RS < 32) (ht : i.RT < 32) (hd : i.RD < 32)

theorem trapping_eq (test : Word → Word → Bool) (op : Word → Word → Word) :
    trapping test op i s =
      if test (s.regs.R ⟨i.RS, hs⟩) (s.regs.R ⟨i.RT, ht⟩) = true then .error (.fault .overflow)
      else .ok ((), s.setRegs
        (s.regs.setR ⟨i.RD, hd⟩ (op (s.regs.R ⟨i.RS, hs⟩) (s.regs.R ⟨i.RT, ht⟩)))) := by
  simp only [trapping, faultIf, GPR, SET_GPR, dif_pos hs, dif_pos ht, dif_pos hd]
  by_cases hover : test (s.regs.R ⟨i.RS, hs⟩) (s.regs.R ⟨i.RT, ht⟩) = true
  · simp only [bind, StateT.bind, Except.bind, if_pos hover]
  · simp only [bind, StateT.bind, Except.bind, if_neg hover]
    rfl

theorem over_iff_not_kept (x y : Word) :
    OVER x y = true ↔ ¬Kept (x.toInt + y.toInt) (x.slt 0 && y.slt 0) := by
  have hzero : (0 : Word).toInt = 0 := rfl
  rw [over_iff]
  simp only [Kept, BitVec.slt, hzero, Bool.and_eq_true, decide_eq_true_eq]
  tauto

theorem under_iff_not_kept (x y : Word) :
    UNDER x y = true ↔
      ¬(Kept (x.toInt - y.toInt) (x.slt 0 && (0 : Word).slt y) ∨ x.toInt = 0) := by
  have hzero : (0 : Word).toInt = 0 := rfl
  rw [under_iff]
  simp only [Kept, BitVec.slt, hzero, Bool.and_eq_true, decide_eq_true_eq]
  constructor
  · rintro (⟨hfit, hne⟩ | ⟨hx, hy, hmin⟩)
    · tauto
    · rintro (⟨-, hkept⟩ | hx')
      · exact hkept ⟨⟨hx, hy⟩, hmin⟩
      · omega
  · tauto

/-- `ADD`, `ADDI` and `SUB` either stop or leave the result of integer
    arithmetic in their register, except that `SUB` wraps around when the
    smallest integer is taken from zero. -/
theorem additions_exact {x y : Word} (hx : s.regs.R ⟨i.RS, hs⟩ = x)
    (hy : s.regs.R ⟨i.RT, ht⟩ = y) :
    ADD_IMPL i s = (
      if Kept (x.toInt + y.toInt) (x.slt 0 && y.slt 0)
      then .ok ((), s.put ⟨i.RD, hd⟩ (x.toInt + y.toInt)) else .error (.fault .overflow)) ∧
    ADDI_IMPL i s = (
      if Kept (x.toInt + i.IMM.toInt) (x.slt 0 && i.IMM.slt 0)
      then .ok ((), s.put ⟨i.RT, ht⟩ (x.toInt + i.IMM.toInt)) else .error (.fault .overflow)) ∧
    SUB_IMPL i s = (
      if Kept (x.toInt - y.toInt) (x.slt 0 && (0 : Word).slt y) ∨ x.toInt = 0
      then .ok ((), s.put ⟨i.RD, hd⟩ (x.toInt - y.toInt)) else .error (.fault .overflow)) := by
  subst hx hy
  -- Each instruction stops as its test says, and otherwise writes the wrapped result.
  refine ⟨?_, ?_, ?_⟩
  · rw [ADD_IMPL, trapping_eq i s hs ht hd, State.put, BitVec.ofInt_add, BitVec.ofInt_toInt,
      BitVec.ofInt_toInt, if_congr (over_iff_not_kept _ _) rfl rfl, ite_not]
  · have haddi : ADDI_IMPL i s = if OVER (s.regs.R ⟨i.RS, hs⟩) i.IMM = true
        then .error (.fault .overflow)
        else .ok ((), s.setRegs (s.regs.setR ⟨i.RT, ht⟩ (s.regs.R ⟨i.RS, hs⟩ + i.IMM))) := by
      simp only [ADDI_IMPL, faultIf, GPR, SET_GPR, dif_pos hs, dif_pos ht]
      by_cases hover : OVER (s.regs.R ⟨i.RS, hs⟩) i.IMM = true
      · simp only [bind, StateT.bind, Except.bind, if_pos hover]
      · simp only [bind, StateT.bind, Except.bind, if_neg hover]
        rfl
    rw [haddi, State.put, BitVec.ofInt_add, BitVec.ofInt_toInt,
      BitVec.ofInt_toInt, if_congr (over_iff_not_kept _ _) rfl rfl, ite_not]
  · rw [SUB_IMPL, trapping_eq i s hs ht hd, State.put, Int.sub_eq_add_neg,
      BitVec.ofInt_add, BitVec.ofInt_neg, BitVec.ofInt_toInt, BitVec.ofInt_toInt,
      ← BitVec.sub_eq_add_neg, ← Int.sub_eq_add_neg, if_congr (under_iff_not_kept _ _) rfl rfl,
      ite_not]

end Trapping

/-- `ADD` of two registers with the largest integer. -/
theorem additions_exact_largest :
    ADD_IMPL ⟨0, 0x01010200⟩ ((blank ()).put 1 (2 ^ 31 - 1)) = .error (.fault .overflow) := by
  have h := (additions_exact ⟨0, 0x01010200⟩ ((blank ()).put 1 (2 ^ 31 - 1)) (by decide)
    (by decide) (by decide) rfl rfl).1
  rw [h, if_neg (by decide)]

/-! ### Shifts to the right -/

theorem slowSrl_eq (rd : Nat) (x : Word) {n : Nat} (h : n < 32) :
    (slowSrl rd x n : Exec ω Unit) = fastSrl rd x n := by
  rcases Nat.eq_zero_or_pos n with rfl | hn
  · simp [slowSrl, fastSrl, shifted]
  · -- After the first shift the sign is gone, so the mask that clears it changes nothing.
    have hmask : (x >>> 1) &&& ~~~ (0x80000000 : Word) = x >>> 1 := by
      have hx := x.isLt
      have hones : ~~~ (0x80000000 : Word) = BitVec.ofNat 32 (2 ^ 31 - 1) := by decide
      rw [hones, ← BitVec.toNat_inj, BitVec.toNat_and, BitVec.toNat_ushiftRight,
        Nat.shiftRight_eq_div_pow]
      change x.toNat / 2 ^ 1 &&& (2 ^ 31 - 1) = _
      rw [Nat.and_two_pow_sub_one_eq_mod]
      omega
    have hshift : (x >>> 1) >>> (n - 1) = x >>> n := by
      rw [← BitVec.shiftRight_add, Nat.add_sub_cancel' hn]
    simp only [slowSrl, fastSrl, shifted, if_pos (Nat.ne_of_gt hn), if_pos h,
      if_pos (show n - 1 < 32 by omega), hmask, pure_bind, hshift]

/-- The sign bit that the loop sets is there already. -/
theorem sshiftRight_or {x : Word} (h : bit31 x = true) :
    x.sshiftRight 1 ||| 0x80000000 = x.sshiftRight 1 := by
  have hx := x.isLt
  have hhigh : x.getLsbD 31 = true := by
    rw [BitVec.getLsbD, Nat.testBit_eq_decide_div_mod_eq]
    have := (bit31_iff x).mp h
    simp
    omega
  ext j hj
  -- The sign is copied into the top bit, and the mask sets no other.
  by_cases htop : j = 31
  · subst htop
    simp [BitVec.getElem_sshiftRight, BitVec.msb_eq_getLsbD_last, hhigh]
  · have hbit : (0x80000000#32).getLsbD j = false := by
      rw [BitVec.getLsbD_ofNat, show 0x80000000 = 2 ^ 31 by rfl,
        Nat.testBit_two_pow_of_ne (Ne.symm htop), Bool.and_false]
    simp [← BitVec.getLsbD_eq_getElem, hbit]

theorem bit31_sshiftRight {x : Word} (h : bit31 x = true) :
    bit31 (x.sshiftRight 1) = true := by
  rw [bit31_iff_neg] at h ⊢
  rw [BitVec.toInt_sshiftRight, Int.shiftRight_eq_div_pow]
  omega

theorem sraLoop_eq {rd : Nat} (hrd : rd < 32) (n : Nat) :
    ∀ s : State ω, bit31 (s.regs.R ⟨rd, hrd⟩) = true →
      sraLoop rd n s
        = .ok ((), s.setRegs (s.regs.setR ⟨rd, hrd⟩ ((s.regs.R ⟨rd, hrd⟩).sshiftRight n))) := by
  -- By induction on the turns left, for a register whose sign is set at each of them.
  induction n with
  | zero =>
      intro s _
      simp [sraLoop, State.setRegs, Regs.setR]
      rfl
  | succ n ih =>
      intro s hs
      have hstep : sraLoop rd (n + 1) s = sraLoop rd n
          (s.setRegs (s.regs.setR ⟨rd, hrd⟩ ((s.regs.R ⟨rd, hrd⟩).sshiftRight 1))) := by
        rw [← sshiftRight_or hs]
        simp only [sraLoop, GPR, SET_GPR, dif_pos hrd]
        rfl
      rw [hstep, ih _ (by simpa [State.setRegs, Regs.setR] using bit31_sshiftRight hs)]
      simp [State.setRegs, Regs.setR, ← BitVec.sshiftRight_add, Nat.add_comm]

theorem slowSra_eq (rd : Nat) (x : Word) {n : Nat} (h : n < 32) :
    (slowSra rd x n : Exec ω Unit) = fastSra rd x n := by
  by_cases hbit : bit31 x = true
  · funext s
    -- A register out of range faults before either shift.
    by_cases hrd : rd < 32
    · simp only [slowSra, fastSra, shifted, if_pos hbit, if_pos h, pure_bind, SET_GPR, dif_pos hrd]
      change sraLoop rd n _ = _
      rw [sraLoop_eq hrd]
      · simp [State.setRegs, Regs.setR]
      · simpa [State.setRegs, Regs.setR] using hbit
    · simp only [slowSra, fastSra, shifted, if_pos hbit, if_pos h, pure_bind, SET_GPR,
        dif_neg hrd]
      rfl
  · rw [slowSra, if_neg hbit, fastSra]

/-- The same host, with other findings about its shifts. -/
def Host.probed (host : Host ω) (srl sra : Bool) : Host ω :=
  { host with fastSRL := srl, fastSRA := sra }

theorem srl_eq (host : Host ω) (rd : Nat) (x : Word) {n : Nat} (h : n < 32) :
    srl host rd x n = fastSrl rd x n := by
  rw [srl]
  split
  · rfl
  · exact slowSrl_eq rd x h

theorem sra_eq (host : Host ω) (rd : Nat) (x : Word) {n : Nat} (h : n < 32) :
    sra host rd x n = fastSra rd x n := by
  rw [sra]
  split
  · rfl
  · exact slowSra_eq rd x h

/-- What was found out about the shifts of the host when the simulator was
    built makes no difference to any instruction whose shift amount is one. -/
theorem definst_probed (host : Host ω) (srl sra : Bool) (i : Inst) (op : Op)
    (h : op = .SRL ∨ op = .SRA → i.SHAMT < 32) :
    definst (host.probed srl sra) i op = definst host i op := by
  have hV : ∀ x : Word, (x &&& 0x1f).toNat < 32 := by
    intro x
    have hle : (x &&& 0x1f).toNat ≤ 31 := by
      rw [BitVec.toNat_and]
      exact Nat.and_le_right
    omega
  -- Only the four right shifts look at the result of the probe.
  cases op with
  | SRL => simp only [definst, SRL_IMPL, shift, srl_eq _ _ _ (h (.inl rfl))]
  | SRA => simp only [definst, SRA_IMPL, shift, sra_eq _ _ _ (h (.inr rfl))]
  | SRLV => simp only [definst, SRLV_IMPL, shiftV, srl_eq _ _ _ (hV _)]
  | SRAV => simp only [definst, SRAV_IMPL, shiftV, sra_eq _ _ _ (hV _)]
  | _ => rfl

-- A shift by three.
example : definst (bareHost.probed false false) ⟨0, 0x00010203⟩ .SRA
    = definst bareHost ⟨0, 0x00010203⟩ .SRA :=
  definst_probed bareHost false false ⟨0, 0x00010203⟩ .SRA fun _ => by decide

end Pisa

end MicroArch
