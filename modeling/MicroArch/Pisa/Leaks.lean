import Mathlib.Data.Fintype.Basic
import Mathlib.Tactic.FinCases
import MicroArch.Pisa.Declared

/-!
# Leaks

The opcodes whose declarations leave something out, one instruction for each.

An instruction that writes one half of a pair leaves the other half as it was,
and the number it declares stands for both. So what the number stands for
afterwards depends on what it stood for before, which the instruction does not
declare unless the pair is one of its operands. The moves of two integer words
use a register that has a number of its own, and a load of a part of a word
uses the register it writes.

With these the soundness of an opcode is settled. An opcode is sound for all
its instructions exactly when it is not leaky.

## Main definitions

* `withR`, `withF`: A machine with zeros but for one register.

## Theorems

* `not_sound_of_half`: An instruction that writes half of a pair.
* `not_sound_of_leaky`: Every leaky opcode has an instruction that leaks.
* `sound_iff`: The opcodes that declare what they use.
-/

namespace MicroArch

namespace Pisa

variable {ω : Type}

/-- The same machine but for one general register. -/
def withR (x : ω) (n : Fin 32) (e : Word) : State ω :=
  (blank x).setRegs ((blank x).regs.setR n e)

/-- The same machine but for one floating point register. -/
def withF (x : ω) (n : Fin 32) (e : Word) : State ω :=
  (blank x).setRegs ((blank x).regs.setF n e)

theorem agree_withR {A : Set Loc} (x : ω) (n : Fin 32) (e : Word) (h : Loc.gpr n ∉ A) :
    Agree view A (blank x) (withR x n e) := by
  refine ⟨rfl, fun l hl => ?_⟩
  cases l with
  | gpr m =>
      have hne : m ≠ n := fun hmn => h (hmn ▸ hl)
      simp [view, withR, State.setRegs, Regs.setR, Regs.get, hne]
  | _ => rfl

theorem agree_withF {A : Set Loc} (x : ω) (n : Fin 32) (e : Word) (h : Loc.fpr n ∉ A) :
    Agree view A (blank x) (withF x n e) := by
  refine ⟨rfl, fun l hl => ?_⟩
  cases l with
  | fpr m =>
      have hne : m ≠ n := fun hmn => h (hmn ▸ hl)
      simp [view, withF, State.setRegs, Regs.setF, Regs.get, hne]
  | _ => rfl

/-- An instruction that writes half of a pair that is not an operand. -/
theorem not_sound_of_half {d : Definst ω} {r : Unit × State ω} {i₁ i₂ i₃ : Option Nat} (x : ω)
    (hwrites : Footprint view Set.univ Set.univ {.fpr 2} d.impl) (hrun : d.impl (blank x) = .ok r)
    (hins : d.ins = ![i₁, i₂, i₃]) (hno : DFPR_L 2 ∉ [i₁, i₂, i₃])
    (houts : d.outs = ![DFPR_L 2, DNA]) : ¬ d.Sound := by
  intro h
  have hfree : Loc.fpr 3 ∉ inputs d.ins := by
    rw [hins]
    -- None of the declared inputs is the other half.
    rintro (hz | ⟨j, hj⟩)
    · exact absurd hz (by decide)
    · refine hno ?_
      change _ = DFPR_L 2 at hj
      fin_cases j <;> simp_all
  have hout : Loc.fpr 3 ∈ outputs d.outs := by
    rw [houts]
    exact ⟨0, rfl⟩
  have hst := h.related _ _ (agree_withF x 3 1 hfree)
  -- Two states that differ in it agree on the inputs, but the half is left in both.
  rw [hrun] at hst
  cases hrun' : d.impl (withF x 3 1) with
  | error e =>
      rw [hrun'] at hst
      exact hst
  | ok q =>
      rw [hrun'] at hst
      have hsame : r.2.regs.F 3 = q.2.regs.F 3 := hst.2.get _ hout
      have hleft : r.2.regs.F 3 = 0 := hwrites.frame _ _ _ hrun (.fpr 3) (by simp)
      have hright : q.2.regs.F 3 = 1 := hwrites.frame _ _ _ hrun' (.fpr 3) (by simp)
      rw [hleft, hright] at hsame
      exact absurd hsame (by decide)

/-- An instruction that writes a register it does not declare. -/
theorem not_sound_of_write {d : Definst ω} {r : Unit × State ω} (x : ω)
    (hrun : d.impl (withR x 3 1) = .ok r) (hzero : r.2.regs.R 3 = 0)
    (houts : d.outs = ![DGPR_D 2, DNA]) : ¬ d.Sound := by
  intro h
  have hone : r.2.regs.R 3 = 1 := h.frame _ _ _ hrun (.gpr 3) (by
    rw [houts, mem_outputs_one]
    decide)
  rw [hzero] at hone
  exact absurd hone (by decide)

theorem footprint_load_half {read : Word → Exec ω Word} {addr : Exec ω Word}
    (hread : ∀ A W a, Footprint view A A W (read a))
    (haddr : ∀ W, Footprint view Set.univ Set.univ W addr) :
    Footprint view Set.univ Set.univ {.fpr 2} (load read addr (SET_FPR_L 2)) :=
  (haddr _).bind fun a => (hread _ _ a).bind fun _ =>
    footprint_SET_FPR_L (fun _ => rfl) fun _ => Set.subset_insert _ _

theorem footprint_fp3_half (op : Word → Word → Word) :
    Footprint view Set.univ Set.univ {.fpr 2}
      (fp3 FPR_F SET_FPR_F op ⟨0, 0x00000200⟩ : Exec ω Unit) :=
  footprint_faultIf fun _ => (footprint_FPR_L fun _ => Set.mem_univ _).bind fun _ =>
    (footprint_FPR_L fun _ => Set.mem_univ _).bind fun _ =>
      footprint_SET_FPR_L (fun _ => rfl) fun _ => Set.subset_insert _ _

theorem footprint_fp2_half {α : Type} {get : Nat → Exec ω α}
    (hget : ∀ n W, Footprint view Set.univ Set.univ W (get n)) (op : α → Word) :
    Footprint view Set.univ Set.univ {.fpr 2} (fp2 get SET_FPR_F op ⟨0, 0x00000200⟩) :=
  footprint_faultIf fun _ => (hget _ _).bind fun _ =>
    footprint_SET_FPR_L (fun _ => rfl) fun _ => Set.subset_insert _ _

/-- An instruction whose result depends on a register it does not declare. -/
theorem not_sound_of_read {d : Definst ω} {r q : Unit × State ω} {i₁ i₂ i₃ : Option Nat} (x : ω)
    {n : Fin 32} {e : Word} (hn : n ≠ 0) (hins : d.ins = ![i₁, i₂, i₃])
    (hno : some n.val ∉ [i₁, i₂, i₃]) (hrun : d.impl (blank x) = .ok r)
    (hrun' : d.impl (withR x n e) = .ok q) (hout : ¬ Agree view (outputs d.outs) r.2 q.2) :
    ¬ d.Sound := by
  intro h
  -- None of the declared inputs is the register.
  have hfree : Loc.gpr n ∉ inputs d.ins := by
    rw [hins]
    rintro (hz | ⟨j, hj⟩)
    · exact hn (by simpa using hz)
    · refine hno ?_
      change _ = some n.val at hj
      fin_cases j <;> simp_all
  have hst := h.related _ _ (agree_withR x n e hfree)
  rw [hrun, hrun'] at hst
  exact hout hst.2

theorem store_ok {s : State ω} {src addr : Exec ω Word} {v a : Word} {m : Memory.Mem}
    (hsrc : src s = .ok (v, s)) (haddr : addr s = .ok (a, s))
    (hm : Memory.memWrite s.mem a (leBytes 4 v.toNat) = some m) :
    store WRITE_WORD src addr s = .ok ((), s.setMem m) := by
  simp [store, WRITE_WORD, writeMem, Bind.bind, StateT.bind, Except.bind, hsrc, haddr, hm]

/-- Two words are stored at address zero, and the second one begins at
    address four. -/
theorem storePair_withR (x : ω) (e : Word) {addr : Exec ω Word}
    (haddr : ∀ m, addr ((withR x 3 e).setMem m) = .ok (0, (withR x 3 e).setMem m)) :
    ∃ m, storePair addr GPR 2 (withR x 3 e) = .ok ((), (withR x 3 e).setMem m) ∧
      m.byte 4 = BitVec.ofNat 8 e.toNat := by
  have hwithin : Memory.Within 4 (leBytes 4 e.toNat).length := by
    rw [length_leBytes]
    decide
  have hstart : Memory.Within 0 (leBytes 4 0).length := by decide
  rcases Memory.represents_memWrite Memory.represents_memCreate hstart with ⟨m₁, h₁, r₁⟩
  rcases Memory.represents_memWrite r₁ hwithin with ⟨m₂, h₂, r₂⟩
  -- The first word is zero in both runs, and the second one is what the register holds.
  have hfirst : store WRITE_WORD (GPR 2) addr (withR x 3 e) = .ok ((), (withR x 3 e).setMem m₁) :=
    store_ok rfl (haddr _) h₁
  have hsecond : store WRITE_WORD (GPR 3) (do return (← addr) + 4) ((withR x 3 e).setMem m₁)
      = .ok ((), ((withR x 3 e).setMem m₁).setMem m₂) :=
    store_ok (v := e) rfl (by simp [Bind.bind, StateT.bind, Except.bind, haddr]; rfl) h₂
  refine ⟨m₂, ?_, ?_⟩
  · rw [storePair, faultIf, if_neg (by decide)]
    change (store2 addr (GPR 2) (GPR 3)) (withR x 3 e) = _
    simp only [store2, Bind.bind, StateT.bind, Except.bind, hfirst]
    exact hsecond
  · rw [r₂.bytes]
    rfl

theorem withR_zero (x : ω) (n : Fin 32) : withR x n 0 = blank x := by
  have hsame : Function.update (blank x).regs.R n 0 = (blank x).regs.R :=
    Function.update_eq_self _ _
  simp only [withR, State.setRegs, Regs.setR, hsame]

/-- A store of two integer words whose second register is not declared. -/
theorem not_sound_of_storePair {d : Definst ω} {addr : Exec ω Word} {i₁ i₂ i₃ : Option Nat} (x : ω)
    (himpl : d.impl = storePair addr GPR 2) (hins : d.ins = ![i₁, i₂, i₃])
    (hno : some 3 ∉ [i₁, i₂, i₃])
    (haddr : ∀ e m, addr ((withR x 3 e).setMem m) = .ok (0, (withR x 3 e).setMem m)) :
    ¬ d.Sound := by
  rcases storePair_withR x 0 (haddr 0) with ⟨m, hm, hzero⟩
  rcases storePair_withR x 1 (haddr 1) with ⟨m', hm', hone⟩
  rw [← himpl] at hm hm'
  rw [withR_zero] at hm
  -- Storing zero and storing one leave different bytes at address four.
  refine not_sound_of_read x (by decide) hins hno hm hm' fun h => ?_
  have hmem : m = m' := congrArg (·.1) h.rest
  rw [hmem, hone] at hzero
  exact absurd hzero (by decide)

/-- An instruction of every leaky opcode that leaks. -/
theorem not_sound_of_leaky (host : Host ω) (x : ω) {op : Op} (h : leaky op = true) :
    ∃ i, ¬ (definst host i op).Sound := by
  have hL : ∀ n W, Footprint view Set.univ Set.univ W (FPR_L n : Exec ω Word) :=
    fun _ _ => footprint_FPR_L fun _ => Set.mem_univ _
  have hD : ∀ n W, Footprint view Set.univ Set.univ W (FPR_D n : Exec ω (BitVec 64)) :=
    fun _ _ => footprint_FPR_D fun _ _ _ => Set.mem_univ _
  -- One instruction for every opcode: a half left alone, a register not declared, or both.
  cases op
  case L_S =>
      exact ⟨⟨0, 0x00020000⟩, not_sound_of_half x (footprint_load_half footprint_readWord
        fun _ => footprint_disp fun _ => Set.mem_univ _) rfl rfl (by decide) rfl⟩
  case L_S_RR =>
      exact ⟨⟨0, 0x00020000⟩, not_sound_of_half x (footprint_load_half footprint_readWord
        fun _ => footprint_rr (fun _ => Set.mem_univ _) fun _ => Set.mem_univ _) rfl rfl
        (by decide) rfl⟩
  case L_S_RR_R2 =>
      exact ⟨⟨0, 0x00020000⟩, not_sound_of_half x (footprint_load_half footprint_readWord
        fun _ => footprint_rr2 (fun _ => Set.mem_univ _) fun _ => Set.mem_univ _) rfl rfl
        (by decide) rfl⟩
  case MTC1 =>
      exact ⟨⟨0, 0x02000000⟩, not_sound_of_half x ((footprint_GPR fun _ => Set.mem_univ _).bind
        fun _ => footprint_SET_FPR_L (fun _ => rfl) fun _ => Set.subset_insert _ _)
        rfl rfl (by decide) rfl⟩
  case FADD_S | FSUB_S | FMUL_S | FDIV_S =>
      exact ⟨⟨0, 0x00000200⟩, not_sound_of_half x (footprint_fp3_half _) rfl rfl (by decide) rfl⟩
  case FABS_S | FMOV_S | FNEG_S | FSQRT_S | CVT_S_W | CVT_W_S =>
      exact ⟨⟨0, 0x00000200⟩, not_sound_of_half x (footprint_fp2_half hL _) rfl rfl (by decide)
        rfl⟩
  case CVT_S_D | CVT_W_D =>
      exact ⟨⟨0, 0x00000200⟩, not_sound_of_half x (footprint_fp2_half hD _) rfl rfl (by decide)
        rfl⟩
  case DLW | DLW_RR | DMFC1 =>
      exact ⟨⟨0, 0x00020000⟩, not_sound_of_write x rfl rfl rfl⟩
  case LWL =>
      -- Byte one of a word leaves the first bytes of the register alone.
      refine ⟨⟨0, 0x00020001⟩, not_sound_of_read x (n := 2) (e := 1) (by decide) rfl (by decide)
        rfl rfl fun h => ?_⟩
      have hsame : lwl 1 0 0 = lwl 1 1 0 := h.get (.gpr 2) ⟨0, rfl⟩
      exact absurd hsame (by decide)
  case LWR =>
      refine ⟨⟨0, 0x00020001⟩, not_sound_of_read x (n := 2) (e := 0x01000000) (by decide) rfl
        (by decide) rfl rfl fun h => ?_⟩
      have hsame : lwr 1 0 0 = lwr 1 0x01000000 0 := h.get (.gpr 2) ⟨0, rfl⟩
      exact absurd hsame (by decide)
  case DMTC1 =>
      refine ⟨⟨0, 0x02020000⟩, not_sound_of_read x (n := 3) (e := 1) (by decide) rfl (by decide)
        rfl rfl fun h => ?_⟩
      have hsame : (0 : Word) = 1 := h.get (.fpr 3) ⟨0, rfl⟩
      exact absurd hsame (by decide)
  case DSW | DSW_RR =>
      exact ⟨⟨0, 0x00020000⟩, not_sound_of_storePair x rfl rfl (by decide) fun _ _ => rfl⟩
  all_goals exact absurd h (by decide)

/-- An opcode other than a system call declares what all its instructions use
    exactly when it is not leaky. -/
theorem sound_iff (host : Host ω) (x : ω) (op : Op) (hs : op ≠ .SYSCALL) :
    (∀ i, (definst host i op).Sound) ↔ leaky op = false := by
  refine ⟨fun h => ?_, fun h i => sound_of_not_leaky host i h hs⟩
  cases hl : leaky op with
  | false => rfl
  | true =>
      rcases not_sound_of_leaky host x hl with ⟨i, hi⟩
      exact absurd (h i) hi

/-- A load of a word, and of a part of one. -/
theorem sound_iff_loads :
    ((∀ i, (definst bareHost i .LW).Sound) ↔ leaky .LW = false) ∧
    ((∀ i, (definst bareHost i .LWL).Sound) ↔ leaky .LWL = false) :=
  ⟨sound_iff bareHost () .LW (by decide), sound_iff bareHost () .LWL (by decide)⟩

end Pisa

end MicroArch
