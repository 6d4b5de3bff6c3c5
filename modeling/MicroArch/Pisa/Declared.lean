import MicroArch.Library.Footprint
import MicroArch.Pisa.Table

/-!
# Declared Dependences

Whether the registers that an instruction declares are the ones it uses.

The pipeline knows nothing of an instruction but the numbers it declares. An
entry of the table is sound when its numbers tell the truth: nothing but its
outputs changes, and what they hold afterwards is determined by its inputs,
register zero, the memory and the program counter. The number of a floating
point register stands for a pair of words, so an output counts as both.

Most entries are sound. The others leave something out. A load of a part of a
word keeps the rest of its register, a move of two words uses the odd register
of a pair of integers, and an instruction of single precision keeps the other
half of the pair it writes.

Soundness is a footprint in the sense of `Library.Footprint`: from states that
agree in some words, the instruction goes to states that agree in others, and
writes no more than a third set. A footprint is put together along the text of
the instruction, so there is one lemma for each accessor and one for each family
of instructions. What a lemma of a family has to know of its operands is that
the table declares them, which is a question about three numbers and is decided
where the family is used. The set of known words only grows on the way. That is
needed where an instruction reads what it has written before, as the jump that
links does if both of its registers are the same.

## Main definitions

* `view`: The registers of a machine, and everything else.
* `inputs`, `outputs`: The words that declared numbers stand for.
* `Definst.Sound`: The entry declares what it uses.
* `leaky`: The opcodes that do not.

## Theorems

* `footprint_GPR`, `footprint_SET_GPR` and so on: What the accessors use.
* `sound_alu`, `sound_load` and so on: What the families use.
* `sound_of_not_leaky`: The opcodes that are not leaky are sound.
-/

namespace MicroArch

namespace Pisa

open Tomasulo (OpFlags)
open Memory (Byte)

variable {ω : Type}

/-- The words of the registers, with everything else as the rest. -/
def view : View (State ω) Loc Word (Memory.Mem × ω × Word × Word) :=
  { get := fun s => s.regs.get, rest := fun s => (s.mem, s.world, s.regs.PC, s.regs.NPC) }

/-- What declared inputs stand for. Register zero is known to be zero. -/
def inputs (ins : Fin 3 → Option Nat) : Set Loc := {l | l = .gpr 0 ∨ ∃ j, ins j = some l.number}

/-- What declared outputs stand for. -/
def outputs (outs : Fin 2 → Option Nat) : Set Loc := {l | ∃ j, outs j = some l.number}

/-- The entry declares what it uses. -/
def Definst.Sound (d : Definst ω) : Prop :=
  Footprint view (inputs d.ins) (outputs d.outs) (outputs d.outs) d.impl

/-- The opcodes with a register that they use and do not declare. -/
def leaky : Op → Bool
  | .LWL | .LWR | .DLW | .DLW_RR | .DSW | .DSW_RR | .DMFC1 | .DMTC1 | .L_S | .L_S_RR | .L_S_RR_R2
  | .MTC1 | .FADD_S | .FSUB_S | .FMUL_S | .FDIV_S | .FABS_S | .FMOV_S | .FNEG_S | .FSQRT_S
  | .CVT_S_D | .CVT_S_W | .CVT_W_S | .CVT_W_D => true
  | _ => false

/-! ### Locations -/

theorem Loc.number_lt_iff (l : Loc) (n : Nat) (hn : n < 32) :
    l.number = n ↔ l = .gpr ⟨n, hn⟩ := by
  cases l with
  | gpr m => simp [number, Fin.ext_iff]
  | fpr m =>
      simp only [number, reduceCtorEq, iff_false]
      omega
  | _ => simp only [number, reduceCtorEq, iff_false]; omega

theorem Loc.number_pair_iff (l : Loc) (n : Nat) (hn : n < 32) :
    l.number = 2 * ((n + 32) / 2) ↔
      l = .fpr ⟨2 * (n / 2), by omega⟩ ∨ l = .fpr ⟨2 * (n / 2) + 1, by omega⟩ := by
  cases l with
  | gpr m =>
      simp only [number, reduceCtorEq, or_self, iff_false]
      omega
  | fpr m =>
      -- Both words of a pair have its number, and no other location does.
      simp only [number, Loc.fpr.injEq, Fin.ext_iff]
      omega
  | _ => simp only [number, reduceCtorEq, or_self, iff_false]; omega

section Sets

variable {ins : Fin 3 → Option Nat} {outs : Fin 2 → Option Nat} {n : Nat}

theorem gpr_inputs (j : Fin 3) (h : ins j = DGPR n) (hn : n < 32) :
    Loc.gpr ⟨n, hn⟩ ∈ inputs ins := .inr ⟨j, h⟩

theorem zero_inputs : Loc.gpr 0 ∈ inputs ins := .inl rfl

theorem fpr_inputs (j : Fin 3) (h : ins j = DFPR_L n) (hn : n < 32) :
    Loc.fpr ⟨n, hn⟩ ∈ inputs ins := .inr ⟨j, h⟩

/-- Both words of a pair stand for it. -/
theorem pair_inputs {m : Nat} (j : Fin 3) (h : ins j = DFPR_L n) (hm : m < 32)
    (hmn : m / 2 = n / 2) : Loc.fpr ⟨m, hm⟩ ∈ inputs ins := by
  refine .inr ⟨j, h.trans ?_⟩
  simp only [DFPR_L, Loc.number, Option.some.injEq]
  omega

theorem gpr_outputs (j : Fin 2) (h : outs j = DGPR n) (hn : n < 32) :
    Loc.gpr ⟨n, hn⟩ ∈ outputs outs := ⟨j, h⟩

theorem pair_outputs {m : Nat} (j : Fin 2) (h : outs j = DFPR_L n) (hm : m < 32)
    (hmn : m / 2 = n / 2) : Loc.fpr ⟨m, hm⟩ ∈ outputs outs := by
  refine ⟨j, h.trans ?_⟩
  simp only [DFPR_L, Loc.number, Option.some.injEq]
  omega

theorem mem_outputs_one {d : Option Nat} {l : Loc} :
    l ∈ outputs ![d, DNA] ↔ d = some l.number := by
  simp [outputs, Fin.exists_fin_two, DNA]

theorem outputs_none : outputs ![DNA, DNA] = ∅ := by
  ext l
  rw [mem_outputs_one]
  simp [DNA]

theorem outputs_gpr {A : Set Loc} (hn : n < 32) :
    outputs ![DGPR n, DNA] ⊆ insert (.gpr ⟨n, hn⟩) A := by
  intro l hl
  rw [mem_outputs_one, DGPR, Option.some.injEq, eq_comm, l.number_lt_iff n hn] at hl
  exact .inl hl

end Sets

/-! ### Accessors -/

section Accessors

variable {A B W : Set Loc} {n : Nat}

theorem footprint_undefined {α : Type} :
    Footprint view A B W (undefined : Exec ω α) := Footprint.throw _

/-- What comes after a check may rely on it. -/
theorem footprint_faultIf {α : Type} {c : Prop} [Decidable c] {f : Memory.MdFault}
    {x : Exec ω α} (hx : ¬ c → Footprint view A B W x) :
    Footprint view A B W (do faultIf c f; x) := by
  by_cases hc : c
  · rw [faultIf, if_pos hc]
    exact Footprint.throw _
  · rw [faultIf, if_neg hc]
    exact (Footprint.pure ()).bind fun _ => hx hc

theorem footprint_GPR (h : ∀ hn, Loc.gpr ⟨n, hn⟩ ∈ A) :
    Footprint view A A W (GPR n : Exec ω Word) := by
  rw [GPR]
  split
  · next hn => exact Footprint.reading (h hn) id
  · exact footprint_undefined

theorem footprint_FPR_L (h : ∀ hn, Loc.fpr ⟨n, hn⟩ ∈ A) :
    Footprint view A A W (FPR_L n : Exec ω Word) := by
  rw [FPR_L]
  split
  · next hn => exact Footprint.reading (h hn) id
  · exact footprint_undefined

theorem footprint_SET_GPR {e : Word} (hW : ∀ hn, Loc.gpr ⟨n, hn⟩ ∈ W)
    (hB : ∀ hn, B ⊆ insert (Loc.gpr ⟨n, hn⟩) A) :
    Footprint view A B W (SET_GPR n e : Exec ω Unit) := by
  rw [SET_GPR]
  split
  · next hn =>
      have hset : Footprint view A (insert (.gpr ⟨n, hn⟩) A) W
          (fun s => .ok ((), s.setRegs (s.regs.setR ⟨n, hn⟩ e)) : Exec ω Unit) := by
        refine Footprint.writing (v := e) (hW hn) (fun _ => rfl) (fun s => ?_) fun s k hk => ?_
        · simp [view, State.setRegs, Regs.setR, Regs.get]
        · cases k <;> simp_all [view, State.setRegs, Regs.setR, Regs.get]
      exact hset.mono Set.Subset.rfl (hB hn) Set.Subset.rfl
  · exact footprint_undefined

theorem footprint_SET_FPR_L {e : Word} (hW : ∀ hn, Loc.fpr ⟨n, hn⟩ ∈ W)
    (hB : ∀ hn, B ⊆ insert (Loc.fpr ⟨n, hn⟩) A) :
    Footprint view A B W (SET_FPR_L n e : Exec ω Unit) := by
  rw [SET_FPR_L]
  split
  · next hn =>
      have hset : Footprint view A (insert (.fpr ⟨n, hn⟩) A) W
          (fun s => .ok ((), s.setRegs (s.regs.setF ⟨n, hn⟩ e)) : Exec ω Unit) := by
        refine Footprint.writing (v := e) (hW hn) (fun _ => rfl) (fun s => ?_) fun s k hk => ?_
        · simp [view, State.setRegs, Regs.setF, Regs.get]
        · cases k <;> simp_all [view, State.setRegs, Regs.setF, Regs.get]
      exact hset.mono Set.Subset.rfl (hB hn) Set.Subset.rfl
  · exact footprint_undefined

theorem footprint_FPR_D (h : ∀ m, m / 2 = n / 2 → ∀ hm, Loc.fpr ⟨m, hm⟩ ∈ A) :
    Footprint view A A W (FPR_D n : Exec ω (BitVec 64)) := by
  unfold FPR_D
  refine (footprint_FPR_L (h _ (by omega))).bind fun lo => ?_
  refine (footprint_FPR_L (h _ (by omega))).bind fun hi => ?_
  exact Footprint.pure _

/-- Writing both words of a pair. -/
theorem footprint_setPair {m : Nat} {lo hi : Word} (hm : m = 2 * (n / 2))
    (hW : ∀ k, k / 2 = n / 2 → ∀ hk, Loc.fpr ⟨k, hk⟩ ∈ W)
    (hB : ∀ l ∈ B, l ∈ A ∨ l.number = 2 * ((n + 32) / 2)) :
    Footprint view A B W (do SET_FPR_L m lo; SET_FPR_L (m + 1) hi : Exec ω Unit) := by
  subst hm
  by_cases hn : n < 32
  · have hlo : 2 * (n / 2) < 32 := by omega
    -- After the first word is written it is known, too.
    refine (footprint_SET_FPR_L (B := insert (.fpr ⟨_, hlo⟩) A) (hW _ (by omega))
      fun _ => Set.Subset.rfl).bind fun _ => ?_
    refine footprint_SET_FPR_L (hW _ (by omega)) fun _ l hl => ?_
    rcases hB l hl with ha | hnum
    · exact .inr (.inr ha)
    · rcases (l.number_pair_iff n hn).mp hnum with rfl | rfl
      · exact .inr (.inl rfl)
      · exact .inl rfl
  · have hout : ¬ 2 * (n / 2) < 32 := by omega
    rw [SET_FPR_L, dif_neg hout]
    -- A pair that does not exist: the first write has no result.
    refine (footprint_undefined (B := A)).bind fun _ => ?_
    exact footprint_SET_FPR_L (fun hm => absurd hm (by omega)) fun hm => absurd hm (by omega)

theorem footprint_HI (h : Loc.hi ∈ A) : Footprint view A A W (HI : Exec ω Word) :=
  Footprint.reading h id

theorem footprint_LO (h : Loc.lo ∈ A) : Footprint view A A W (LO : Exec ω Word) :=
  Footprint.reading h id

theorem footprint_FCC (h : Loc.fcc ∈ A) : Footprint view A A W (FCC : Exec ω Word) :=
  Footprint.reading h id

theorem footprint_SET_HI {e : Word} (hW : Loc.hi ∈ W) (hB : B ⊆ insert .hi A) :
    Footprint view A B W (SET_HI e : Exec ω Unit) := by
  refine Footprint.mono (Footprint.writing (v := e) hW (fun _ => rfl) (fun _ => rfl) ?_)
    Set.Subset.rfl hB Set.Subset.rfl
  intro s k hk
  cases k <;> simp_all [view, State.setRegs, Regs.get]

theorem footprint_SET_LO {e : Word} (hW : Loc.lo ∈ W) (hB : B ⊆ insert .lo A) :
    Footprint view A B W (SET_LO e : Exec ω Unit) := by
  refine Footprint.mono (Footprint.writing (v := e) hW (fun _ => rfl) (fun _ => rfl) ?_)
    Set.Subset.rfl hB Set.Subset.rfl
  intro s k hk
  cases k <;> simp_all [view, State.setRegs, Regs.get]

theorem footprint_SET_FCC {e : Bool} (hW : Loc.fcc ∈ W) (hB : B ⊆ insert .fcc A) :
    Footprint view A B W (SET_FCC e : Exec ω Unit) := by
  refine Footprint.mono (Footprint.writing (v := if e then 1 else 0) hW (fun _ => rfl)
    (fun _ => rfl) ?_) Set.Subset.rfl hB Set.Subset.rfl
  intro s k hk
  cases k <;> simp_all [view, State.setRegs, Regs.get]

theorem footprint_CPC : Footprint view A A W (CPC : Exec ω Word) where
  related s t h := ⟨congrArg (·.2.2.1) h.rest, h⟩
  frame s a s' hs l _ := by
    obtain ⟨-, rfl⟩ : s.regs.PC = a ∧ s = s' := by simpa [CPC] using hs
    rfl

theorem footprint_SET_NPC {e : Word} : Footprint view A A W (SET_NPC e : Exec ω Unit) where
  related s t h := by
    have hrest := h.rest
    simp only [view, Prod.mk.injEq] at hrest
    refine ⟨rfl, by simp [view, State.setRegs, hrest], fun l hl => ?_⟩
    have hget := h.get l hl
    cases l <;> exact hget
  frame s a s' hs l _ := by
    obtain rfl : s.setRegs { s.regs with NPC := e } = s' := by simpa [SET_NPC] using hs
    cases l <;> rfl

theorem footprint_readMem {k : Nat} {a : Word} :
    Footprint view A A W (readMem k a : Exec ω (List Byte)) where
  related s t h := by
    have hrest := h.rest
    simp only [view, Prod.mk.injEq] at hrest
    simp only [readMem, ← hrest.1]
    cases Memory.memRead k s.mem a with
    | none => exact rfl
    | some r => exact ⟨rfl, by simp [view, State.setMem, hrest], h.get⟩
  frame s b s' hs l _ := by
    simp only [readMem] at hs
    cases hr : Memory.memRead k s.mem a with
    | none => simp [hr] at hs
    | some r =>
        obtain ⟨-, rfl⟩ : r.1 = b ∧ s.setMem r.2 = s' := by simpa [hr] using hs
        rfl

theorem footprint_writeMem {bytes : List Byte} {a : Word} :
    Footprint view A A W (writeMem bytes a : Exec ω Unit) where
  related s t h := by
    have hrest := h.rest
    simp only [view, Prod.mk.injEq] at hrest
    simp only [writeMem, ← hrest.1]
    cases Memory.memWrite s.mem a bytes with
    | none => exact rfl
    | some m => exact ⟨rfl, by simp [view, State.setMem, hrest], h.get⟩
  frame s b s' hs l _ := by
    simp only [writeMem] at hs
    cases hr : Memory.memWrite s.mem a bytes with
    | none => simp [hr] at hs
    | some m =>
        obtain rfl : s.setMem m = s' := by simpa [hr] using hs
        rfl

/-- Reading a value of the memory. -/
theorem footprint_read {k : Nat} {a : Word} {α : Type} (f : List Byte → α) :
    Footprint view A A W (do return f (← readMem k a) : Exec ω α) := by
  refine footprint_readMem.bind fun bytes => ?_
  exact Footprint.pure _

theorem footprint_READ_BYTE {a : Word} : Footprint view A A W (READ_BYTE a : Exec ω Byte) :=
  footprint_read _

theorem footprint_READ_HALF {a : Word} :
    Footprint view A A W (READ_HALF a : Exec ω (BitVec 16)) := footprint_read _

theorem footprint_READ_WORD {a : Word} : Footprint view A A W (READ_WORD a : Exec ω Word) :=
  footprint_read _

end Accessors

/-! ### Families -/

section Families

variable {i : Inst} {F : OpFlags} {outs : Fin 2 → Option Nat} {ins : Fin 3 → Option Nat}

/-- An entry that changes no register. -/
theorem sound_of_quiet {x : Exec ω Unit} (h : Footprint view (inputs ins) (inputs ins) ∅ x) :
    Definst.Sound ⟨x, F, ![DNA, DNA], ins⟩ := by
  rw [Definst.Sound, outputs_none]
  exact h.mono Set.Subset.rfl (Set.empty_subset _) Set.Subset.rfl

theorem footprint_jumpTarget {A W : Set Loc} :
    Footprint view A A W (jumpTarget i : Exec ω Word) := by
  unfold jumpTarget
  refine footprint_CPC.bind fun pc => ?_
  exact Footprint.pure _

theorem sound_branch {taken : Exec ω Bool}
    (h : Footprint view (inputs ins) (inputs ins) ∅ taken) :
    Definst.Sound ⟨branch i taken, F, ![DNA, DNA], ins⟩ := by
  apply sound_of_quiet
  unfold branch
  refine h.bind fun t => ?_
  refine footprint_CPC.bind fun pc => ?_
  exact Footprint.ite (fun _ => footprint_SET_NPC) fun _ => Footprint.pure _

/-- A result for one general register. -/
theorem footprint_result {n : Nat} {e : Word} :
    Footprint view (inputs ins) (outputs ![DGPR n, DNA]) (outputs ![DGPR n, DNA])
      (SET_GPR n e : Exec ω Unit) :=
  footprint_SET_GPR (gpr_outputs 0 rfl) fun hn => outputs_gpr hn

/-- A result for a pair. -/
theorem footprint_pairResult {n m : Nat} {lo hi : Word} (hm : m = 2 * (n / 2)) :
    Footprint view (inputs ins) (outputs ![DFPR_D n, DNA]) (outputs ![DFPR_D n, DNA])
      (do SET_FPR_L m lo; SET_FPR_L (m + 1) hi : Exec ω Unit) := by
  refine footprint_setPair hm (fun m hmn hm => pair_outputs 0 rfl hm hmn) fun l hl => .inr ?_
  rw [mem_outputs_one, DFPR_D, Option.some.injEq] at hl
  exact hl.symm

theorem sound_alu (op : Word → Word → Word) :
    Definst.Sound (ω := ω) ⟨alu op i, F, ![DGPR i.RD, DNA], ![DGPR i.RS, DGPR i.RT, DNA]⟩ := by
  unfold Definst.Sound alu
  refine (footprint_GPR (gpr_inputs 0 rfl)).bind fun x => ?_
  refine (footprint_GPR (gpr_inputs 1 rfl)).bind fun y => ?_
  exact footprint_result

theorem sound_trapping (test : Word → Word → Bool) (op : Word → Word → Word) :
    Definst.Sound (ω := ω)
      ⟨trapping test op i, F, ![DGPR i.RD, DNA], ![DGPR i.RS, DGPR i.RT, DNA]⟩ := by
  unfold Definst.Sound trapping
  refine (footprint_GPR (gpr_inputs 0 rfl)).bind fun x => ?_
  refine (footprint_GPR (gpr_inputs 1 rfl)).bind fun y => ?_
  refine footprint_faultIf fun _ => ?_
  exact footprint_result

theorem sound_aluImm (op : Word → Word → Word) (imm : Word) :
    Definst.Sound (ω := ω) ⟨aluImm op imm i, F, ![DGPR i.RT, DNA], ![DGPR i.RS, DNA, DNA]⟩ := by
  unfold Definst.Sound aluImm
  refine (footprint_GPR (gpr_inputs 0 rfl)).bind fun x => ?_
  exact footprint_result

theorem sound_ADDI : Definst.Sound (ω := ω)
    ⟨ADDI_IMPL i, F, ![DGPR i.RT, DNA], ![DGPR i.RS, DNA, DNA]⟩ := by
  unfold Definst.Sound ADDI_IMPL
  refine (footprint_GPR (gpr_inputs 0 rfl)).bind fun x => ?_
  refine footprint_faultIf fun _ => ?_
  exact footprint_result

theorem Loc.number_hi_iff (l : Loc) : 64 = l.number ↔ l = .hi := by
  cases l <;> simp only [number, reduceCtorEq, iff_false] <;> omega

theorem Loc.number_lo_iff (l : Loc) : 65 = l.number ↔ l = .lo := by
  cases l <;> simp only [number, reduceCtorEq, iff_false] <;> omega

theorem Loc.number_fcc_iff (l : Loc) : 66 = l.number ↔ l = .fcc := by
  cases l <;> simp only [number, reduceCtorEq, iff_false] <;> omega

theorem outputs_hiLo : outputs ![DHI, DLO] = {.hi, .lo} := by
  ext l
  simp [outputs, Fin.exists_fin_two, DHI, DLO, l.number_hi_iff, l.number_lo_iff]

theorem footprint_hiLo {hi lo : Word} :
    Footprint view (inputs ins) (outputs ![DHI, DLO]) (outputs ![DHI, DLO])
      (do SET_HI hi; SET_LO lo : Exec ω Unit) := by
  -- Both registers are determined: the second write adds its own to the first.
  rw [outputs_hiLo]
  refine (footprint_SET_HI (by simp) Set.Subset.rfl).bind fun _ => ?_
  refine footprint_SET_LO (by simp) fun l hl => ?_
  rcases hl with rfl | rfl <;> simp

theorem footprint_loHi {hi lo : Word} :
    Footprint view (inputs ins) (outputs ![DHI, DLO]) (outputs ![DHI, DLO])
      (do SET_LO lo; SET_HI hi : Exec ω Unit) := by
  rw [outputs_hiLo]
  refine (footprint_SET_LO (by simp) Set.Subset.rfl).bind fun _ => ?_
  refine footprint_SET_HI (by simp) fun l hl => ?_
  rcases hl with rfl | rfl <;> simp

theorem sound_hiLo (op : Word → Word → Word × Word) : Definst.Sound (ω := ω)
    ⟨hiLo op i, F, ![DHI, DLO], ![DGPR i.RT, DGPR i.RS, DNA]⟩ := by
  unfold Definst.Sound hiLo
  refine (footprint_GPR (gpr_inputs 1 rfl)).bind fun x => ?_
  refine (footprint_GPR (gpr_inputs 0 rfl)).bind fun y => ?_
  exact footprint_hiLo

theorem sound_DIV : Definst.Sound (ω := ω)
    ⟨DIV_IMPL i, F, ![DHI, DLO], ![DGPR i.RT, DGPR i.RS, DNA]⟩ := by
  unfold Definst.Sound DIV_IMPL
  refine (footprint_GPR (gpr_inputs 1 rfl)).bind fun x => ?_
  refine (footprint_GPR (gpr_inputs 0 rfl)).bind fun y => ?_
  refine footprint_faultIf fun _ => ?_
  exact Footprint.ite (fun _ => footprint_undefined) fun _ => footprint_loHi

theorem sound_DIVU : Definst.Sound (ω := ω)
    ⟨DIVU_IMPL i, F, ![DHI, DLO], ![DGPR i.RT, DGPR i.RS, DNA]⟩ := by
  unfold Definst.Sound DIVU_IMPL
  refine (footprint_GPR (gpr_inputs 1 rfl)).bind fun x => ?_
  refine (footprint_GPR (gpr_inputs 0 rfl)).bind fun y => ?_
  refine footprint_faultIf fun _ => ?_
  exact footprint_loHi

theorem sound_MFHI : Definst.Sound (ω := ω)
    ⟨MFHI_IMPL i, F, ![DGPR i.RD, DNA], ![DHI, DNA, DNA]⟩ := by
  unfold Definst.Sound MFHI_IMPL
  refine (footprint_HI (.inr ⟨0, rfl⟩)).bind fun hi => ?_
  exact footprint_result

theorem sound_MFLO : Definst.Sound (ω := ω)
    ⟨MFLO_IMPL i, F, ![DGPR i.RD, DNA], ![DLO, DNA, DNA]⟩ := by
  unfold Definst.Sound MFLO_IMPL
  refine (footprint_LO (.inr ⟨0, rfl⟩)).bind fun lo => ?_
  exact footprint_result

theorem outputs_subset_insert {d : Nat} {l : Loc} {A : Set Loc}
    (h : ∀ k : Loc, d = k.number → k = l) : outputs ![some d, DNA] ⊆ insert l A := by
  intro k hk
  rw [mem_outputs_one, Option.some.injEq] at hk
  exact .inl (h k hk)

theorem sound_MTHI : Definst.Sound (ω := ω)
    ⟨MTHI_IMPL i, F, ![DHI, DNA], ![DGPR i.RS, DNA, DNA]⟩ := by
  unfold Definst.Sound MTHI_IMPL
  refine (footprint_GPR (gpr_inputs 0 rfl)).bind fun x => ?_
  exact footprint_SET_HI ⟨0, rfl⟩ (outputs_subset_insert fun k => k.number_hi_iff.mp)

theorem sound_MTLO : Definst.Sound (ω := ω)
    ⟨MTLO_IMPL i, F, ![DLO, DNA], ![DGPR i.RS, DNA, DNA]⟩ := by
  unfold Definst.Sound MTLO_IMPL
  refine (footprint_GPR (gpr_inputs 0 rfl)).bind fun x => ?_
  exact footprint_SET_LO ⟨0, rfl⟩ (outputs_subset_insert fun k => k.number_lo_iff.mp)

/-! Addresses, loads and stores. -/

theorem footprint_disp {A W : Set Loc} (h : ∀ hn, Loc.gpr ⟨i.BS, hn⟩ ∈ A) :
    Footprint view A A W (disp i : Exec ω Word) := by
  unfold disp
  refine (footprint_GPR h).bind fun base => ?_
  exact Footprint.pure _

theorem footprint_rr {A W : Set Loc} (h : ∀ hn, Loc.gpr ⟨i.BS, hn⟩ ∈ A)
    (h' : ∀ hn, Loc.gpr ⟨i.RD, hn⟩ ∈ A) : Footprint view A A W (rr i : Exec ω Word) := by
  unfold rr
  refine (footprint_GPR h).bind fun base => ?_
  refine (footprint_GPR h').bind fun index => ?_
  exact Footprint.pure _

theorem footprint_rr2 {A W : Set Loc} (h : ∀ hn, Loc.gpr ⟨i.BS, hn⟩ ∈ A)
    (h' : ∀ hn, Loc.gpr ⟨i.RD, hn⟩ ∈ A) : Footprint view A A W (rr2 i : Exec ω Word) := by
  unfold rr2
  refine (footprint_rr h h').bind fun addr => ?_
  exact Footprint.pure _

/-- What the loads of one word have in common. -/
theorem sound_load {read : Word → Exec ω Word} {addr : Exec ω Word}
    (hread : ∀ A W a, Footprint view A A W (read a))
    (haddr : ∀ W, Footprint view (inputs ins) (inputs ins) W addr) :
    Definst.Sound ⟨load read addr (SET_GPR i.RT), F, ![DGPR i.RT, DNA], ins⟩ := by
  unfold Definst.Sound load
  refine (haddr _).bind fun a => ?_
  refine (hread _ _ a).bind fun x => ?_
  exact footprint_result

theorem footprint_readSByte (A W : Set Loc) (a : Word) :
    Footprint view A A W (readSByte a : Exec ω Word) := by
  unfold readSByte
  refine footprint_READ_BYTE.bind fun b => ?_
  exact Footprint.pure _

theorem footprint_readByte (A W : Set Loc) (a : Word) :
    Footprint view A A W (readByte a : Exec ω Word) := by
  unfold readByte
  refine footprint_READ_BYTE.bind fun b => ?_
  exact Footprint.pure _

theorem footprint_readSHalf (A W : Set Loc) (a : Word) :
    Footprint view A A W (readSHalf a : Exec ω Word) := by
  unfold readSHalf
  refine footprint_READ_HALF.bind fun h => ?_
  exact Footprint.pure _

theorem footprint_readHalf (A W : Set Loc) (a : Word) :
    Footprint view A A W (readHalf a : Exec ω Word) := by
  unfold readHalf
  refine footprint_READ_HALF.bind fun h => ?_
  exact Footprint.pure _

theorem footprint_readWord (A W : Set Loc) (a : Word) :
    Footprint view A A W (READ_WORD a : Exec ω Word) := footprint_READ_WORD

/-- A load of a whole pair, which starts at an even register. -/
theorem sound_load2 {addr : Exec ω Word}
    (haddr : ∀ W, Footprint view (inputs ins) (inputs ins) W addr) :
    Definst.Sound ⟨load2 addr SET_FPR_L i.FT, F, ![DFPR_D i.FT, DNA], ins⟩ := by
  unfold Definst.Sound load2
  refine footprint_faultIf fun heven => ?_
  refine (haddr _).bind fun a => ?_
  refine footprint_READ_WORD.bind fun hi => ?_
  -- The address is computed again, from the same registers.
  refine (haddr _).bind fun a' => ?_
  refine footprint_READ_WORD.bind fun lo => ?_
  exact footprint_pairResult (by omega)

theorem footprint_store {A W : Set Loc} {write : Word → Word → Exec ω Unit} {src addr : Exec ω Word}
    (hwrite : ∀ A W v a, Footprint view A A W (write v a)) (hsrc : Footprint view A A W src)
    (haddr : Footprint view A A W addr) : Footprint view A A W (store write src addr) := by
  unfold store
  refine hsrc.bind fun v => ?_
  refine haddr.bind fun a => ?_
  exact hwrite _ _ v a

theorem footprint_writeByte (A W : Set Loc) (v a : Word) :
    Footprint view A A W (writeByte v a : Exec ω Unit) := footprint_writeMem

theorem footprint_writeHalf (A W : Set Loc) (v a : Word) :
    Footprint view A A W (writeHalf v a : Exec ω Unit) := footprint_writeMem

theorem footprint_writeWord (A W : Set Loc) (v a : Word) :
    Footprint view A A W (WRITE_WORD v a : Exec ω Unit) := footprint_writeMem

/-- What the stores of one word have in common. -/
theorem sound_store {write : Word → Word → Exec ω Unit} {src addr : Exec ω Word}
    (hwrite : ∀ A W v a, Footprint view A A W (write v a))
    (hsrc : Footprint view (inputs ins) (inputs ins) ∅ src)
    (haddr : Footprint view (inputs ins) (inputs ins) ∅ addr) :
    Definst.Sound ⟨store write src addr, F, ![DNA, DNA], ins⟩ :=
  sound_of_quiet (footprint_store hwrite hsrc haddr)

theorem footprint_store2 {A W : Set Loc} {addr hi lo : Exec ω Word}
    (haddr : Footprint view A A W addr) (hhi : Footprint view A A W hi)
    (hlo : Footprint view A A W lo) : Footprint view A A W (store2 addr hi lo) := by
  -- The second word is stored behind the first one.
  have haddr' : Footprint view A A W (do return (← addr) + 4) :=
    haddr.bind fun _ => Footprint.pure _
  unfold store2
  refine (footprint_store footprint_writeWord hhi haddr).bind fun _ => ?_
  exact footprint_store footprint_writeWord hlo haddr'

theorem sound_DSZ {addr : Exec ω Word}
    (haddr : Footprint view (inputs ins) (inputs ins) ∅ addr) :
    Definst.Sound ⟨store2 addr (GPR 0) (GPR 0), F, ![DNA, DNA], ins⟩ := by
  -- Register zero is declared by no instruction and known to every one.
  have hzero : Footprint view (inputs ins) (inputs ins) ∅ (GPR 0 : Exec ω Word) :=
    footprint_GPR fun _ => zero_inputs
  exact sound_of_quiet (footprint_store2 haddr hzero hzero)

/-- A store of a whole pair. -/
theorem sound_storePair {addr : Exec ω Word} (hins : ins 0 = DFPR_L i.FT)
    (haddr : Footprint view (inputs ins) (inputs ins) ∅ addr) :
    Definst.Sound ⟨storePair addr FPR_L i.FT, F, ![DNA, DNA], ins⟩ := by
  apply sound_of_quiet
  unfold storePair
  -- The number is even, so the next register is the other half of the pair.
  refine footprint_faultIf fun heven => footprint_store2 haddr ?_ ?_
  · exact footprint_FPR_L fun _ => pair_inputs 0 hins _ rfl
  · exact footprint_FPR_L fun _ => pair_inputs 0 hins _ (by omega)

/-- Both stores of a part of a word read their register first. -/
theorem sound_storePart {base : Word → Word} {merge : Word → Word → Word → Word} :
    Definst.Sound (ω := ω)
      ⟨do
        let a ← disp i
        let temp ← READ_WORD (base a)
        WRITE_WORD (merge a (← GPR i.RT) temp) (base a),
      F, ![DNA, DNA], ![DGPR i.RT, DGPR i.BS, DNA]⟩ := by
  apply sound_of_quiet
  refine (footprint_disp (gpr_inputs 1 rfl)).bind fun a => ?_
  refine footprint_READ_WORD.bind fun temp => ?_
  refine (footprint_GPR (gpr_inputs 0 rfl)).bind fun x => ?_
  exact footprint_writeWord _ _ _ _

/-! Shifts. -/

theorem footprint_shifted {A W : Set Loc} {op : Word → Nat → Word} {x : Word} {n : Nat} :
    Footprint view A A W (shifted op x n : Exec ω Word) := by
  unfold shifted
  split
  · exact Footprint.pure _
  · exact footprint_undefined

/-- A shift writes its result and reads no other register. -/
def Shifts (sh : Nat → Word → Nat → Exec ω Unit) : Prop :=
  ∀ (ins : Fin 3 → Option Nat) (rd : Nat) (x : Word) (n : Nat),
    Footprint view (inputs ins) (outputs ![DGPR rd, DNA]) (outputs ![DGPR rd, DNA]) (sh rd x n)

/-- A shift of the machine whose result goes to a register. -/
theorem shifts_shifted (op : Word → Nat → Word) :
    Shifts (ω := ω) fun rd x n => (do SET_GPR rd (← shifted op x n)) := by
  intro ins rd x n
  refine footprint_shifted.bind fun y => ?_
  exact footprint_result

theorem shifts_srl (host : Host ω) : Shifts (srl host) := by
  rw [srl]
  split
  · exact shifts_shifted _
  · intro ins rd x n
    -- The first bit is shifted in by hand, and the others by the machine.
    unfold slowSrl
    split
    · exact shifts_shifted _ ins rd _ _
    · exact footprint_result

/-- The loop reads the register that has just been written. -/
theorem footprint_sraLoop {A W : Set Loc} {rd : Nat} (hn : rd < 32) (hA : Loc.gpr ⟨rd, hn⟩ ∈ A)
    (hW : Loc.gpr ⟨rd, hn⟩ ∈ W) (n : Nat) :
    Footprint view A A W (sraLoop rd n : Exec ω Unit) := by
  induction n with
  | zero => exact Footprint.pure _
  | succ n ih =>
      unfold sraLoop
      refine (footprint_GPR fun _ => hA).bind fun x => ?_
      -- What is written was known before, and is known again.
      refine (footprint_SET_GPR (fun _ => hW) fun _ => Set.subset_insert _ _).bind fun _ => ?_
      exact ih

theorem shifts_sra (host : Host ω) : Shifts (sra host) := by
  rw [sra]
  split
  · exact shifts_shifted _
  · intro ins rd x n
    refine Footprint.ite (fun _ => ?_) fun _ => shifts_shifted _ ins rd x n
    -- The loop may read the register, since it was written before.
    by_cases hn : rd < 32
    · refine (footprint_SET_GPR (B := insert (.gpr ⟨rd, hn⟩) (inputs ins)) (gpr_outputs 0 rfl)
        fun _ => Set.Subset.rfl).bind fun _ => ?_
      exact (footprint_sraLoop hn (Set.mem_insert _ _) (gpr_outputs 0 rfl hn) n).mono
        Set.Subset.rfl (outputs_gpr hn) Set.Subset.rfl
    · rw [SET_GPR, dif_neg hn]
      exact Footprint.throw _

theorem sound_shift {sh : Nat → Word → Nat → Exec ω Unit} (h : Shifts sh) :
    Definst.Sound ⟨shift sh i, F, ![DGPR i.RD, DNA], ![DGPR i.RT, DNA, DNA]⟩ := by
  unfold Definst.Sound shift
  refine (footprint_GPR (gpr_inputs 0 rfl)).bind fun x => ?_
  exact h _ _ _ _

theorem sound_shiftV {sh : Nat → Word → Nat → Exec ω Unit} (h : Shifts sh) :
    Definst.Sound ⟨shiftV sh i, F, ![DGPR i.RD, DNA], ![DGPR i.RT, DGPR i.RS, DNA]⟩ := by
  unfold Definst.Sound shiftV
  refine (footprint_GPR (gpr_inputs 0 rfl)).bind fun y => ?_
  refine (footprint_GPR (gpr_inputs 1 rfl)).bind fun x => ?_
  exact h _ _ _ _

/-! Floating point. -/

/-- A register that is read as a word or as a pair. -/
def ReadsPair {α : Type} (get : Nat → Exec ω α) : Prop :=
  ∀ (ins : Fin 3 → Option Nat) (j : Fin 3) (n : Nat) (W : Set Loc), ins j = DFPR_L n →
    Footprint view (inputs ins) (inputs ins) W (get n)

theorem readsPair_FPR_L : ReadsPair (ω := ω) FPR_L := by
  intro ins j n W h
  exact footprint_FPR_L (fpr_inputs j h)

theorem readsPair_FPR_D : ReadsPair (ω := ω) FPR_D := by
  intro ins j n W h
  exact footprint_FPR_D fun _ hmn hm => pair_inputs j h hm hmn

theorem sound_fp3 (op : BitVec 64 → BitVec 64 → BitVec 64) : Definst.Sound (ω := ω)
    ⟨fp3 FPR_D SET_FPR_D op i, F, ![DFPR_D i.FD, DNA], ![DFPR_D i.FS, DFPR_D i.FT, DNA]⟩ := by
  unfold Definst.Sound fp3
  refine footprint_faultIf fun _ => ?_
  refine (readsPair_FPR_D _ 0 _ _ rfl).bind fun x => ?_
  refine (readsPair_FPR_D _ 1 _ _ rfl).bind fun y => ?_
  exact footprint_pairResult rfl

theorem sound_fp2 {α : Type} {get : Nat → Exec ω α} (hget : ReadsPair get) (op : α → BitVec 64) :
    Definst.Sound
      ⟨fp2 get SET_FPR_D op i, F, ![DFPR_D i.FD, DNA], ![DFPR_D i.FS, DNA, DNA]⟩ := by
  unfold Definst.Sound fp2
  refine footprint_faultIf fun _ => ?_
  refine (hget _ 0 _ _ rfl).bind fun x => ?_
  exact footprint_pairResult rfl

theorem sound_fpCmp {α : Type} {get : Nat → Exec ω α} (hget : ReadsPair get)
    (op : α → α → Bool) :
    Definst.Sound ⟨fpCmp get op i, F, ![DFCC, DNA], ![DFPR_F i.FS, DFPR_F i.FT, DNA]⟩ := by
  unfold Definst.Sound fpCmp
  refine footprint_faultIf fun _ => ?_
  refine (hget _ 0 _ _ rfl).bind fun x => ?_
  refine (hget _ 1 _ _ rfl).bind fun y => ?_
  exact footprint_SET_FCC ⟨0, rfl⟩ (outputs_subset_insert fun k => k.number_fcc_iff.mp)

/-! Jumps and the rest. -/

theorem sound_JAL : Definst.Sound (ω := ω)
    ⟨JAL_IMPL i, F, ![DGPR 31, DNA], ![DNA, DNA, DNA]⟩ := by
  unfold Definst.Sound JAL_IMPL
  refine footprint_jumpTarget.bind fun target => ?_
  refine footprint_SET_NPC.bind fun _ => ?_
  refine footprint_CPC.bind fun pc => ?_
  exact footprint_result

theorem sound_JR : Definst.Sound (ω := ω)
    ⟨JR_IMPL i, F, ![DNA, DNA], ![DGPR i.RS, DNA, DNA]⟩ := by
  apply sound_of_quiet
  unfold JR_IMPL
  refine (footprint_GPR (gpr_inputs 0 rfl)).bind fun target => ?_
  refine footprint_faultIf fun _ => ?_
  -- The register is read twice, for the check and for the jump.
  refine (footprint_GPR (gpr_inputs 0 rfl)).bind fun target => ?_
  exact footprint_SET_NPC

theorem sound_JALR : Definst.Sound (ω := ω)
    ⟨JALR_IMPL i, F, ![DGPR i.RD, DNA], ![DGPR i.RS, DNA, DNA]⟩ := by
  unfold Definst.Sound JALR_IMPL
  refine (footprint_GPR (gpr_inputs 0 rfl)).bind fun target => ?_
  refine footprint_faultIf fun _ => ?_
  refine footprint_CPC.bind fun pc => ?_
  by_cases hn : i.RD < 32
  · -- The link is known when the target is read again, which may be the same register.
    refine (footprint_SET_GPR (B := insert (.gpr ⟨i.RD, hn⟩) (inputs _)) (gpr_outputs 0 rfl)
      fun _ => Set.Subset.rfl).bind fun _ => ?_
    refine (footprint_GPR fun h => .inr (gpr_inputs 0 rfl h)).bind fun target => ?_
    -- The next program counter belongs to the rest, which is not a register.
    exact footprint_SET_NPC.mono Set.Subset.rfl (outputs_gpr hn) Set.Subset.rfl
  · rw [SET_GPR, dif_neg hn]
    exact Footprint.throw _

theorem sound_MFC1 : Definst.Sound (ω := ω)
    ⟨MFC1_IMPL i, F, ![DGPR i.RT, DNA], ![DFPR_L i.FS, DNA, DNA]⟩ := by
  unfold Definst.Sound MFC1_IMPL
  refine (readsPair_FPR_L _ 0 _ _ rfl).bind fun x => ?_
  exact footprint_result

end Families

/-- The opcodes that are not leaky declare what they use. A system call
    declares nothing, and what it does is not known here. -/
theorem sound_of_not_leaky (host : Host ω) (i : Inst) {op : Op} (h : leaky op = false)
    (hs : op ≠ .SYSCALL) : (definst host i op).Sound := by
  have hdisp : ∀ {ins : Fin 3 → Option Nat}, ins 1 = DGPR i.BS →
      ∀ W, Footprint view (inputs ins) (inputs ins) W (disp i : Exec ω Word) :=
    fun hb _ => footprint_disp (gpr_inputs 1 hb)
  have hrr : ∀ {ins : Fin 3 → Option Nat}, ins 1 = DGPR i.BS → ins 2 = DGPR i.RD →
      ∀ W, Footprint view (inputs ins) (inputs ins) W (rr i : Exec ω Word) :=
    fun hb hd _ => footprint_rr (gpr_inputs 1 hb) (gpr_inputs 2 hd)
  have hrr2 : ∀ {ins : Fin 3 → Option Nat}, ins 1 = DGPR i.BS → ins 2 = DGPR i.RD →
      ∀ W, Footprint view (inputs ins) (inputs ins) W (rr2 i : Exec ω Word) :=
    fun hb hd _ => footprint_rr2 (gpr_inputs 1 hb) (gpr_inputs 2 hd)
  -- One case for each family, with the declared numbers read off the table.
  cases op
  case NOP | CFC1 | CTC1 => exact sound_of_quiet (Footprint.pure _)
  case BREAK => exact sound_of_quiet (Footprint.throw _)
  case JUMP =>
      apply sound_of_quiet
      refine footprint_jumpTarget.bind fun target => ?_
      exact footprint_SET_NPC
  case JAL => exact sound_JAL
  case JR => exact sound_JR
  case JALR => exact sound_JALR
  case BEQ | BNE =>
      apply sound_branch
      refine (footprint_GPR (gpr_inputs 0 rfl)).bind fun x => ?_
      refine (footprint_GPR (gpr_inputs 1 rfl)).bind fun y => ?_
      exact Footprint.pure _
  case BLEZ | BGTZ | BLTZ | BGEZ =>
      apply sound_branch
      refine (footprint_GPR (gpr_inputs 0 rfl)).bind fun x => ?_
      exact Footprint.pure _
  case BC1F | BC1T =>
      apply sound_branch
      refine (footprint_FCC (.inr ⟨0, rfl⟩)).bind fun fcc => ?_
      exact Footprint.pure _
  case LB => exact sound_load footprint_readSByte (hdisp rfl)
  case LBU => exact sound_load footprint_readByte (hdisp rfl)
  case LH => exact sound_load footprint_readSHalf (hdisp rfl)
  case LHU => exact sound_load footprint_readHalf (hdisp rfl)
  case LW => exact sound_load footprint_readWord (hdisp rfl)
  case LB_RR => exact sound_load footprint_readSByte (hrr rfl rfl)
  case LBU_RR => exact sound_load footprint_readByte (hrr rfl rfl)
  case LH_RR => exact sound_load footprint_readSHalf (hrr rfl rfl)
  case LHU_RR => exact sound_load footprint_readHalf (hrr rfl rfl)
  case LW_RR => exact sound_load footprint_readWord (hrr rfl rfl)
  case LW_RR_R2 => exact sound_load footprint_readWord (hrr2 rfl rfl)
  case L_D => exact sound_load2 (hdisp rfl)
  case L_D_RR => exact sound_load2 (hrr rfl rfl)
  case SB => exact sound_store footprint_writeByte (footprint_GPR (gpr_inputs 0 rfl)) (hdisp rfl _)
  case SH => exact sound_store footprint_writeHalf (footprint_GPR (gpr_inputs 0 rfl)) (hdisp rfl _)
  case SW => exact sound_store footprint_writeWord (footprint_GPR (gpr_inputs 0 rfl)) (hdisp rfl _)
  case S_S => exact sound_store footprint_writeWord (readsPair_FPR_L _ 0 _ _ rfl) (hdisp rfl _)
  case SB_RR =>
      exact sound_store footprint_writeByte (footprint_GPR (gpr_inputs 0 rfl)) (hrr rfl rfl _)
  case SH_RR =>
      exact sound_store footprint_writeHalf (footprint_GPR (gpr_inputs 0 rfl)) (hrr rfl rfl _)
  case SW_RR =>
      exact sound_store footprint_writeWord (footprint_GPR (gpr_inputs 0 rfl)) (hrr rfl rfl _)
  case SW_RR_R2 =>
      exact sound_store footprint_writeWord (footprint_GPR (gpr_inputs 0 rfl)) (hrr2 rfl rfl _)
  case S_S_RR => exact sound_store footprint_writeWord (readsPair_FPR_L _ 0 _ _ rfl) (hrr rfl rfl _)
  case S_S_RR_R2 =>
      exact sound_store footprint_writeWord (readsPair_FPR_L _ 0 _ _ rfl) (hrr2 rfl rfl _)
  case DSZ => exact sound_DSZ (hdisp rfl _)
  case DSZ_RR => exact sound_DSZ (hrr rfl rfl _)
  case S_D => exact sound_storePair rfl (hdisp rfl _)
  case S_D_RR => exact sound_storePair rfl (hrr rfl rfl _)
  case SWL | SWR => exact sound_storePart
  case ADD | SUB => exact sound_trapping _ _
  case ADDI => exact sound_ADDI
  case ADDU | SUBU | AND_ | OR | XOR | NOR | SLT | SLTU => exact sound_alu _
  case ADDIU | ANDI | ORI | XORI | SLTI | SLTIU => exact sound_aluImm _ _
  case MULT | MULTU => exact sound_hiLo _
  case DIV => exact sound_DIV
  case DIVU => exact sound_DIVU
  case MFHI => exact sound_MFHI
  case MFLO => exact sound_MFLO
  case MTHI => exact sound_MTHI
  case MTLO => exact sound_MTLO
  case SLL => exact sound_shift (shifts_shifted _)
  case SRL => exact sound_shift (shifts_srl host)
  case SRA => exact sound_shift (shifts_sra host)
  case SLLV => exact sound_shiftV (shifts_shifted _)
  case SRLV => exact sound_shiftV (shifts_srl host)
  case SRAV => exact sound_shiftV (shifts_sra host)
  case FADD_D | FSUB_D | FMUL_D | FDIV_D => exact sound_fp3 _
  case FABS_D | FMOV_D | FNEG_D | FSQRT_D => exact sound_fp2 readsPair_FPR_D _
  case CVT_D_S | CVT_D_W => exact sound_fp2 readsPair_FPR_L _
  case C_EQ_S | C_LT_S | C_LE_S => exact sound_fpCmp readsPair_FPR_L _
  case C_EQ_D | C_LT_D | C_LE_D => exact sound_fpCmp readsPair_FPR_D _
  case LUI => exact footprint_result
  case MFC1 => exact sound_MFC1
  case SYSCALL => exact absurd rfl hs
  all_goals exact absurd h (by decide)

end Pisa

end MicroArch
