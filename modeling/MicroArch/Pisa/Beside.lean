import MicroArch.Library.Related
import MicroArch.Pisa.Simulator

/-!
# Machines with Different Memories

Which instructions cannot tell two memories apart.

Two machines stand beside each other when they have the same registers and
their memories are related, in whatever way. An instruction is blind when it
does the same to both and leaves their memories related. The accessors of the
registers are, since they do not touch the memory, and so is every instruction
that is written with these alone. That leaves the loads, the stores and the
system call.

The lemmas follow the text of the definitions, one accessor after the other,
and the values that the accessors read are introduced on the way: since they are
equal in the two machines, one name stands for both. What the relation of the
memories is does not matter until an instruction refers to the memory, so it is
a parameter of everything here. The instructions that do are compared in
`SimCache.Local`, where the memories agree in some bytes.

## Main definitions

* `Beside`: Two machines that differ in their memories.
* `Blind`: A part of an instruction that cannot tell them apart.
* `accesses`: The opcodes that access memory.

## Theorems

* `blind_regs`: The accessors of the registers.
* `blind_of_not_accesses`: The other instructions.
-/

namespace MicroArch

namespace Pisa

open Memory (Mem)

variable {ω α β : Type}

/-- Two machines that differ in their memories. -/
structure Beside (M : Mem → Mem → Prop) (s t : State ω) : Prop where
  regs : s.regs = t.regs
  world : s.world = t.world
  mem : M s.mem t.mem

/-- A part of an instruction that cannot tell such machines apart. -/
abbrev Blind (M : Mem → Mem → Prop) (x : Exec ω α) : Prop := Related (Beside M) Eq x x

/-- The opcodes that access memory, or may. -/
def accesses : Op → Bool
  | .LB | .LBU | .LH | .LHU | .LW | .DLW | .L_S | .L_D | .LWL | .LWR | .SB | .SH | .SW | .DSW
  | .DSZ | .S_S | .S_D | .SWL | .SWR | .LB_RR | .LBU_RR | .LH_RR | .LHU_RR | .LW_RR | .DLW_RR
  | .L_S_RR | .L_D_RR | .SB_RR | .SH_RR | .SW_RR | .DSW_RR | .DSZ_RR | .S_S_RR | .S_D_RR
  | .L_S_RR_R2 | .S_S_RR_R2 | .LW_RR_R2 | .SW_RR_R2 | .SYSCALL => true
  | _ => false

variable {M : Mem → Mem → Prop}

/-! ### Accessors -/

section Accessors

/-- An accessor of the registers. -/
theorem blind_regs (f : Regs → α) (g : Regs → Regs) :
    Blind (ω := ω) M fun s => .ok (f s.regs, s.setRegs (g s.regs)) := fun _ _ h =>
  ⟨congrArg f h.regs, ⟨congrArg g h.regs, h.world, h.mem⟩⟩

theorem blind_pure (a : α) : Blind (ω := ω) M (pure a) := Related.pure rfl

theorem blind_throw (e : Stop) : Blind (ω := ω) (α := α) M fun _ => .error e := Related.throw e

theorem blind_faultIf (c : Prop) [Decidable c] (f : Memory.MdFault) :
    Blind (ω := ω) M (faultIf c f) := Related.ite (fun _ => blind_throw _) fun _ => blind_pure _

variable (n : Nat) (e : Word)

theorem blind_GPR : Blind (ω := ω) M (GPR n) := by
  rw [GPR]
  split
  · -- Both machines have the register, or neither does.
    exact blind_regs (fun r => r.R _) id
  · exact blind_throw _

theorem blind_SET_GPR : Blind (ω := ω) M (SET_GPR n e) := by
  rw [SET_GPR]
  split
  · exact blind_regs (fun _ => ()) fun r => r.setR _ e
  · exact blind_throw _

theorem blind_FPR_L : Blind (ω := ω) M (FPR_L n) := by
  rw [FPR_L]
  split
  · exact blind_regs (fun r => r.F _) id
  · exact blind_throw _

theorem blind_SET_FPR_L : Blind (ω := ω) M (SET_FPR_L n e) := by
  rw [SET_FPR_L]
  split
  · exact blind_regs (fun _ => ()) fun r => r.setF _ e
  · exact blind_throw _

theorem blind_FPR_D : Blind (ω := ω) M (FPR_D n) := by
  rw [FPR_D]
  apply (blind_FPR_L _).bind_eq
  intro lo
  apply (blind_FPR_L _).bind_eq
  intro hi
  exact blind_pure _

theorem blind_SET_FPR_D (e : BitVec 64) : Blind (ω := ω) M (SET_FPR_D n e) := by
  rw [SET_FPR_D]
  apply (blind_SET_FPR_L _ _).bind_eq
  intro
  exact blind_SET_FPR_L _ _

theorem blind_HI : Blind (ω := ω) M HI := blind_regs Regs.hi id

theorem blind_LO : Blind (ω := ω) M LO := blind_regs Regs.lo id

theorem blind_FCC : Blind (ω := ω) M FCC := blind_regs Regs.fcc id

theorem blind_CPC : Blind (ω := ω) M CPC := blind_regs Regs.PC id

theorem blind_SET_HI : Blind (ω := ω) M (SET_HI e) :=
  blind_regs (fun _ => ()) fun r => { r with hi := e }

theorem blind_SET_LO : Blind (ω := ω) M (SET_LO e) :=
  blind_regs (fun _ => ()) fun r => { r with lo := e }

theorem blind_SET_FCC (b : Bool) : Blind (ω := ω) M (SET_FCC b) :=
  blind_regs (fun _ => ()) fun r => { r with fcc := if b then 1 else 0 }

theorem blind_SET_NPC : Blind (ω := ω) M (SET_NPC e) :=
  blind_regs (fun _ => ()) fun r => { r with NPC := e }

theorem blind_advance : Blind (ω := ω) M advance :=
  blind_regs (fun _ => ()) fun r => { r with PC := r.NPC, NPC := r.NPC + 8 }

theorem blind_MD_SET_OPCODE (i : Inst) : Blind (ω := ω) M (MD_SET_OPCODE i) := by
  rw [MD_SET_OPCODE]
  split
  · exact blind_pure _
  · exact blind_throw _

end Accessors

/-! ### Families -/

section Families

variable {i : Inst}

theorem blind_disp : Blind (ω := ω) M (disp i) := by
  rw [disp]
  apply (blind_GPR _).bind_eq
  intro base
  exact blind_pure _

theorem blind_rr : Blind (ω := ω) M (rr i) := by
  rw [rr]
  apply (blind_GPR _).bind_eq
  intro base
  apply (blind_GPR _).bind_eq
  intro index
  exact blind_pure _

theorem blind_rr2 : Blind (ω := ω) M (rr2 i) := by
  rw [rr2]
  apply blind_rr.bind_eq
  intro addr
  exact blind_pure _

theorem blind_jumpTarget : Blind (ω := ω) M (jumpTarget i) := by
  rw [jumpTarget]
  apply blind_CPC.bind_eq
  intro pc
  exact blind_pure _

/-- A branch sees no more than its test. -/
theorem blind_branch {taken : Exec ω Bool} (h : Blind M taken) : Blind M (branch i taken) := by
  rw [branch]
  apply h.bind_eq
  intro t
  apply blind_CPC.bind_eq
  intro pc
  exact Related.ite (fun _ => blind_SET_NPC _) fun _ => blind_pure _

theorem blind_test1 (test : Word → Bool) : Blind (ω := ω) M (do return test (← GPR i.RS)) := by
  apply (blind_GPR _).bind_eq
  intro x
  exact blind_pure _

theorem blind_test2 (test : Word → Word → Bool) :
    Blind (ω := ω) M (do return test (← GPR i.RS) (← GPR i.RT)) := by
  apply (blind_GPR _).bind_eq
  intro x
  apply (blind_GPR _).bind_eq
  intro y
  exact blind_pure _

theorem blind_testFCC (test : Word → Bool) : Blind (ω := ω) M (do return test (← FCC)) := by
  apply blind_FCC.bind_eq
  intro fcc
  exact blind_pure _

theorem blind_alu (op : Word → Word → Word) : Blind (ω := ω) M (alu op i) := by
  rw [alu]
  apply (blind_GPR _).bind_eq
  intro x
  apply (blind_GPR _).bind_eq
  intro y
  exact blind_SET_GPR _ _

theorem blind_aluImm (op : Word → Word → Word) (imm : Word) :
    Blind (ω := ω) M (aluImm op imm i) := by
  rw [aluImm]
  apply (blind_GPR _).bind_eq
  intro x
  exact blind_SET_GPR _ _

theorem blind_trapping (test : Word → Word → Bool) (op : Word → Word → Word) :
    Blind (ω := ω) M (trapping test op i) := by
  rw [trapping]
  apply (blind_GPR _).bind_eq
  intro x
  apply (blind_GPR _).bind_eq
  intro y
  -- Both machines fault, or neither does.
  apply (blind_faultIf _ _).bind_eq
  intro
  exact blind_SET_GPR _ _

theorem blind_ADDI : Blind (ω := ω) M (ADDI_IMPL i) := by
  rw [ADDI_IMPL]
  apply (blind_GPR _).bind_eq
  intro x
  apply (blind_faultIf _ _).bind_eq
  intro
  exact blind_SET_GPR _ _

theorem blind_hiLo (op : Word → Word → Word × Word) : Blind (ω := ω) M (hiLo op i) := by
  rw [hiLo]
  apply (blind_GPR _).bind_eq
  intro x
  apply (blind_GPR _).bind_eq
  intro y
  apply (blind_SET_HI _).bind_eq
  intro
  exact blind_SET_LO _

theorem blind_DIV : Blind (ω := ω) M (DIV_IMPL i) := by
  rw [DIV_IMPL]
  apply (blind_GPR _).bind_eq
  intro x
  apply (blind_GPR _).bind_eq
  intro y
  apply (blind_faultIf _ _).bind_eq
  intro
  apply Related.ite
  · -- the quotient that has no value
    intro
    exact blind_throw _
  · intro
    apply (blind_SET_LO _).bind_eq
    intro
    exact blind_SET_HI _

theorem blind_DIVU : Blind (ω := ω) M (DIVU_IMPL i) := by
  rw [DIVU_IMPL]
  apply (blind_GPR _).bind_eq
  intro x
  apply (blind_GPR _).bind_eq
  intro y
  apply (blind_faultIf _ _).bind_eq
  intro
  apply (blind_SET_LO _).bind_eq
  intro
  exact blind_SET_HI _

/-! Shifts. -/

theorem blind_shifted (op : Word → Nat → Word) (x : Word) (n : Nat) :
    Blind (ω := ω) M (shifted op x n) := by
  rw [shifted]
  split
  · exact blind_pure _
  · exact blind_throw _

/-- A shift whose result goes to a register. -/
theorem blind_shiftTo (rd : Nat) (op : Word → Nat → Word) (x : Word) (n : Nat) :
    Blind (ω := ω) M (do SET_GPR rd (← shifted op x n)) := by
  apply (blind_shifted op x n).bind_eq
  intro y
  exact blind_SET_GPR _ _

theorem blind_srl (host : Host ω) (rd : Nat) (x : Word) (n : Nat) :
    Blind M (srl host rd x n) := by
  rw [srl]
  split
  · exact blind_shiftTo _ _ _ _
  · exact Related.ite (fun _ => blind_shiftTo _ _ _ _) fun _ => blind_SET_GPR _ _

theorem blind_sraLoop (rd n : Nat) : Blind (ω := ω) M (sraLoop rd n) := by
  induction n with
  | zero => exact blind_pure _
  | succ n ih =>
      -- Induction on the rounds: each one shifts the register as it now is.
      rw [sraLoop]
      apply (blind_GPR _).bind_eq
      intro x
      apply (blind_SET_GPR _ _).bind_eq
      intro
      exact ih

theorem blind_sra (host : Host ω) (rd : Nat) (x : Word) (n : Nat) :
    Blind M (sra host rd x n) := by
  rw [sra]
  split
  · exact blind_shiftTo _ _ _ _
  · apply Related.ite
    · -- a negative word goes through the loop
      intro
      apply (blind_SET_GPR _ _).bind_eq
      intro
      exact blind_sraLoop _ _
    · intro
      exact blind_shiftTo _ _ _ _

theorem blind_shift {sh : Nat → Word → Nat → Exec ω Unit} (h : ∀ rd x n, Blind M (sh rd x n)) :
    Blind M (shift sh i) := by
  rw [shift]
  apply (blind_GPR _).bind_eq
  intro x
  exact h _ _ _

theorem blind_shiftV {sh : Nat → Word → Nat → Exec ω Unit} (h : ∀ rd x n, Blind M (sh rd x n)) :
    Blind M (shiftV sh i) := by
  rw [shiftV]
  apply (blind_GPR _).bind_eq
  intro y
  apply (blind_GPR _).bind_eq
  intro x
  exact h _ _ _

/-! Floating point. -/

theorem blind_fp3 {get : Nat → Exec ω α} {set : Nat → α → Exec ω Unit}
    (hget : ∀ n, Blind M (get n)) (hset : ∀ n v, Blind M (set n v)) (op : α → α → α) :
    Blind M (fp3 get set op i) := by
  rw [fp3]
  apply (blind_faultIf _ _).bind_eq
  intro
  apply (hget _).bind_eq
  intro x
  apply (hget _).bind_eq
  intro y
  exact hset _ _

theorem blind_fp2 {get : Nat → Exec ω α} {set : Nat → β → Exec ω Unit}
    (hget : ∀ n, Blind M (get n)) (hset : ∀ n v, Blind M (set n v)) (op : α → β) :
    Blind M (fp2 get set op i) := by
  rw [fp2]
  apply (blind_faultIf _ _).bind_eq
  intro
  apply (hget _).bind_eq
  intro x
  exact hset _ _

theorem blind_fpCmp {get : Nat → Exec ω α} (hget : ∀ n, Blind M (get n)) (op : α → α → Bool) :
    Blind M (fpCmp get op i) := by
  rw [fpCmp]
  apply (blind_faultIf _ _).bind_eq
  intro
  apply (hget _).bind_eq
  intro x
  apply (hget _).bind_eq
  intro y
  exact blind_SET_FCC _

/-! Jumps and the rest. -/

theorem blind_JAL : Blind (ω := ω) M (JAL_IMPL i) := by
  rw [JAL_IMPL]
  apply blind_jumpTarget.bind_eq
  intro target
  -- The target is taken from the program counter before the link is set.
  apply (blind_SET_NPC _).bind_eq
  intro
  apply blind_CPC.bind_eq
  intro pc
  exact blind_SET_GPR _ _

theorem blind_JR : Blind (ω := ω) M (JR_IMPL i) := by
  rw [JR_IMPL]
  apply (blind_GPR _).bind_eq
  intro target
  apply (blind_faultIf _ _).bind_eq
  intro
  apply (blind_GPR _).bind_eq
  intro target
  exact blind_SET_NPC _

theorem blind_JALR : Blind (ω := ω) M (JALR_IMPL i) := by
  rw [JALR_IMPL]
  apply (blind_GPR _).bind_eq
  intro target
  apply (blind_faultIf _ _).bind_eq
  intro
  apply blind_CPC.bind_eq
  intro pc
  apply (blind_SET_GPR _ _).bind_eq
  intro
  -- The target is read again after the link was set.
  apply (blind_GPR _).bind_eq
  intro target
  exact blind_SET_NPC _

theorem blind_DMFC1 : Blind (ω := ω) M (DMFC1_IMPL i) := by
  rw [DMFC1_IMPL]
  apply (blind_faultIf _ _).bind_eq
  intro
  apply (blind_FPR_L _).bind_eq
  intro x
  apply (blind_SET_GPR _ _).bind_eq
  intro
  apply (blind_FPR_L _).bind_eq
  intro y
  exact blind_SET_GPR _ _

theorem blind_DMTC1 : Blind (ω := ω) M (DMTC1_IMPL i) := by
  rw [DMTC1_IMPL]
  apply (blind_faultIf _ _).bind_eq
  intro
  apply (blind_GPR _).bind_eq
  intro x
  apply (blind_SET_FPR_L _ _).bind_eq
  intro
  apply (blind_GPR _).bind_eq
  intro y
  exact blind_SET_FPR_L _ _

end Families

/-- An instruction that does not access memory does the same whatever is in
    it. -/
theorem blind_of_not_accesses (host : Host ω) (i : Inst) {op : Op} (h : accesses op = false) :
    Blind M (definst host i op).impl := by
  cases op
  case NOP | CFC1 | CTC1 => exact blind_pure _
  case BREAK => exact blind_throw _
  case JUMP => exact blind_jumpTarget.bind_eq fun _ => blind_SET_NPC _
  case JAL => exact blind_JAL
  case JR => exact blind_JR
  case JALR => exact blind_JALR
  case BEQ | BNE => exact blind_branch (blind_test2 _)
  case BLEZ => exact blind_branch (blind_test1 (·.sle 0))
  case BGTZ => exact blind_branch (blind_test1 (BitVec.slt 0))
  case BLTZ => exact blind_branch (blind_test1 (·.slt 0))
  case BGEZ => exact blind_branch (blind_test1 (BitVec.sle 0))
  case BC1F => exact blind_branch (blind_testFCC (· == 0))
  case BC1T => exact blind_branch (blind_testFCC (· != 0))
  case ADD | SUB => exact blind_trapping _ _
  case ADDI => exact blind_ADDI
  case ADDU | SUBU | AND_ | OR | XOR | NOR | SLT | SLTU => exact blind_alu _
  case ADDIU | ANDI | ORI | XORI | SLTI | SLTIU => exact blind_aluImm _ _
  case MULT | MULTU => exact blind_hiLo _
  case DIV => exact blind_DIV
  case DIVU => exact blind_DIVU
  case MFHI => exact blind_HI.bind_eq fun _ => blind_SET_GPR _ _
  case MFLO => exact blind_LO.bind_eq fun _ => blind_SET_GPR _ _
  case MTHI => exact (blind_GPR _).bind_eq fun _ => blind_SET_HI _
  case MTLO => exact (blind_GPR _).bind_eq fun _ => blind_SET_LO _
  case SLL => exact blind_shift fun _ _ _ => blind_shiftTo _ _ _ _
  case SRL => exact blind_shift (blind_srl host)
  case SRA => exact blind_shift (blind_sra host)
  case SLLV => exact blind_shiftV fun _ _ _ => blind_shiftTo _ _ _ _
  case SRLV => exact blind_shiftV (blind_srl host)
  case SRAV => exact blind_shiftV (blind_sra host)
  case FADD_S | FSUB_S | FMUL_S | FDIV_S => exact blind_fp3 blind_FPR_L blind_SET_FPR_L _
  case FADD_D | FSUB_D | FMUL_D | FDIV_D => exact blind_fp3 blind_FPR_D blind_SET_FPR_D _
  case FABS_S | FMOV_S | FNEG_S | FSQRT_S | CVT_S_W | CVT_W_S =>
      exact blind_fp2 blind_FPR_L blind_SET_FPR_L _
  case FABS_D | FMOV_D | FNEG_D | FSQRT_D => exact blind_fp2 blind_FPR_D blind_SET_FPR_D _
  case CVT_S_D | CVT_W_D => exact blind_fp2 blind_FPR_D blind_SET_FPR_L _
  case CVT_D_S | CVT_D_W => exact blind_fp2 blind_FPR_L blind_SET_FPR_D _
  case C_EQ_S | C_LT_S | C_LE_S => exact blind_fpCmp blind_FPR_L _
  case C_EQ_D | C_LT_D | C_LE_D => exact blind_fpCmp blind_FPR_D _
  case LUI => exact blind_SET_GPR _ _
  case MFC1 => exact (blind_FPR_L _).bind_eq fun _ => blind_SET_GPR _ _
  case MTC1 => exact (blind_GPR _).bind_eq fun _ => blind_SET_FPR_L _ _
  case DMFC1 => exact blind_DMFC1
  case DMTC1 => exact blind_DMTC1
  -- The others access memory.
  all_goals exact absurd h (by decide)

end Pisa

end MicroArch
