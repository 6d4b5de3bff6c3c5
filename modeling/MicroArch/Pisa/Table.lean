import Mathlib.Data.Fin.VecNotation
import MicroArch.Pisa.Execute
import MicroArch.Tomasulo.Instr

/-!
# The Instruction Table

The opcodes of the target, in the order of their definitions (`pisa.def`,
`decode.def`).

An entry tells what an instruction does, its flags, and the registers it
declares as its outputs and its inputs. The dependence decoders give these
registers numbers of one space, in which a floating point register stands for
the pair it belongs to, however it is used. A number is all the simulator
records of a dependence.

The loader puts the number of the opcode into the low byte of an instruction,
so decoding takes it from there. Number zero is no opcode.

## Main definitions

* `Op`: The opcodes.
* `definst`: The entry of an opcode.
* `decode`: The opcode of an instruction.
* `Loc`: The words of the registers, each of which has a number.

## Theorems

* `decode_encode`: Every opcode can be decoded.
-/

namespace MicroArch

namespace Pisa

open Tomasulo (OpFlags F_ICOMP F_FCOMP F_CTRL F_UNCOND F_MEM F_LOAD F_STORE F_DISP F_TRAP F_DIRJMP
  F_CALL)

def F_COND : OpFlags := 0x00000010
def F_RR : OpFlags := 0x00000200
def F_LONGLAT : OpFlags := 0x00001000
def F_INDIRJMP : OpFlags := 0x00004000
def F_FPCOND : OpFlags := 0x00010000
def F_IMM : OpFlags := 0x00020000

/-- `md_opcode`, without `OP_NA`. -/
inductive Op where
  | NOP | JUMP | JAL | JR | JALR | BEQ | BNE | BLEZ | BGTZ | BLTZ | BGEZ | BC1F | BC1T | LB | LBU
  | LH | LHU | LW | DLW | L_S | L_D | LWL | LWR | SB | SH | SW | DSW | DSZ | S_S | S_D | SWL
  | SWR | LB_RR | LBU_RR | LH_RR | LHU_RR | LW_RR | DLW_RR | L_S_RR | L_D_RR | SB_RR | SH_RR
  | SW_RR | DSW_RR | DSZ_RR | S_S_RR | S_D_RR | L_S_RR_R2 | S_S_RR_R2 | LW_RR_R2 | SW_RR_R2 | ADD
  | ADDI | ADDU | ADDIU | SUB | SUBU | MULT | MULTU | DIV | DIVU | MFHI | MTHI | MFLO | MTLO
  | AND_ | ANDI | OR | ORI | XOR | XORI | NOR | SLL | SLLV | SRL | SRLV | SRA | SRAV | SLT | SLTI
  | SLTU | SLTIU | FADD_S | FADD_D | FSUB_S | FSUB_D | FMUL_S | FMUL_D | FDIV_S | FDIV_D | FABS_S
  | FABS_D | FMOV_S | FMOV_D | FNEG_S | FNEG_D | CVT_S_D | CVT_S_W | CVT_D_S | CVT_D_W | CVT_W_S
  | CVT_W_D | C_EQ_S | C_EQ_D | C_LT_S | C_LT_D | C_LE_S | C_LE_D | FSQRT_S | FSQRT_D | SYSCALL
  | BREAK | LUI | MFC1 | DMFC1 | CFC1 | MTC1 | DMTC1 | CTC1
  deriving DecidableEq

/-! ### Dependence decoders -/

def DNA : Option Nat := none
def DGPR (n : Nat) : Option Nat := some n
def DGPR_D (n : Nat) : Option Nat := some (2 * (n / 2))
def DFPR_L (n : Nat) : Option Nat := some (2 * ((n + 32) / 2))
def DFPR_F (n : Nat) : Option Nat := some (2 * ((n + 32) / 2))
def DFPR_D (n : Nat) : Option Nat := some (2 * ((n + 32) / 2))
def DHI : Option Nat := some 64
def DLO : Option Nat := some 65
def DFCC : Option Nat := some 66

/-- An entry of the table. -/
structure Definst (ω : Type) where
  impl : Exec ω Unit
  flags : OpFlags
  outs : Fin 2 → Option Nat
  ins : Fin 3 → Option Nat

/-- The table. -/
def definst {ω : Type} (host : Host ω) (i : Inst) : Op → Definst ω
  | .NOP => ⟨NOP_IMPL i, F_ICOMP, ![DNA, DNA], ![DNA, DNA, DNA]⟩
  | .JUMP => ⟨JUMP_IMPL i, F_CTRL ||| F_UNCOND ||| F_DIRJMP, ![DNA, DNA], ![DNA, DNA, DNA]⟩
  | .JAL =>
      ⟨JAL_IMPL i, F_CTRL ||| F_UNCOND ||| F_DIRJMP ||| F_CALL,
        ![DGPR 31, DNA], ![DNA, DNA, DNA]⟩
  | .JR => ⟨JR_IMPL i, F_CTRL ||| F_UNCOND ||| F_INDIRJMP, ![DNA, DNA], ![DGPR i.RS, DNA, DNA]⟩
  | .JALR =>
      ⟨JALR_IMPL i, F_CTRL ||| F_UNCOND ||| F_INDIRJMP ||| F_CALL,
        ![DGPR i.RD, DNA], ![DGPR i.RS, DNA, DNA]⟩
  | .BEQ => ⟨BEQ_IMPL i, F_CTRL ||| F_COND ||| F_DIRJMP, ![DNA, DNA], ![DGPR i.RS, DGPR i.RT, DNA]⟩
  | .BNE => ⟨BNE_IMPL i, F_CTRL ||| F_COND ||| F_DIRJMP, ![DNA, DNA], ![DGPR i.RS, DGPR i.RT, DNA]⟩
  | .BLEZ => ⟨BLEZ_IMPL i, F_CTRL ||| F_COND ||| F_DIRJMP, ![DNA, DNA], ![DGPR i.RS, DNA, DNA]⟩
  | .BGTZ => ⟨BGTZ_IMPL i, F_CTRL ||| F_COND ||| F_DIRJMP, ![DNA, DNA], ![DGPR i.RS, DNA, DNA]⟩
  | .BLTZ => ⟨BLTZ_IMPL i, F_CTRL ||| F_COND ||| F_DIRJMP, ![DNA, DNA], ![DGPR i.RS, DNA, DNA]⟩
  | .BGEZ => ⟨BGEZ_IMPL i, F_CTRL ||| F_COND ||| F_DIRJMP, ![DNA, DNA], ![DGPR i.RS, DNA, DNA]⟩
  | .BC1F =>
      ⟨BC1F_IMPL i, F_CTRL ||| F_COND ||| F_DIRJMP ||| F_FPCOND,
        ![DNA, DNA], ![DFCC, DNA, DNA]⟩
  | .BC1T =>
      ⟨BC1T_IMPL i, F_CTRL ||| F_COND ||| F_DIRJMP ||| F_FPCOND,
        ![DNA, DNA], ![DFCC, DNA, DNA]⟩
  | .LB => ⟨LB_IMPL i, F_MEM ||| F_LOAD ||| F_DISP, ![DGPR i.RT, DNA], ![DNA, DGPR i.BS, DNA]⟩
  | .LBU => ⟨LBU_IMPL i, F_MEM ||| F_LOAD ||| F_DISP, ![DGPR i.RT, DNA], ![DNA, DGPR i.BS, DNA]⟩
  | .LH => ⟨LH_IMPL i, F_MEM ||| F_LOAD ||| F_DISP, ![DGPR i.RT, DNA], ![DNA, DGPR i.BS, DNA]⟩
  | .LHU => ⟨LHU_IMPL i, F_MEM ||| F_LOAD ||| F_DISP, ![DGPR i.RT, DNA], ![DNA, DGPR i.BS, DNA]⟩
  | .LW => ⟨LW_IMPL i, F_MEM ||| F_LOAD ||| F_DISP, ![DGPR i.RT, DNA], ![DNA, DGPR i.BS, DNA]⟩
  | .DLW => ⟨DLW_IMPL i, F_MEM ||| F_LOAD ||| F_DISP, ![DGPR_D i.RT, DNA], ![DNA, DGPR i.BS, DNA]⟩
  | .L_S => ⟨L_S_IMPL i, F_MEM ||| F_LOAD ||| F_DISP, ![DFPR_L i.FT, DNA], ![DNA, DGPR i.BS, DNA]⟩
  | .L_D => ⟨L_D_IMPL i, F_MEM ||| F_LOAD ||| F_DISP, ![DFPR_D i.FT, DNA], ![DNA, DGPR i.BS, DNA]⟩
  | .LWL => ⟨LWL_IMPL i, F_MEM ||| F_LOAD ||| F_DISP, ![DGPR i.RT, DNA], ![DNA, DGPR i.BS, DNA]⟩
  | .LWR => ⟨LWR_IMPL i, F_MEM ||| F_LOAD ||| F_DISP, ![DGPR i.RT, DNA], ![DNA, DGPR i.BS, DNA]⟩
  | .SB => ⟨SB_IMPL i, F_MEM ||| F_STORE ||| F_DISP, ![DNA, DNA], ![DGPR i.RT, DGPR i.BS, DNA]⟩
  | .SH => ⟨SH_IMPL i, F_MEM ||| F_STORE ||| F_DISP, ![DNA, DNA], ![DGPR i.RT, DGPR i.BS, DNA]⟩
  | .SW => ⟨SW_IMPL i, F_MEM ||| F_STORE ||| F_DISP, ![DNA, DNA], ![DGPR i.RT, DGPR i.BS, DNA]⟩
  | .DSW => ⟨DSW_IMPL i, F_MEM ||| F_STORE ||| F_DISP, ![DNA, DNA], ![DGPR_D i.RT, DGPR i.BS, DNA]⟩
  | .DSZ => ⟨DSZ_IMPL i, F_MEM ||| F_STORE ||| F_DISP, ![DNA, DNA], ![DNA, DGPR i.BS, DNA]⟩
  | .S_S => ⟨S_S_IMPL i, F_MEM ||| F_STORE ||| F_DISP, ![DNA, DNA], ![DFPR_L i.FT, DGPR i.BS, DNA]⟩
  | .S_D => ⟨S_D_IMPL i, F_MEM ||| F_STORE ||| F_DISP, ![DNA, DNA], ![DFPR_D i.FT, DGPR i.BS, DNA]⟩
  | .SWL => ⟨SWL_IMPL i, F_MEM ||| F_STORE ||| F_DISP, ![DNA, DNA], ![DGPR i.RT, DGPR i.BS, DNA]⟩
  | .SWR => ⟨SWR_IMPL i, F_MEM ||| F_STORE ||| F_DISP, ![DNA, DNA], ![DGPR i.RT, DGPR i.BS, DNA]⟩
  | .LB_RR =>
      ⟨LB_RR_IMPL i, F_MEM ||| F_LOAD ||| F_RR,
        ![DGPR i.RT, DNA], ![DNA, DGPR i.BS, DGPR i.RD]⟩
  | .LBU_RR =>
      ⟨LBU_RR_IMPL i, F_MEM ||| F_LOAD ||| F_RR,
        ![DGPR i.RT, DNA], ![DNA, DGPR i.BS, DGPR i.RD]⟩
  | .LH_RR =>
      ⟨LH_RR_IMPL i, F_MEM ||| F_LOAD ||| F_RR,
        ![DGPR i.RT, DNA], ![DNA, DGPR i.BS, DGPR i.RD]⟩
  | .LHU_RR =>
      ⟨LHU_RR_IMPL i, F_MEM ||| F_LOAD ||| F_RR,
        ![DGPR i.RT, DNA], ![DNA, DGPR i.BS, DGPR i.RD]⟩
  | .LW_RR =>
      ⟨LW_RR_IMPL i, F_MEM ||| F_LOAD ||| F_RR,
        ![DGPR i.RT, DNA], ![DNA, DGPR i.BS, DGPR i.RD]⟩
  | .DLW_RR =>
      ⟨DLW_RR_IMPL i, F_MEM ||| F_LOAD ||| F_RR,
        ![DGPR_D i.RT, DNA], ![DNA, DGPR i.BS, DGPR i.RD]⟩
  | .L_S_RR =>
      ⟨L_S_RR_IMPL i, F_MEM ||| F_LOAD ||| F_RR,
        ![DFPR_L i.FT, DNA], ![DNA, DGPR i.BS, DGPR i.RD]⟩
  | .L_D_RR =>
      ⟨L_D_RR_IMPL i, F_MEM ||| F_LOAD ||| F_RR,
        ![DFPR_D i.FT, DNA], ![DNA, DGPR i.BS, DGPR i.RD]⟩
  | .SB_RR =>
      ⟨SB_RR_IMPL i, F_MEM ||| F_STORE ||| F_RR,
        ![DNA, DNA], ![DGPR i.RT, DGPR i.BS, DGPR i.RD]⟩
  | .SH_RR =>
      ⟨SH_RR_IMPL i, F_MEM ||| F_STORE ||| F_RR,
        ![DNA, DNA], ![DGPR i.RT, DGPR i.BS, DGPR i.RD]⟩
  | .SW_RR =>
      ⟨SW_RR_IMPL i, F_MEM ||| F_STORE ||| F_RR,
        ![DNA, DNA], ![DGPR i.RT, DGPR i.BS, DGPR i.RD]⟩
  | .DSW_RR =>
      ⟨DSW_RR_IMPL i, F_MEM ||| F_STORE ||| F_RR,
        ![DNA, DNA], ![DGPR_D i.RT, DGPR i.BS, DGPR i.RD]⟩
  | .DSZ_RR =>
      ⟨DSZ_RR_IMPL i, F_MEM ||| F_STORE ||| F_RR,
        ![DNA, DNA], ![DNA, DGPR i.BS, DGPR i.RD]⟩
  | .S_S_RR =>
      ⟨S_S_RR_IMPL i, F_MEM ||| F_STORE ||| F_RR,
        ![DNA, DNA], ![DFPR_L i.FT, DGPR i.BS, DGPR i.RD]⟩
  | .S_D_RR =>
      ⟨S_D_RR_IMPL i, F_MEM ||| F_STORE ||| F_RR,
        ![DNA, DNA], ![DFPR_D i.FT, DGPR i.BS, DGPR i.RD]⟩
  | .L_S_RR_R2 =>
      ⟨L_S_RR_R2_IMPL i, F_MEM ||| F_LOAD ||| F_RR,
        ![DFPR_L i.FT, DNA], ![DNA, DGPR i.BS, DGPR i.RD]⟩
  | .S_S_RR_R2 =>
      ⟨S_S_RR_R2_IMPL i, F_MEM ||| F_STORE ||| F_RR,
        ![DNA, DNA], ![DFPR_L i.FT, DGPR i.BS, DGPR i.RD]⟩
  | .LW_RR_R2 =>
      ⟨LW_RR_R2_IMPL i, F_MEM ||| F_LOAD ||| F_RR,
        ![DGPR i.RT, DNA], ![DNA, DGPR i.BS, DGPR i.RD]⟩
  | .SW_RR_R2 =>
      ⟨SW_RR_R2_IMPL i, F_MEM ||| F_STORE ||| F_RR,
        ![DNA, DNA], ![DGPR i.RT, DGPR i.BS, DGPR i.RD]⟩
  | .ADD => ⟨ADD_IMPL i, F_ICOMP, ![DGPR i.RD, DNA], ![DGPR i.RS, DGPR i.RT, DNA]⟩
  | .ADDI => ⟨ADDI_IMPL i, F_ICOMP ||| F_IMM, ![DGPR i.RT, DNA], ![DGPR i.RS, DNA, DNA]⟩
  | .ADDU => ⟨ADDU_IMPL i, F_ICOMP, ![DGPR i.RD, DNA], ![DGPR i.RS, DGPR i.RT, DNA]⟩
  | .ADDIU => ⟨ADDIU_IMPL i, F_ICOMP ||| F_IMM, ![DGPR i.RT, DNA], ![DGPR i.RS, DNA, DNA]⟩
  | .SUB => ⟨SUB_IMPL i, F_ICOMP, ![DGPR i.RD, DNA], ![DGPR i.RS, DGPR i.RT, DNA]⟩
  | .SUBU => ⟨SUBU_IMPL i, F_ICOMP, ![DGPR i.RD, DNA], ![DGPR i.RS, DGPR i.RT, DNA]⟩
  | .MULT => ⟨MULT_IMPL i, F_ICOMP ||| F_LONGLAT, ![DHI, DLO], ![DGPR i.RT, DGPR i.RS, DNA]⟩
  | .MULTU => ⟨MULTU_IMPL i, F_ICOMP ||| F_LONGLAT, ![DHI, DLO], ![DGPR i.RT, DGPR i.RS, DNA]⟩
  | .DIV => ⟨DIV_IMPL i, F_ICOMP ||| F_LONGLAT, ![DHI, DLO], ![DGPR i.RT, DGPR i.RS, DNA]⟩
  | .DIVU => ⟨DIVU_IMPL i, F_ICOMP ||| F_LONGLAT, ![DHI, DLO], ![DGPR i.RT, DGPR i.RS, DNA]⟩
  | .MFHI => ⟨MFHI_IMPL i, F_ICOMP, ![DGPR i.RD, DNA], ![DHI, DNA, DNA]⟩
  | .MTHI => ⟨MTHI_IMPL i, F_ICOMP, ![DHI, DNA], ![DGPR i.RS, DNA, DNA]⟩
  | .MFLO => ⟨MFLO_IMPL i, F_ICOMP, ![DGPR i.RD, DNA], ![DLO, DNA, DNA]⟩
  | .MTLO => ⟨MTLO_IMPL i, F_ICOMP, ![DLO, DNA], ![DGPR i.RS, DNA, DNA]⟩
  | .AND_ => ⟨AND_IMPL i, F_ICOMP, ![DGPR i.RD, DNA], ![DGPR i.RS, DGPR i.RT, DNA]⟩
  | .ANDI => ⟨ANDI_IMPL i, F_ICOMP ||| F_IMM, ![DGPR i.RT, DNA], ![DGPR i.RS, DNA, DNA]⟩
  | .OR => ⟨OR_IMPL i, F_ICOMP, ![DGPR i.RD, DNA], ![DGPR i.RS, DGPR i.RT, DNA]⟩
  | .ORI => ⟨ORI_IMPL i, F_ICOMP ||| F_IMM, ![DGPR i.RT, DNA], ![DGPR i.RS, DNA, DNA]⟩
  | .XOR => ⟨XOR_IMPL i, F_ICOMP, ![DGPR i.RD, DNA], ![DGPR i.RS, DGPR i.RT, DNA]⟩
  | .XORI => ⟨XORI_IMPL i, F_ICOMP ||| F_IMM, ![DGPR i.RT, DNA], ![DGPR i.RS, DNA, DNA]⟩
  | .NOR => ⟨NOR_IMPL i, F_ICOMP, ![DGPR i.RD, DNA], ![DGPR i.RS, DGPR i.RT, DNA]⟩
  | .SLL => ⟨SLL_IMPL i, F_ICOMP, ![DGPR i.RD, DNA], ![DGPR i.RT, DNA, DNA]⟩
  | .SLLV => ⟨SLLV_IMPL i, F_ICOMP, ![DGPR i.RD, DNA], ![DGPR i.RT, DGPR i.RS, DNA]⟩
  | .SRL => ⟨SRL_IMPL host i, F_ICOMP, ![DGPR i.RD, DNA], ![DGPR i.RT, DNA, DNA]⟩
  | .SRLV => ⟨SRLV_IMPL host i, F_ICOMP, ![DGPR i.RD, DNA], ![DGPR i.RT, DGPR i.RS, DNA]⟩
  | .SRA => ⟨SRA_IMPL host i, F_ICOMP, ![DGPR i.RD, DNA], ![DGPR i.RT, DNA, DNA]⟩
  | .SRAV => ⟨SRAV_IMPL host i, F_ICOMP, ![DGPR i.RD, DNA], ![DGPR i.RT, DGPR i.RS, DNA]⟩
  | .SLT => ⟨SLT_IMPL i, F_ICOMP, ![DGPR i.RD, DNA], ![DGPR i.RS, DGPR i.RT, DNA]⟩
  | .SLTI => ⟨SLTI_IMPL i, F_ICOMP ||| F_IMM, ![DGPR i.RT, DNA], ![DGPR i.RS, DNA, DNA]⟩
  | .SLTU => ⟨SLTU_IMPL i, F_ICOMP, ![DGPR i.RD, DNA], ![DGPR i.RS, DGPR i.RT, DNA]⟩
  | .SLTIU => ⟨SLTIU_IMPL i, F_ICOMP ||| F_IMM, ![DGPR i.RT, DNA], ![DGPR i.RS, DNA, DNA]⟩
  | .FADD_S => ⟨FADD_S_IMPL host i, F_FCOMP, ![DFPR_F i.FD, DNA], ![DFPR_F i.FS, DFPR_F i.FT, DNA]⟩
  | .FADD_D => ⟨FADD_D_IMPL host i, F_FCOMP, ![DFPR_D i.FD, DNA], ![DFPR_D i.FS, DFPR_D i.FT, DNA]⟩
  | .FSUB_S => ⟨FSUB_S_IMPL host i, F_FCOMP, ![DFPR_F i.FD, DNA], ![DFPR_F i.FS, DFPR_F i.FT, DNA]⟩
  | .FSUB_D => ⟨FSUB_D_IMPL host i, F_FCOMP, ![DFPR_D i.FD, DNA], ![DFPR_D i.FS, DFPR_D i.FT, DNA]⟩
  | .FMUL_S =>
      ⟨FMUL_S_IMPL host i, F_FCOMP ||| F_LONGLAT,
        ![DFPR_F i.FD, DNA], ![DFPR_F i.FS, DFPR_F i.FT, DNA]⟩
  | .FMUL_D =>
      ⟨FMUL_D_IMPL host i, F_FCOMP ||| F_LONGLAT,
        ![DFPR_D i.FD, DNA], ![DFPR_D i.FS, DFPR_D i.FT, DNA]⟩
  | .FDIV_S =>
      ⟨FDIV_S_IMPL host i, F_FCOMP ||| F_LONGLAT,
        ![DFPR_F i.FD, DNA], ![DFPR_F i.FS, DFPR_F i.FT, DNA]⟩
  | .FDIV_D =>
      ⟨FDIV_D_IMPL host i, F_FCOMP ||| F_LONGLAT,
        ![DFPR_D i.FD, DNA], ![DFPR_D i.FS, DFPR_D i.FT, DNA]⟩
  | .FABS_S => ⟨FABS_S_IMPL host i, F_FCOMP, ![DFPR_F i.FD, DNA], ![DFPR_F i.FS, DNA, DNA]⟩
  | .FABS_D => ⟨FABS_D_IMPL host i, F_FCOMP, ![DFPR_D i.FD, DNA], ![DFPR_D i.FS, DNA, DNA]⟩
  | .FMOV_S => ⟨FMOV_S_IMPL i, F_FCOMP, ![DFPR_F i.FD, DNA], ![DFPR_F i.FS, DNA, DNA]⟩
  | .FMOV_D => ⟨FMOV_D_IMPL i, F_FCOMP, ![DFPR_D i.FD, DNA], ![DFPR_D i.FS, DNA, DNA]⟩
  | .FNEG_S => ⟨FNEG_S_IMPL host i, F_FCOMP, ![DFPR_F i.FD, DNA], ![DFPR_F i.FS, DNA, DNA]⟩
  | .FNEG_D => ⟨FNEG_D_IMPL host i, F_FCOMP, ![DFPR_D i.FD, DNA], ![DFPR_D i.FS, DNA, DNA]⟩
  | .CVT_S_D => ⟨CVT_S_D_IMPL host i, F_FCOMP, ![DFPR_F i.FD, DNA], ![DFPR_D i.FS, DNA, DNA]⟩
  | .CVT_S_W => ⟨CVT_S_W_IMPL host i, F_FCOMP, ![DFPR_F i.FD, DNA], ![DFPR_L i.FS, DNA, DNA]⟩
  | .CVT_D_S => ⟨CVT_D_S_IMPL host i, F_FCOMP, ![DFPR_D i.FD, DNA], ![DFPR_F i.FS, DNA, DNA]⟩
  | .CVT_D_W => ⟨CVT_D_W_IMPL host i, F_FCOMP, ![DFPR_D i.FD, DNA], ![DFPR_L i.FS, DNA, DNA]⟩
  | .CVT_W_S => ⟨CVT_W_S_IMPL host i, F_FCOMP, ![DFPR_L i.FD, DNA], ![DFPR_F i.FS, DNA, DNA]⟩
  | .CVT_W_D => ⟨CVT_W_D_IMPL host i, F_FCOMP, ![DFPR_L i.FD, DNA], ![DFPR_D i.FS, DNA, DNA]⟩
  | .C_EQ_S => ⟨C_EQ_S_IMPL host i, F_FCOMP, ![DFCC, DNA], ![DFPR_F i.FS, DFPR_F i.FT, DNA]⟩
  | .C_EQ_D => ⟨C_EQ_D_IMPL host i, F_FCOMP, ![DFCC, DNA], ![DFPR_D i.FS, DFPR_D i.FT, DNA]⟩
  | .C_LT_S => ⟨C_LT_S_IMPL host i, F_FCOMP, ![DFCC, DNA], ![DFPR_F i.FS, DFPR_F i.FT, DNA]⟩
  | .C_LT_D => ⟨C_LT_D_IMPL host i, F_FCOMP, ![DFCC, DNA], ![DFPR_D i.FS, DFPR_D i.FT, DNA]⟩
  | .C_LE_S => ⟨C_LE_S_IMPL host i, F_FCOMP, ![DFCC, DNA], ![DFPR_F i.FS, DFPR_F i.FT, DNA]⟩
  | .C_LE_D => ⟨C_LE_D_IMPL host i, F_FCOMP, ![DFCC, DNA], ![DFPR_D i.FS, DFPR_D i.FT, DNA]⟩
  | .FSQRT_S =>
      ⟨FSQRT_S_IMPL host i, F_FCOMP ||| F_LONGLAT,
        ![DFPR_F i.FD, DNA], ![DFPR_F i.FS, DNA, DNA]⟩
  | .FSQRT_D =>
      ⟨FSQRT_D_IMPL host i, F_FCOMP ||| F_LONGLAT,
        ![DFPR_D i.FD, DNA], ![DFPR_D i.FS, DNA, DNA]⟩
  | .SYSCALL => ⟨SYSCALL_IMPL host i, F_TRAP, ![DNA, DNA], ![DNA, DNA, DNA]⟩
  | .BREAK => ⟨BREAK_IMPL i, F_TRAP, ![DNA, DNA], ![DNA, DNA, DNA]⟩
  | .LUI => ⟨LUI_IMPL i, F_ICOMP, ![DGPR i.RT, DNA], ![DNA, DNA, DNA]⟩
  | .MFC1 => ⟨MFC1_IMPL i, F_ICOMP, ![DGPR i.RT, DNA], ![DFPR_L i.FS, DNA, DNA]⟩
  | .DMFC1 => ⟨DMFC1_IMPL i, F_ICOMP, ![DGPR_D i.RT, DNA], ![DFPR_D i.FS, DNA, DNA]⟩
  | .CFC1 => ⟨CFC1_IMPL i, F_ICOMP, ![DNA, DNA], ![DNA, DNA, DNA]⟩
  | .MTC1 => ⟨MTC1_IMPL i, F_ICOMP, ![DFPR_L i.FS, DNA], ![DGPR i.RT, DNA, DNA]⟩
  | .DMTC1 => ⟨DMTC1_IMPL i, F_ICOMP, ![DFPR_D i.FS, DNA], ![DGPR_D i.RT, DNA, DNA]⟩
  | .CTC1 => ⟨CTC1_IMPL i, F_ICOMP, ![DNA, DNA], ![DNA, DNA, DNA]⟩

/-- `MD_OP_FLAGS`. -/
def MD_OP_FLAGS (op : Op) : OpFlags := (definst bareHost ⟨0, 0⟩ op).flags

theorem flags_definst {ω : Type} (host : Host ω) (i : Inst) (op : Op) :
    (definst host i op).flags = MD_OP_FLAGS op := by
  cases op <;> rfl

/-- The opcodes in the order of their numbers, from one. -/
def opcodes : List Op :=
  [.NOP, .JUMP, .JAL, .JR, .JALR, .BEQ, .BNE, .BLEZ, .BGTZ, .BLTZ, .BGEZ, .BC1F, .BC1T, .LB,
   .LBU, .LH, .LHU, .LW, .DLW, .L_S, .L_D, .LWL, .LWR, .SB, .SH, .SW, .DSW, .DSZ, .S_S, .S_D,
   .SWL, .SWR, .LB_RR, .LBU_RR, .LH_RR, .LHU_RR, .LW_RR, .DLW_RR, .L_S_RR, .L_D_RR, .SB_RR,
   .SH_RR, .SW_RR, .DSW_RR, .DSZ_RR, .S_S_RR, .S_D_RR, .L_S_RR_R2, .S_S_RR_R2, .LW_RR_R2,
   .SW_RR_R2, .ADD, .ADDI, .ADDU, .ADDIU, .SUB, .SUBU, .MULT, .MULTU, .DIV, .DIVU, .MFHI, .MTHI,
   .MFLO, .MTLO, .AND_, .ANDI, .OR, .ORI, .XOR, .XORI, .NOR, .SLL, .SLLV, .SRL, .SRLV, .SRA,
   .SRAV, .SLT, .SLTI, .SLTU, .SLTIU, .FADD_S, .FADD_D, .FSUB_S, .FSUB_D, .FMUL_S, .FMUL_D,
   .FDIV_S, .FDIV_D, .FABS_S, .FABS_D, .FMOV_S, .FMOV_D, .FNEG_S, .FNEG_D, .CVT_S_D, .CVT_S_W,
   .CVT_D_S, .CVT_D_W, .CVT_W_S, .CVT_W_D, .C_EQ_S, .C_EQ_D, .C_LT_S, .C_LT_D, .C_LE_S, .C_LE_D,
   .FSQRT_S, .FSQRT_D, .SYSCALL, .BREAK, .LUI, .MFC1, .DMFC1, .CFC1, .MTC1, .DMTC1, .CTC1]

/-- `MD_SET_OPCODE`, where a number that is no opcode ends the simulation. -/
def decode (i : Inst) : Option Op :=
  let n := (i.a &&& 0xff).toNat
  -- Number zero is `OP_NA`, which is no instruction.
  if n = 0 then none else opcodes[n - 1]?

/-- The number of an opcode. -/
def Op.number (op : Op) : Nat := opcodes.idxOf op + 1

theorem mem_opcodes (op : Op) : op ∈ opcodes := by
  cases op <;> decide

/-- The loader writes numbers that the simulator decodes. -/
theorem decode_encode (op : Op) (a b : Word) :
    decode { a := (a &&& ~~~ 0xff) ||| BitVec.ofNat 32 op.number, b := b } = some op := by
  have hlt := List.idxOf_lt_length_of_mem (mem_opcodes op)
  have hlen : opcodes.length = 119 := rfl
  -- What the loader keeps of the word is masked away again.
  have hmask : ((a &&& ~~~ 0xff) ||| BitVec.ofNat 32 op.number) &&& 0xff
      = BitVec.ofNat 32 op.number &&& 0xff := by
    ext i hi
    simp only [BitVec.getElem_and, BitVec.getElem_or, BitVec.getElem_not]
    cases (0xff#32)[i] <;> simp
  -- A number fits in the byte, since there are fewer opcodes than that.
  have hlow : (((a &&& ~~~ 0xff) ||| BitVec.ofNat 32 op.number) &&& 0xff).toNat = op.number := by
    have hff : (0xff : Word).toNat = 2 ^ 8 - 1 := rfl
    rw [hmask, BitVec.toNat_and, BitVec.toNat_ofNat, hff, Nat.and_two_pow_sub_one_eq_mod,
      Op.number]
    omega
  simp only [decode, hlow]
  rw [if_neg (by simp [Op.number])]
  simp only [Op.number, Nat.add_sub_cancel]
  exact List.getElem?_idxOf (mem_opcodes op)

/-! ### Locations -/

/-- A word of the registers. -/
inductive Loc where
  | gpr (n : Fin 32)
  | fpr (n : Fin 32)
  | hi
  | lo
  | fcc
  deriving DecidableEq

/-- The number that the dependence decoders give the register. -/
def Loc.number : Loc → Nat
  | gpr n => n
  | fpr n => 2 * ((n.val + 32) / 2)
  | hi => 64
  | lo => 65
  | fcc => 66

def Regs.get (r : Regs) : Loc → Word
  | .gpr n => r.R n
  | .fpr n => r.F n
  | .hi => r.hi
  | .lo => r.lo
  | .fcc => r.fcc

end Pisa

end MicroArch
