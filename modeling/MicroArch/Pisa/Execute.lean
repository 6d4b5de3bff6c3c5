import MicroArch.Pisa.Machine

/-!
# The PISA Instructions

What every instruction of the target does (`pisa.def`), under its name there.

Most instructions come in families that differ by an operation, by the width
of an access or by an addressing mode, and are members of one definition here.
The ones with a body of their own are the jumps, the trapping additions, the
multiplications, which add shifted copies of an operand, the divisions, the
shifts to the right, of which the build selects one of two versions, and the
accesses to a part of a word.

The masks of the unaligned accesses are those of a little endian host.

## Main definitions

* `ADD_IMPL` and so on: The instructions.
* `load`, `store`, `alu`, `fp3` and so on: Their families.
* `OVER`, `UNDER`: The tests of the trapping additions.
* `multLoop`: The loop of the multiplications.
* `mdLrMasks`: The masks of the unaligned accesses.
-/

namespace MicroArch

namespace Pisa

variable {ω : Type}

/-! ### Control -/

def NOP_IMPL (_ : Inst) : Exec ω Unit := pure ()

def jumpTarget (i : Inst) : Exec ω Word := do
  return ((← CPC) &&& 0xf0000000) ||| (i.TARG <<< 2)

def JUMP_IMPL (i : Inst) : Exec ω Unit := do
  SET_NPC (← jumpTarget i)

def JAL_IMPL (i : Inst) : Exec ω Unit := do
  SET_NPC (← jumpTarget i)
  SET_GPR 31 ((← CPC) + 8)

def JR_IMPL (i : Inst) : Exec ω Unit := do
  faultIf ((← GPR i.RS) &&& 7 ≠ 0) .alignment
  SET_NPC (← GPR i.RS)

/-- The link is set first, so it is the target when both registers are the
    same. -/
def JALR_IMPL (i : Inst) : Exec ω Unit := do
  faultIf ((← GPR i.RS) &&& 7 ≠ 0) .alignment
  SET_GPR i.RD ((← CPC) + 8)
  SET_NPC (← GPR i.RS)

/-- A branch. -/
def branch (i : Inst) (taken : Exec ω Bool) : Exec ω Unit := do
  let t ← taken
  let pc ← CPC
  if t then SET_NPC (pc + 8 + (i.OFS <<< 2)) else pure ()

def BEQ_IMPL (i : Inst) : Exec ω Unit := branch i do return (← GPR i.RS) == (← GPR i.RT)
def BNE_IMPL (i : Inst) : Exec ω Unit := branch i do return (← GPR i.RS) != (← GPR i.RT)
def BLEZ_IMPL (i : Inst) : Exec ω Unit := branch i do return (← GPR i.RS).sle 0
def BGTZ_IMPL (i : Inst) : Exec ω Unit := branch i do return (0#32).slt (← GPR i.RS)
def BLTZ_IMPL (i : Inst) : Exec ω Unit := branch i do return (← GPR i.RS).slt 0
def BGEZ_IMPL (i : Inst) : Exec ω Unit := branch i do return (0#32).sle (← GPR i.RS)
def BC1F_IMPL (i : Inst) : Exec ω Unit := branch i do return (← FCC) == 0
def BC1T_IMPL (i : Inst) : Exec ω Unit := branch i do return (← FCC) != 0

/-! ### Loads and stores -/

/-- The addressing modes. -/
def disp (i : Inst) : Exec ω Word := do return (← GPR i.BS) + i.OFS
def rr (i : Inst) : Exec ω Word := do return (← GPR i.BS) + (← GPR i.RD)
def rr2 (i : Inst) : Exec ω Word := do return (← rr i) + 4

def load (read : Word → Exec ω Word) (addr : Exec ω Word) (set : Word → Exec ω Unit) :
    Exec ω Unit := do
  set (← read (← addr))

/-- A load of two words. -/
def load2 (addr : Exec ω Word) (set : Nat → Word → Exec ω Unit) (n : Nat) : Exec ω Unit := do
  faultIf (n % 2 = 1) .alignment
  -- Both words are read before a register is set, one of which may be the base.
  let hi ← READ_WORD (← addr)
  let lo ← READ_WORD ((← addr) + 4)
  set n hi
  set (n + 1) lo

def readSByte (a : Word) : Exec ω Word := do return (← READ_BYTE a).signExtend 32
def readByte (a : Word) : Exec ω Word := do return (← READ_BYTE a).setWidth 32
def readSHalf (a : Word) : Exec ω Word := do return (← READ_HALF a).signExtend 32
def readHalf (a : Word) : Exec ω Word := do return (← READ_HALF a).setWidth 32

def LB_IMPL (i : Inst) : Exec ω Unit := load readSByte (disp i) (SET_GPR i.RT)
def LBU_IMPL (i : Inst) : Exec ω Unit := load readByte (disp i) (SET_GPR i.RT)
def LH_IMPL (i : Inst) : Exec ω Unit := load readSHalf (disp i) (SET_GPR i.RT)
def LHU_IMPL (i : Inst) : Exec ω Unit := load readHalf (disp i) (SET_GPR i.RT)
def LW_IMPL (i : Inst) : Exec ω Unit := load READ_WORD (disp i) (SET_GPR i.RT)
def DLW_IMPL (i : Inst) : Exec ω Unit := load2 (disp i) SET_GPR i.RT
def L_S_IMPL (i : Inst) : Exec ω Unit := load READ_WORD (disp i) (SET_FPR_L i.FT)
def L_D_IMPL (i : Inst) : Exec ω Unit := load2 (disp i) SET_FPR_L i.FT
def LB_RR_IMPL (i : Inst) : Exec ω Unit := load readSByte (rr i) (SET_GPR i.RT)
def LBU_RR_IMPL (i : Inst) : Exec ω Unit := load readByte (rr i) (SET_GPR i.RT)
def LH_RR_IMPL (i : Inst) : Exec ω Unit := load readSHalf (rr i) (SET_GPR i.RT)
def LHU_RR_IMPL (i : Inst) : Exec ω Unit := load readHalf (rr i) (SET_GPR i.RT)
def LW_RR_IMPL (i : Inst) : Exec ω Unit := load READ_WORD (rr i) (SET_GPR i.RT)
def DLW_RR_IMPL (i : Inst) : Exec ω Unit := load2 (rr i) SET_GPR i.RT
def L_S_RR_IMPL (i : Inst) : Exec ω Unit := load READ_WORD (rr i) (SET_FPR_L i.FT)
def L_D_RR_IMPL (i : Inst) : Exec ω Unit := load2 (rr i) SET_FPR_L i.FT
def L_S_RR_R2_IMPL (i : Inst) : Exec ω Unit := load READ_WORD (rr2 i) (SET_FPR_L i.FT)
def LW_RR_R2_IMPL (i : Inst) : Exec ω Unit := load READ_WORD (rr2 i) (SET_GPR i.RT)

def store (write : Word → Word → Exec ω Unit) (src : Exec ω Word) (addr : Exec ω Word) :
    Exec ω Unit := do
  let v ← src
  write v (← addr)

/-- A store of two words. -/
def store2 (addr : Exec ω Word) (hi lo : Exec ω Word) : Exec ω Unit := do
  store WRITE_WORD hi addr
  -- The address is computed again for the second word.
  store WRITE_WORD lo (do return (← addr) + 4)

def writeByte (v : Word) (a : Word) : Exec ω Unit := WRITE_BYTE (v.setWidth 8) a
def writeHalf (v : Word) (a : Word) : Exec ω Unit := WRITE_HALF (v.setWidth 16) a

/-- A store of a pair of registers, which starts at an even one. -/
def storePair (addr : Exec ω Word) (get : Nat → Exec ω Word) (n : Nat) : Exec ω Unit := do
  faultIf (n % 2 = 1) .alignment
  store2 addr (get n) (get (n + 1))

def SB_IMPL (i : Inst) : Exec ω Unit := store writeByte (GPR i.RT) (disp i)
def SH_IMPL (i : Inst) : Exec ω Unit := store writeHalf (GPR i.RT) (disp i)
def SW_IMPL (i : Inst) : Exec ω Unit := store WRITE_WORD (GPR i.RT) (disp i)
def DSW_IMPL (i : Inst) : Exec ω Unit := storePair (disp i) GPR i.RT
def DSZ_IMPL (i : Inst) : Exec ω Unit := store2 (disp i) (GPR 0) (GPR 0)
def S_S_IMPL (i : Inst) : Exec ω Unit := store WRITE_WORD (FPR_L i.FT) (disp i)
def S_D_IMPL (i : Inst) : Exec ω Unit := storePair (disp i) FPR_L i.FT
def SB_RR_IMPL (i : Inst) : Exec ω Unit := store writeByte (GPR i.RT) (rr i)
def SH_RR_IMPL (i : Inst) : Exec ω Unit := store writeHalf (GPR i.RT) (rr i)
def SW_RR_IMPL (i : Inst) : Exec ω Unit := store WRITE_WORD (GPR i.RT) (rr i)
def DSW_RR_IMPL (i : Inst) : Exec ω Unit := storePair (rr i) GPR i.RT
def DSZ_RR_IMPL (i : Inst) : Exec ω Unit := store2 (rr i) (GPR 0) (GPR 0)
def S_S_RR_IMPL (i : Inst) : Exec ω Unit := store WRITE_WORD (FPR_L i.FT) (rr i)
def S_D_RR_IMPL (i : Inst) : Exec ω Unit := storePair (rr i) FPR_L i.FT
def S_S_RR_R2_IMPL (i : Inst) : Exec ω Unit := store WRITE_WORD (FPR_L i.FT) (rr2 i)
def SW_RR_R2_IMPL (i : Inst) : Exec ω Unit := store WRITE_WORD (GPR i.RT) (rr2 i)

/-! ### Parts of a word -/

/-- `md_lr_masks`. -/
def mdLrMasks (n : Nat) : Word :=
  match n with
  | 0 => 0xffffffff
  | 1 => 0x00ffffff
  | 2 => 0x0000ffff
  | 3 => 0x000000ff
  | _ => 0x00000000

def WL_SIZE (a : Word) : Nat := 4 - (a &&& 3).toNat
def WL_BASE (a : Word) : Word := a &&& ~~~3
def WL_PROT_MASK1 (a : Word) : Word := mdLrMasks (WL_SIZE a)
def WL_PROT_MASK2 (a : Word) : Word := mdLrMasks (4 - WL_SIZE a)
def WR_SIZE (a : Word) : Nat := (a &&& 3).toNat + 1
def WR_BASE (a : Word) : Word := a &&& ~~~3
def WR_PROT_MASK1 (a : Word) : Word := mdLrMasks (WR_SIZE a)
def WR_PROT_MASK2 (a : Word) : Word := mdLrMasks (4 - WR_SIZE a)

/-- What `LWL` makes of a register and the word at the address. -/
def lwl (a rt temp : Word) : Word :=
  (rt &&& WR_PROT_MASK1 a) ||| ((temp <<< (8 * (WL_SIZE a - 1))) &&& ~~~ WR_PROT_MASK1 a)

def lwr (a rt temp : Word) : Word :=
  (rt &&& ~~~ WL_PROT_MASK2 a) ||| ((temp >>> (8 * (WR_SIZE a - 1))) &&& WL_PROT_MASK2 a)

/-- What `SWL` makes of the word at the address. -/
def swl (a rt temp : Word) : Word :=
  (rt.sshiftRight (8 * (4 - WR_SIZE a)) &&& WR_PROT_MASK2 a) ||| (temp &&& ~~~ WR_PROT_MASK2 a)

def swr (a rt temp : Word) : Word :=
  ((rt <<< (8 * (4 - WL_SIZE a))) &&& ~~~ WL_PROT_MASK1 a) ||| (temp &&& WL_PROT_MASK1 a)

def LWL_IMPL (i : Inst) : Exec ω Unit := do
  let a ← disp i
  let temp ← READ_WORD (WL_BASE a)
  SET_GPR i.RT (lwl a (← GPR i.RT) temp)

def LWR_IMPL (i : Inst) : Exec ω Unit := do
  let a ← disp i
  let temp ← READ_WORD (WR_BASE a)
  SET_GPR i.RT (lwr a (← GPR i.RT) temp)

def SWL_IMPL (i : Inst) : Exec ω Unit := do
  let a ← disp i
  let temp ← READ_WORD (WL_BASE a)
  WRITE_WORD (swl a (← GPR i.RT) temp) (WL_BASE a)

def SWR_IMPL (i : Inst) : Exec ω Unit := do
  let a ← disp i
  let temp ← READ_WORD (WR_BASE a)
  WRITE_WORD (swr a (← GPR i.RT) temp) (WR_BASE a)

/-! ### Integer arithmetic -/

def MAXINT_VAL : Word := 0x7fffffff

/-- Overflow in a sum. -/
def OVER (x y : Word) : Bool :=
  ((0#32).slt x && (0#32).slt y && (MAXINT_VAL - x).slt y) ||
    (x.slt 0 && y.slt 0 && y.slt (-MAXINT_VAL - x))

/-- Overflow in a difference. -/
def UNDER (x y : Word) : Bool :=
  ((0#32).slt x && y.slt 0 && (MAXINT_VAL + y).slt x) ||
    (x.slt 0 && (0#32).slt y && x.slt (-MAXINT_VAL + y))

def alu (op : Word → Word → Word) (i : Inst) : Exec ω Unit := do
  let x ← GPR i.RS
  let y ← GPR i.RT
  SET_GPR i.RD (op x y)

def aluImm (op : Word → Word → Word) (imm : Word) (i : Inst) : Exec ω Unit := do
  let x ← GPR i.RS
  SET_GPR i.RT (op x imm)

def trapping (test : Word → Word → Bool) (op : Word → Word → Word) (i : Inst) :
    Exec ω Unit := do
  let x ← GPR i.RS
  let y ← GPR i.RT
  faultIf (test x y) .overflow
  SET_GPR i.RD (op x y)

def ADD_IMPL (i : Inst) : Exec ω Unit := trapping OVER (· + ·) i

def ADDI_IMPL (i : Inst) : Exec ω Unit := do
  let x ← GPR i.RS
  faultIf (OVER x i.IMM) .overflow
  SET_GPR i.RT (x + i.IMM)

def ADDU_IMPL (i : Inst) : Exec ω Unit := alu (· + ·) i
def ADDIU_IMPL (i : Inst) : Exec ω Unit := aluImm (· + ·) i.IMM i
def SUB_IMPL (i : Inst) : Exec ω Unit := trapping UNDER (· - ·) i
def SUBU_IMPL (i : Inst) : Exec ω Unit := alu (· - ·) i

/-- `extractl`. -/
def extractl (word : Word) (pos num : Nat) : Word :=
  (word >>> (pos + 1 - num)) &&& ~~~ (~~~ 0#32 <<< num)

/-- One turn of the loop of the multiplications, on `HI` and `LO`. -/
def multStep (op1 op2 : Word) (s : Word × Word) (k : Nat) : Word × Word :=
  let hi := (s.1 <<< 1) + extractl s.2 31 1
  let lo := s.2 <<< 1
  -- The loop goes from bit 30 down; bit 31 has been taken care of before it.
  if extractl op1 (30 - k) 1 = 1 then
    -- The carry out of `LO` is found before the addition.
    (if (0xffffffff - lo).ult op2 then hi + 1 else hi, lo + op2)
  else (hi, lo)

/-- The loop of the multiplications. -/
def multLoop (op1 op2 : Word) (s : Word × Word) : Word × Word :=
  (List.range 31).foldl (multStep op1 op2) s

/-- The bit that the loop does not look at. -/
def bit31 (x : Word) : Bool := x &&& 0x80000000 != 0

/-- `HI` and `LO` are zero at first, and `LO` is the other operand when bit 31
    is set. -/
def multStart (op1 op2 : Word) : Word × Word := (0, if bit31 op1 then op2 else 0)

/-- The magnitude of an operand of `MULT`. -/
def magnitude (x : Word) : Word := if bit31 x then ~~~ x + 1 else x

/-- The two's complement of `HI` and `LO`. -/
def negatePair (s : Word × Word) : Word × Word :=
  -- One is added after both words were complemented, with the carry by hand.
  let lo := ~~~ s.2
  let hi := ~~~ s.1
  (if lo = 0xffffffff then hi + 1 else hi, lo + 1)

/-- What `MULT` leaves in `HI` and `LO`. -/
def mult (x y : Word) : Word × Word :=
  let op1 := magnitude x
  let op2 := magnitude y
  let s := multLoop op1 op2 (multStart op1 op2)
  if bit31 x ^^ bit31 y then negatePair s else s

/-- What `MULTU` leaves there. -/
def multu (x y : Word) : Word × Word := multLoop x y (multStart x y)

def hiLo (op : Word → Word → Word × Word) (i : Inst) : Exec ω Unit := do
  let x ← GPR i.RS
  let y ← GPR i.RT
  SET_HI (op x y).1
  SET_LO (op x y).2

def MULT_IMPL (i : Inst) : Exec ω Unit := hiLo mult i
def MULTU_IMPL (i : Inst) : Exec ω Unit := hiLo multu i

/-- The quotient that does not fit in a word has no value in C. -/
def DIV_IMPL (i : Inst) : Exec ω Unit := do
  let x ← GPR i.RS
  let y ← GPR i.RT
  faultIf (y = 0) .div0
  if x = 0x80000000 ∧ y = 0xffffffff then undefined
  else do
    SET_LO (x.sdiv y)
    SET_HI (x.srem y)

def DIVU_IMPL (i : Inst) : Exec ω Unit := do
  let x ← GPR i.RS
  let y ← GPR i.RT
  faultIf (y = 0) .div0
  SET_LO (x / y)
  SET_HI (x % y)

def MFHI_IMPL (i : Inst) : Exec ω Unit := do SET_GPR i.RD (← HI)
def MTHI_IMPL (i : Inst) : Exec ω Unit := do SET_HI (← GPR i.RS)
def MFLO_IMPL (i : Inst) : Exec ω Unit := do SET_GPR i.RD (← LO)
def MTLO_IMPL (i : Inst) : Exec ω Unit := do SET_LO (← GPR i.RS)

def AND_IMPL (i : Inst) : Exec ω Unit := alu (· &&& ·) i
def ANDI_IMPL (i : Inst) : Exec ω Unit := aluImm (· &&& ·) i.UIMM i
def OR_IMPL (i : Inst) : Exec ω Unit := alu (· ||| ·) i
def ORI_IMPL (i : Inst) : Exec ω Unit := aluImm (· ||| ·) i.UIMM i
def XOR_IMPL (i : Inst) : Exec ω Unit := alu (· ^^^ ·) i
def XORI_IMPL (i : Inst) : Exec ω Unit := aluImm (· ^^^ ·) i.UIMM i
def NOR_IMPL (i : Inst) : Exec ω Unit := alu (fun x y => ~~~ (x ||| y)) i

/-- A value below a bit position of a word, which every shift needs. -/
def shifted (op : Word → Nat → Word) (x : Word) (n : Nat) : Exec ω Word :=
  if n < 32 then pure (op x n) else undefined

/-- A shift by a constant. -/
def shift (sh : Nat → Word → Nat → Exec ω Unit) (i : Inst) : Exec ω Unit := do
  sh i.RD (← GPR i.RT) i.SHAMT

/-- A shift by a register. -/
def shiftV (sh : Nat → Word → Nat → Exec ω Unit) (i : Inst) : Exec ω Unit := do
  let y ← GPR i.RT
  let x ← GPR i.RS
  sh i.RD y (x &&& 0x1f).toNat

def sll (rd : Nat) (x : Word) (n : Nat) : Exec ω Unit := do
  SET_GPR rd (← shifted (· <<< ·) x n)

def fastSrl (rd : Nat) (x : Word) (n : Nat) : Exec ω Unit := do
  SET_GPR rd (← shifted (· >>> ·) x n)

/-- The first bit is shifted in by hand. -/
def slowSrl (rd : Nat) (x : Word) (n : Nat) : Exec ω Unit :=
  if n ≠ 0 then do
    SET_GPR rd (← shifted (· >>> ·) ((x >>> 1) &&& ~~~ 0x80000000) (n - 1))
  else SET_GPR rd x

def srl (host : Host ω) : Nat → Word → Nat → Exec ω Unit :=
  if host.fastSRL then fastSrl else slowSrl

def fastSra (rd : Nat) (x : Word) (n : Nat) : Exec ω Unit := do
  SET_GPR rd (← shifted BitVec.sshiftRight x n)

/-- The loop of a shift of a negative word, bit by bit. -/
def sraLoop (rd : Nat) : Nat → Exec ω Unit
  | 0 => pure ()
  | n + 1 => do
      -- The register itself is shifted, and the bit that is shifted in is set by hand.
      SET_GPR rd ((← GPR rd).sshiftRight 1 ||| 0x80000000)
      sraLoop rd n

def slowSra (rd : Nat) (x : Word) (n : Nat) : Exec ω Unit :=
  if bit31 x then do
    SET_GPR rd x
    sraLoop rd n
  else do
    SET_GPR rd (← shifted BitVec.sshiftRight x n)

def sra (host : Host ω) : Nat → Word → Nat → Exec ω Unit :=
  if host.fastSRA then fastSra else slowSra

def SLL_IMPL (i : Inst) : Exec ω Unit := shift sll i
def SLLV_IMPL (i : Inst) : Exec ω Unit := shiftV sll i
def SRL_IMPL (host : Host ω) (i : Inst) : Exec ω Unit := shift (srl host) i
def SRLV_IMPL (host : Host ω) (i : Inst) : Exec ω Unit := shiftV (srl host) i
def SRA_IMPL (host : Host ω) (i : Inst) : Exec ω Unit := shift (sra host) i
def SRAV_IMPL (host : Host ω) (i : Inst) : Exec ω Unit := shiftV (sra host) i

def truth (b : Bool) : Word := if b then 1 else 0

def SLT_IMPL (i : Inst) : Exec ω Unit := alu (fun x y => truth (x.slt y)) i
def SLTI_IMPL (i : Inst) : Exec ω Unit := aluImm (fun x y => truth (x.slt y)) i.IMM i
def SLTU_IMPL (i : Inst) : Exec ω Unit := alu (fun x y => truth (x.ult y)) i
def SLTIU_IMPL (i : Inst) : Exec ω Unit := aluImm (fun x y => truth (x.ult y)) i.IMM i

/-! ### Floating point -/

def odd (n : Nat) : Prop := n % 2 = 1

instance (n : Nat) : Decidable (odd n) := inferInstanceAs (Decidable (_ = _))

/-- Two operands and a result, of one precision. -/
def fp3 {α : Type} (get : Nat → Exec ω α) (set : Nat → α → Exec ω Unit) (op : α → α → α)
    (i : Inst) : Exec ω Unit := do
  faultIf (odd i.FD ∨ odd i.FS ∨ odd i.FT) .alignment
  let x ← get i.FS
  let y ← get i.FT
  set i.FD (op x y)

/-- One operand and a result. -/
def fp2 {α β : Type} (get : Nat → Exec ω α) (set : Nat → β → Exec ω Unit) (op : α → β)
    (i : Inst) : Exec ω Unit := do
  faultIf (odd i.FD ∨ odd i.FS) .alignment
  set i.FD (op (← get i.FS))

/-- A comparison. -/
def fpCmp {α : Type} (get : Nat → Exec ω α) (op : α → α → Bool) (i : Inst) : Exec ω Unit := do
  faultIf (odd i.FS ∨ odd i.FT) .alignment
  let x ← get i.FS
  let y ← get i.FT
  SET_FCC (op x y)

section

variable (host : Host ω)

def FADD_S_IMPL (i : Inst) : Exec ω Unit := fp3 FPR_F SET_FPR_F host.addS i
def FADD_D_IMPL (i : Inst) : Exec ω Unit := fp3 FPR_D SET_FPR_D host.addD i
def FSUB_S_IMPL (i : Inst) : Exec ω Unit := fp3 FPR_F SET_FPR_F host.subS i
def FSUB_D_IMPL (i : Inst) : Exec ω Unit := fp3 FPR_D SET_FPR_D host.subD i
def FMUL_S_IMPL (i : Inst) : Exec ω Unit := fp3 FPR_F SET_FPR_F host.mulS i
def FMUL_D_IMPL (i : Inst) : Exec ω Unit := fp3 FPR_D SET_FPR_D host.mulD i
def FDIV_S_IMPL (i : Inst) : Exec ω Unit := fp3 FPR_F SET_FPR_F host.divS i
def FDIV_D_IMPL (i : Inst) : Exec ω Unit := fp3 FPR_D SET_FPR_D host.divD i
def FABS_S_IMPL (i : Inst) : Exec ω Unit := fp2 FPR_F SET_FPR_F host.absS i
def FABS_D_IMPL (i : Inst) : Exec ω Unit := fp2 FPR_D SET_FPR_D host.absD i
def FMOV_S_IMPL (i : Inst) : Exec ω Unit := fp2 FPR_F SET_FPR_F id i
def FMOV_D_IMPL (i : Inst) : Exec ω Unit := fp2 FPR_D SET_FPR_D id i
def FNEG_S_IMPL (i : Inst) : Exec ω Unit := fp2 FPR_F SET_FPR_F host.negS i
def FNEG_D_IMPL (i : Inst) : Exec ω Unit := fp2 FPR_D SET_FPR_D host.negD i
def CVT_S_D_IMPL (i : Inst) : Exec ω Unit := fp2 FPR_D SET_FPR_F host.cvtSD i
def CVT_S_W_IMPL (i : Inst) : Exec ω Unit := fp2 FPR_L SET_FPR_F host.cvtSW i
def CVT_D_S_IMPL (i : Inst) : Exec ω Unit := fp2 FPR_F SET_FPR_D host.cvtDS i
def CVT_D_W_IMPL (i : Inst) : Exec ω Unit := fp2 FPR_L SET_FPR_D host.cvtDW i
def CVT_W_S_IMPL (i : Inst) : Exec ω Unit := fp2 FPR_F SET_FPR_L host.cvtWS i
def CVT_W_D_IMPL (i : Inst) : Exec ω Unit := fp2 FPR_D SET_FPR_L host.cvtWD i
def C_EQ_S_IMPL (i : Inst) : Exec ω Unit := fpCmp FPR_F host.eqS i
def C_EQ_D_IMPL (i : Inst) : Exec ω Unit := fpCmp FPR_D host.eqD i
def C_LT_S_IMPL (i : Inst) : Exec ω Unit := fpCmp FPR_F host.ltS i
def C_LT_D_IMPL (i : Inst) : Exec ω Unit := fpCmp FPR_D host.ltD i
def C_LE_S_IMPL (i : Inst) : Exec ω Unit := fpCmp FPR_F host.leS i
def C_LE_D_IMPL (i : Inst) : Exec ω Unit := fpCmp FPR_D host.leD i
def FSQRT_S_IMPL (i : Inst) : Exec ω Unit := fp2 FPR_F SET_FPR_F host.sqrtS i
def FSQRT_D_IMPL (i : Inst) : Exec ω Unit := fp2 FPR_D SET_FPR_D host.sqrtD i

/-! ### Miscellaneous -/

def SYSCALL_IMPL (i : Inst) : Exec ω Unit := fun s => (host.sysSyscall i s).map fun s => ((), s)

end

def BREAK_IMPL (_ : Inst) : Exec ω Unit := fun _ => .error (.fault .break)

def LUI_IMPL (i : Inst) : Exec ω Unit := SET_GPR i.RT (i.UIMM <<< 16)

def MFC1_IMPL (i : Inst) : Exec ω Unit := do SET_GPR i.RT (← FPR_L i.FS)

def DMFC1_IMPL (i : Inst) : Exec ω Unit := do
  faultIf (odd i.RT ∨ odd i.FS) .alignment
  SET_GPR i.RT (← FPR_L i.FS)
  -- The upper word of the pair.
  SET_GPR (i.RT + 1) (← FPR_L (i.FS + 1))

def CFC1_IMPL (_ : Inst) : Exec ω Unit := pure ()

def MTC1_IMPL (i : Inst) : Exec ω Unit := do SET_FPR_L i.FS (← GPR i.RT)

def DMTC1_IMPL (i : Inst) : Exec ω Unit := do
  faultIf (odd i.FS ∨ odd i.RT) .alignment
  SET_FPR_L i.FS (← GPR i.RT)
  SET_FPR_L (i.FS + 1) (← GPR (i.RT + 1))

def CTC1_IMPL (_ : Inst) : Exec ω Unit := pure ()

end Pisa

end MicroArch
