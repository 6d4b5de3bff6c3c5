import MicroArch.Library.LittleEndian
import MicroArch.Memory.Copies

/-!
# The PISA Machine

The state that the functional simulator executes instructions on, and the
accessors that the definitions of the instructions are written with
(`pisa.h`, `regs.h`, and the accessor macros of `sim-safe.c`).

Registers are arrays of 32 words. The single and the double precision
registers are views of the same words, a double being a pair of them. An
instruction names registers with eight bits, so it can name one that does not
exist; then it has no result, as it has when an access leaves its page or
when it shifts by more than a word has bits. Signed arithmetic wraps around,
and the bytes of a word stand in the order of a little endian host and target.

What the host does is a parameter: its floating point arithmetic, the system
calls, which hand a request to it and may change the state in any way, and
what the build found out about its shifts. A step may also stop with a fault,
which ends the simulation.

## Main definitions

* `Inst`: An instruction word and its fields.
* `Regs`, `State`: The registers, and the machine with its memory.
* `Host`: What the host does.
* `Exec`: A part of an instruction.
* `GPR`, `SET_GPR`, `FPR_L`, `FPR_D`, `READ_WORD`, `WRITE_WORD` and so on: The
  accessors.
-/

namespace MicroArch

namespace Pisa

open Memory (Addr Byte Mem MdFault memRead memWrite)

abbrev Word := BitVec 32

/-- `md_inst_t`. -/
structure Inst where
  a : Word
  b : Word
  deriving DecidableEq

namespace Inst

variable (i : Inst)

def RS : Nat := (i.b >>> 24).toNat
def RT : Nat := ((i.b >>> 16) &&& 0xff).toNat
def RD : Nat := ((i.b >>> 8) &&& 0xff).toNat
def SHAMT : Nat := (i.b &&& 0xff).toNat
def FS : Nat := i.RS
def FT : Nat := i.RT
def FD : Nat := i.RD
def BS : Nat := i.RS

/-- The signed immediate. -/
def IMM : Word := (i.b.setWidth 16).signExtend 32

def UIMM : Word := i.b &&& 0xffff
def TARG : Word := i.b &&& 0x3ffffff
def OFS : Word := i.IMM

end Inst

/-- `regs_t`. -/
structure Regs where
  /-- `regs_R`. -/
  R : Fin 32 → Word
  /-- `regs_F`, by its words. -/
  F : Fin 32 → Word
  hi : Word
  lo : Word
  fcc : Word
  PC : Word
  NPC : Word

/-- The machine, in a world that the system calls change. -/
structure State (ω : Type) where
  regs : Regs
  mem : Mem
  world : ω

/-- Why an instruction has no result. -/
inductive Stop where
  | fault (f : MdFault)
  | undefined
  | panic
  deriving DecidableEq

variable {ω : Type}

/-- The host, and what was found out about it when the simulator was built. -/
structure Host (ω : Type) where
  addS : Word → Word → Word
  subS : Word → Word → Word
  mulS : Word → Word → Word
  divS : Word → Word → Word
  absS : Word → Word
  negS : Word → Word
  sqrtS : Word → Word
  eqS : Word → Word → Bool
  ltS : Word → Word → Bool
  leS : Word → Word → Bool
  addD : BitVec 64 → BitVec 64 → BitVec 64
  subD : BitVec 64 → BitVec 64 → BitVec 64
  mulD : BitVec 64 → BitVec 64 → BitVec 64
  divD : BitVec 64 → BitVec 64 → BitVec 64
  absD : BitVec 64 → BitVec 64
  negD : BitVec 64 → BitVec 64
  sqrtD : BitVec 64 → BitVec 64
  eqD : BitVec 64 → BitVec 64 → Bool
  ltD : BitVec 64 → BitVec 64 → Bool
  leD : BitVec 64 → BitVec 64 → Bool
  cvtSD : BitVec 64 → Word
  cvtSW : Word → Word
  cvtDS : Word → BitVec 64
  cvtDW : Word → BitVec 64
  cvtWS : Word → Word
  cvtWD : BitVec 64 → Word
  sysSyscall : Inst → State ω → Except Stop (State ω)
  fastSRL : Bool
  fastSRA : Bool

/-- A host that knows neither floating point nor system calls. -/
def bareHost : Host Unit :=
  { addS := fun _ _ => 0, subS := fun _ _ => 0, mulS := fun _ _ => 0, divS := fun _ _ => 0
    absS := fun _ => 0, negS := fun _ => 0, sqrtS := fun _ => 0
    eqS := fun _ _ => false, ltS := fun _ _ => false, leS := fun _ _ => false
    addD := fun _ _ => 0, subD := fun _ _ => 0, mulD := fun _ _ => 0, divD := fun _ _ => 0
    absD := fun _ => 0, negD := fun _ => 0, sqrtD := fun _ => 0
    eqD := fun _ _ => false, ltD := fun _ _ => false, leD := fun _ _ => false
    cvtSD := fun _ => 0, cvtSW := fun _ => 0, cvtDS := fun _ => 0, cvtDW := fun _ => 0
    cvtWS := fun _ => 0, cvtWD := fun _ => 0
    sysSyscall := fun _ _ => .error .undefined
    fastSRL := true, fastSRA := true }

/-- A machine with zeros, before it has run. -/
def blank (x : ω) : State ω :=
  { regs := { R := fun _ => 0, F := fun _ => 0, hi := 0, lo := 0, fcc := 0, PC := 0, NPC := 8 }
    mem := Memory.memCreate
    world := x }

/-- A part of an instruction. -/
abbrev Exec (ω : Type) (α : Type) := StateT (State ω) (Except Stop) α

def undefined {α : Type} : Exec ω α := fun _ => .error .undefined

/-- A check in front of `DECLARE_FAULT`. -/
def faultIf (c : Prop) [Decidable c] (f : MdFault) : Exec ω Unit :=
  if c then fun _ => .error (.fault f) else pure ()

/-! ### Registers -/

def Regs.setR (r : Regs) (n : Fin 32) (e : Word) : Regs := { r with R := Function.update r.R n e }
def Regs.setF (r : Regs) (n : Fin 32) (e : Word) : Regs := { r with F := Function.update r.F n e }

def State.setRegs (s : State ω) (r : Regs) : State ω := { s with regs := r }
def State.setMem (s : State ω) (m : Mem) : State ω := { s with mem := m }

def GPR (n : Nat) : Exec ω Word :=
  if h : n < 32 then fun s => .ok (s.regs.R ⟨n, h⟩, s) else undefined

def SET_GPR (n : Nat) (e : Word) : Exec ω Unit :=
  if h : n < 32 then fun s => .ok ((), s.setRegs (s.regs.setR ⟨n, h⟩ e)) else undefined

def FPR_L (n : Nat) : Exec ω Word :=
  if h : n < 32 then fun s => .ok (s.regs.F ⟨n, h⟩, s) else undefined

def SET_FPR_L (n : Nat) (e : Word) : Exec ω Unit :=
  if h : n < 32 then fun s => .ok ((), s.setRegs (s.regs.setF ⟨n, h⟩ e)) else undefined

/-- A single, by its bits. -/
def FPR_F (n : Nat) : Exec ω Word := FPR_L n

def SET_FPR_F (n : Nat) (e : Word) : Exec ω Unit := SET_FPR_L n e

/-- A double, by its bits: entry `n >> 1` of the array of doubles. -/
def FPR_D (n : Nat) : Exec ω (BitVec 64) := do
  -- The host is little endian, so the even register is the lower word.
  let lo ← FPR_L (2 * (n / 2))
  let hi ← FPR_L (2 * (n / 2) + 1)
  return hi ++ lo

def SET_FPR_D (n : Nat) (e : BitVec 64) : Exec ω Unit := do
  SET_FPR_L (2 * (n / 2)) (e.setWidth 32)
  SET_FPR_L (2 * (n / 2) + 1) ((e >>> 32).setWidth 32)

def HI : Exec ω Word := fun s => .ok (s.regs.hi, s)
def SET_HI (e : Word) : Exec ω Unit := fun s => .ok ((), s.setRegs { s.regs with hi := e })
def LO : Exec ω Word := fun s => .ok (s.regs.lo, s)
def SET_LO (e : Word) : Exec ω Unit := fun s => .ok ((), s.setRegs { s.regs with lo := e })
def FCC : Exec ω Word := fun s => .ok (s.regs.fcc, s)
def SET_FCC (e : Bool) : Exec ω Unit :=
  fun s => .ok ((), s.setRegs { s.regs with fcc := if e then 1 else 0 })
def CPC : Exec ω Word := fun s => .ok (s.regs.PC, s)
def SET_NPC (e : Word) : Exec ω Unit := fun s => .ok ((), s.setRegs { s.regs with NPC := e })

/-! ### Memory -/

/-- An access for reading. The accessors of this simulator report no fault. -/
def readMem (nbytes : Nat) (a : Word) : Exec ω (List Byte) := fun s =>
  match memRead nbytes s.mem a with
  -- The access leaves its page, so the host reads what stands behind it.
  | none => .error .undefined
  | some (bytes, mem) => .ok (bytes, s.setMem mem)

/-- An access for writing. -/
def writeMem (bytes : List Byte) (a : Word) : Exec ω Unit := fun s =>
  -- A page that the access allocates stays, as it does in the source.
  match memWrite s.mem a bytes with
  | none => .error .undefined
  | some mem => .ok ((), s.setMem mem)

def READ_BYTE (a : Word) : Exec ω Byte := do return BitVec.ofNat 8 (leNat (← readMem 1 a))
def READ_HALF (a : Word) : Exec ω (BitVec 16) := do return BitVec.ofNat 16 (leNat (← readMem 2 a))
def READ_WORD (a : Word) : Exec ω Word := do return BitVec.ofNat 32 (leNat (← readMem 4 a))
def WRITE_BYTE (v : Byte) (a : Word) : Exec ω Unit := writeMem (leBytes 1 v.toNat) a
def WRITE_HALF (v : BitVec 16) (a : Word) : Exec ω Unit := writeMem (leBytes 2 v.toNat) a
def WRITE_WORD (v : Word) (a : Word) : Exec ω Unit := writeMem (leBytes 4 v.toNat) a

end Pisa

end MicroArch
