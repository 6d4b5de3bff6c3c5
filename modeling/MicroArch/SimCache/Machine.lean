import MicroArch.Cache.System
import MicroArch.Library.Watched
import MicroArch.Pisa.Simulator

/-!
# The Cache Simulator

The loop of `sim_main` in `sim-cache.c`, which executes the instructions of the
functional simulator and shows their references to caches.

The definitions of the instructions are the same text as before, but the
accessors of memory they are written with access the caches first. A fetch
accesses the TLB and the cache of the first level for instructions, and the
access of an instruction those for data. A system call either accesses the
memory through the caches as well, or the caches for data are flushed before
it. What it accesses is a parameter, like what it does.

An access of the caches returns a latency, which nobody looks at. It may also
end the simulation. The program counter that the prefetchers are told is that
of the instruction.

The loop of the functional simulator of this lab is modelled here too. It keeps
no trace.

## Main definitions

* `Ref`: What the simulated program refers to.
* `LW_IMPL` and so on: The instructions that access memory.
* `simStep`, `simRun`: The loop, under a watcher of the references.
* `Caches`: The caches that the simulator accesses.
* `simMain`: The simulation with caches.
* `simSafe`: The simulation without.
-/

namespace MicroArch

namespace SimCache

open Cache (Cmd Fault Geometry Hierarchy SysOp Task World sysStep created)
open Pisa (Exec FPR_L GPR Host Inst MD_FETCH_INST MD_SET_OPCODE Op SET_FPR_L SET_GPR Step Stop
  WL_BASE WR_BASE Word advance definst disp faultIf lwl lwr rr rr2 swl swr)

variable {ω φ τ α : Type}

/-- An access of memory. -/
structure Access where
  cmd : Cmd
  addr : Word
  nbytes : BitVec 32
  deriving DecidableEq

/-- What an instruction at `PC` refers to. -/
inductive Ref where
  | fetch (PC : Word)
  | data (PC : Word) (a : Access)
  | syscall (PC : Word) (as : List Access)
  deriving DecidableEq

/-- A part of an instruction, under a watcher. -/
abbrev Sim (ω φ τ α : Type) := WithWatcher (Pisa.State ω) Stop φ τ α

/-- A part that refers to nothing. -/
def exec (x : Exec ω α) : Sim ω φ τ α := Watched.lift x

section Accessors

variable (see : Watcher Ref φ τ)

/-- `__READ_CACHE`. -/
def READ_CACHE (a : Word) (nbytes : BitVec 32) : Sim ω φ τ Unit :=
  Watched.tell (fun s => .data s.regs.PC ⟨.Read, a, nbytes⟩) see

/-- `__WRITE_CACHE`. -/
def WRITE_CACHE (a : Word) (nbytes : BitVec 32) : Sim ω φ τ Unit :=
  Watched.tell (fun s => .data s.regs.PC ⟨.Write, a, nbytes⟩) see

def READ_BYTE (a : Word) : Sim ω φ τ Memory.Byte := do
  READ_CACHE see a 1
  exec (Pisa.READ_BYTE a)

def READ_HALF (a : Word) : Sim ω φ τ (BitVec 16) := do
  READ_CACHE see a 2
  exec (Pisa.READ_HALF a)

def READ_WORD (a : Word) : Sim ω φ τ Word := do
  READ_CACHE see a 4
  exec (Pisa.READ_WORD a)

def WRITE_BYTE (v : Memory.Byte) (a : Word) : Sim ω φ τ Unit := do
  WRITE_CACHE see a 1
  exec (Pisa.WRITE_BYTE v a)

def WRITE_HALF (v : BitVec 16) (a : Word) : Sim ω φ τ Unit := do
  WRITE_CACHE see a 2
  exec (Pisa.WRITE_HALF v a)

def WRITE_WORD (v : Word) (a : Word) : Sim ω φ τ Unit := do
  WRITE_CACHE see a 4
  exec (Pisa.WRITE_WORD v a)

end Accessors

/-! ### Loads and stores -/

def load (read : Word → Sim ω φ τ Word) (addr : Exec ω Word) (set : Word → Exec ω Unit) :
    Sim ω φ τ Unit := do
  exec (set (← read (← exec addr)))

section Instructions

variable (see : Watcher Ref φ τ)

def readSByte (a : Word) : Sim ω φ τ Word := do return (← READ_BYTE see a).signExtend 32
def readByte (a : Word) : Sim ω φ τ Word := do return (← READ_BYTE see a).setWidth 32
def readSHalf (a : Word) : Sim ω φ τ Word := do return (← READ_HALF see a).signExtend 32
def readHalf (a : Word) : Sim ω φ τ Word := do return (← READ_HALF see a).setWidth 32

/-- A load of two words. -/
def load2 (addr : Exec ω Word) (set : Nat → Word → Exec ω Unit) (n : Nat) : Sim ω φ τ Unit := do
  exec (faultIf (n % 2 = 1) .alignment)
  let hi ← READ_WORD see (← exec addr)
  let lo ← READ_WORD see ((← exec addr) + 4)
  exec (set n hi)
  exec (set (n + 1) lo)

def LB_IMPL (i : Inst) : Sim ω φ τ Unit := load (readSByte see) (disp i) (SET_GPR i.RT)
def LBU_IMPL (i : Inst) : Sim ω φ τ Unit := load (readByte see) (disp i) (SET_GPR i.RT)
def LH_IMPL (i : Inst) : Sim ω φ τ Unit := load (readSHalf see) (disp i) (SET_GPR i.RT)
def LHU_IMPL (i : Inst) : Sim ω φ τ Unit := load (readHalf see) (disp i) (SET_GPR i.RT)
def LW_IMPL (i : Inst) : Sim ω φ τ Unit := load (READ_WORD see) (disp i) (SET_GPR i.RT)
def DLW_IMPL (i : Inst) : Sim ω φ τ Unit := load2 see (disp i) SET_GPR i.RT
def L_S_IMPL (i : Inst) : Sim ω φ τ Unit := load (READ_WORD see) (disp i) (SET_FPR_L i.FT)
def L_D_IMPL (i : Inst) : Sim ω φ τ Unit := load2 see (disp i) SET_FPR_L i.FT
def LB_RR_IMPL (i : Inst) : Sim ω φ τ Unit := load (readSByte see) (rr i) (SET_GPR i.RT)
def LBU_RR_IMPL (i : Inst) : Sim ω φ τ Unit := load (readByte see) (rr i) (SET_GPR i.RT)
def LH_RR_IMPL (i : Inst) : Sim ω φ τ Unit := load (readSHalf see) (rr i) (SET_GPR i.RT)
def LHU_RR_IMPL (i : Inst) : Sim ω φ τ Unit := load (readHalf see) (rr i) (SET_GPR i.RT)
def LW_RR_IMPL (i : Inst) : Sim ω φ τ Unit := load (READ_WORD see) (rr i) (SET_GPR i.RT)
def DLW_RR_IMPL (i : Inst) : Sim ω φ τ Unit := load2 see (rr i) SET_GPR i.RT
def L_S_RR_IMPL (i : Inst) : Sim ω φ τ Unit := load (READ_WORD see) (rr i) (SET_FPR_L i.FT)
def L_D_RR_IMPL (i : Inst) : Sim ω φ τ Unit := load2 see (rr i) SET_FPR_L i.FT
def L_S_RR_R2_IMPL (i : Inst) : Sim ω φ τ Unit := load (READ_WORD see) (rr2 i) (SET_FPR_L i.FT)
def LW_RR_R2_IMPL (i : Inst) : Sim ω φ τ Unit := load (READ_WORD see) (rr2 i) (SET_GPR i.RT)

def store (write : Word → Word → Sim ω φ τ Unit) (src : Exec ω Word) (addr : Exec ω Word) :
    Sim ω φ τ Unit := do
  let v ← exec src
  write v (← exec addr)

/-- A store of two words. -/
def store2 (addr : Exec ω Word) (hi lo : Exec ω Word) : Sim ω φ τ Unit := do
  store (WRITE_WORD see) hi addr
  store (WRITE_WORD see) lo (do return (← addr) + 4)

def writeByte (v : Word) (a : Word) : Sim ω φ τ Unit := WRITE_BYTE see (v.setWidth 8) a
def writeHalf (v : Word) (a : Word) : Sim ω φ τ Unit := WRITE_HALF see (v.setWidth 16) a

/-- A store of a pair of registers, which starts at an even one. -/
def storePair (addr : Exec ω Word) (get : Nat → Exec ω Word) (n : Nat) : Sim ω φ τ Unit := do
  exec (faultIf (n % 2 = 1) .alignment)
  store2 see addr (get n) (get (n + 1))

def SB_IMPL (i : Inst) : Sim ω φ τ Unit := store (writeByte see) (GPR i.RT) (disp i)
def SH_IMPL (i : Inst) : Sim ω φ τ Unit := store (writeHalf see) (GPR i.RT) (disp i)
def SW_IMPL (i : Inst) : Sim ω φ τ Unit := store (WRITE_WORD see) (GPR i.RT) (disp i)
def DSW_IMPL (i : Inst) : Sim ω φ τ Unit := storePair see (disp i) GPR i.RT
def DSZ_IMPL (i : Inst) : Sim ω φ τ Unit := store2 see (disp i) (GPR 0) (GPR 0)
def S_S_IMPL (i : Inst) : Sim ω φ τ Unit := store (WRITE_WORD see) (FPR_L i.FT) (disp i)
def S_D_IMPL (i : Inst) : Sim ω φ τ Unit := storePair see (disp i) FPR_L i.FT
def SB_RR_IMPL (i : Inst) : Sim ω φ τ Unit := store (writeByte see) (GPR i.RT) (rr i)
def SH_RR_IMPL (i : Inst) : Sim ω φ τ Unit := store (writeHalf see) (GPR i.RT) (rr i)
def SW_RR_IMPL (i : Inst) : Sim ω φ τ Unit := store (WRITE_WORD see) (GPR i.RT) (rr i)
def DSW_RR_IMPL (i : Inst) : Sim ω φ τ Unit := storePair see (rr i) GPR i.RT
def DSZ_RR_IMPL (i : Inst) : Sim ω φ τ Unit := store2 see (rr i) (GPR 0) (GPR 0)
def S_S_RR_IMPL (i : Inst) : Sim ω φ τ Unit := store (WRITE_WORD see) (FPR_L i.FT) (rr i)
def S_D_RR_IMPL (i : Inst) : Sim ω φ τ Unit := storePair see (rr i) FPR_L i.FT
def S_S_RR_R2_IMPL (i : Inst) : Sim ω φ τ Unit := store (WRITE_WORD see) (FPR_L i.FT) (rr2 i)
def SW_RR_R2_IMPL (i : Inst) : Sim ω φ τ Unit := store (WRITE_WORD see) (GPR i.RT) (rr2 i)

def LWL_IMPL (i : Inst) : Sim ω φ τ Unit := do
  let a ← exec (disp i)
  let temp ← READ_WORD see (WL_BASE a)
  exec (SET_GPR i.RT (lwl a (← exec (GPR i.RT)) temp))

def LWR_IMPL (i : Inst) : Sim ω φ τ Unit := do
  let a ← exec (disp i)
  let temp ← READ_WORD see (WR_BASE a)
  exec (SET_GPR i.RT (lwr a (← exec (GPR i.RT)) temp))

def SWL_IMPL (i : Inst) : Sim ω φ τ Unit := do
  let a ← exec (disp i)
  -- The word is read through the caches before it is merged and written back.
  let temp ← READ_WORD see (WL_BASE a)
  WRITE_WORD see (swl a (← exec (GPR i.RT)) temp) (WL_BASE a)

def SWR_IMPL (i : Inst) : Sim ω φ τ Unit := do
  let a ← exec (disp i)
  let temp ← READ_WORD see (WR_BASE a)
  WRITE_WORD see (swr a (← exec (GPR i.RT)) temp) (WR_BASE a)

/-- What a system call accesses through the function it is given. -/
abbrev SysAccesses (ω : Type) := Inst → Pisa.State ω → List Access

variable (host : Host ω) (sys : SysAccesses ω)

def SYSCALL_IMPL (i : Inst) : Sim ω φ τ Unit := do
  -- The caches are flushed, or accessed, before the call has its effect.
  Watched.tell (fun s => .syscall s.regs.PC (sys i s)) see
  exec (Pisa.SYSCALL_IMPL host i)

/-- The instructions. Those that do not access memory are as they were. -/
def impl (i : Inst) : Op → Sim ω φ τ Unit
  | .LB => LB_IMPL see i
  | .LBU => LBU_IMPL see i
  | .LH => LH_IMPL see i
  | .LHU => LHU_IMPL see i
  | .LW => LW_IMPL see i
  | .DLW => DLW_IMPL see i
  | .L_S => L_S_IMPL see i
  | .L_D => L_D_IMPL see i
  | .LWL => LWL_IMPL see i
  | .LWR => LWR_IMPL see i
  | .SB => SB_IMPL see i
  | .SH => SH_IMPL see i
  | .SW => SW_IMPL see i
  | .DSW => DSW_IMPL see i
  | .DSZ => DSZ_IMPL see i
  | .S_S => S_S_IMPL see i
  | .S_D => S_D_IMPL see i
  | .SWL => SWL_IMPL see i
  | .SWR => SWR_IMPL see i
  | .LB_RR => LB_RR_IMPL see i
  | .LBU_RR => LBU_RR_IMPL see i
  | .LH_RR => LH_RR_IMPL see i
  | .LHU_RR => LHU_RR_IMPL see i
  | .LW_RR => LW_RR_IMPL see i
  | .DLW_RR => DLW_RR_IMPL see i
  | .L_S_RR => L_S_RR_IMPL see i
  | .L_D_RR => L_D_RR_IMPL see i
  | .SB_RR => SB_RR_IMPL see i
  | .SH_RR => SH_RR_IMPL see i
  | .SW_RR => SW_RR_IMPL see i
  | .DSW_RR => DSW_RR_IMPL see i
  | .DSZ_RR => DSZ_RR_IMPL see i
  | .S_S_RR => S_S_RR_IMPL see i
  | .S_D_RR => S_D_RR_IMPL see i
  | .L_S_RR_R2 => L_S_RR_R2_IMPL see i
  | .S_S_RR_R2 => S_S_RR_R2_IMPL see i
  | .LW_RR_R2 => LW_RR_R2_IMPL see i
  | .SW_RR_R2 => SW_RR_R2_IMPL see i
  | .SYSCALL => SYSCALL_IMPL see host sys i
  | op => exec (definst host i op).impl

/-! ### The loop -/

/-- A turn of the loop. The opcode is decoded after the fetch was shown. -/
def simStep : Sim ω φ τ (Step ω) := do
  exec (SET_GPR 0 0)
  -- The caches are accessed before the words are read from memory.
  Watched.tell (fun s => .fetch s.regs.PC) see
  let i ← exec MD_FETCH_INST
  let op ← exec (MD_SET_OPCODE i)
  let s ← exec get
  impl see host sys i op
  exec advance
  return ⟨i, op, s⟩

/-- A number of turns. -/
def simRun : Nat → Sim ω φ τ (List (Step ω))
  | 0 => pure []
  | n + 1 => do
      let steps ← simRun n
      return steps ++ [← simStep see host sys]

end Instructions

/-! ### The caches -/

variable {k : Nat} {G : Fin k → Geometry} {ρ : Type}

/-- The caches that the simulator accesses, where they are used, and its
    options. -/
structure Caches (k : Nat) where
  cache_il1 : Option (Fin k)
  cache_dl1 : Option (Fin k)
  cache_dl2 : Option (Fin k)
  itlb : Option (Fin k)
  dtlb : Option (Fin k)
  flush_on_syscalls : Bool
  compress_icache_addrs : Bool
  ld_text_base : Word

namespace Caches

variable (c : Caches k)

def IACOMPRESS (a : Word) : Word :=
  if c.compress_icache_addrs then ((a - c.ld_text_base) >>> 1) + c.ld_text_base else a

def ISCOMPRESS (sz : BitVec 32) : BitVec 32 :=
  if c.compress_icache_addrs then sz >>> 1 else sz

/-- A task for a cache that is used. -/
def on (cache : Option (Fin k)) (PC : Word) (task : Task) : List (SysOp k) :=
  (cache.map fun i => ⟨i, PC, task⟩).toList

/-- The fetch of an instruction. -/
def fetch (PC : Word) : List (SysOp k) :=
  -- The time of every access is 0, and its latency is not looked at.
  let task := .access .Read (c.IACOMPRESS PC) (c.ISCOMPRESS 8) 0
  on c.itlb PC task ++ on c.cache_il1 PC task

/-- An access of data. -/
def data (PC : Word) (a : Access) : List (SysOp k) :=
  let task := .access a.cmd a.addr a.nbytes 0
  on c.dtlb PC task ++ on c.cache_dl1 PC task

/-- The flush before a system call. -/
def flush (PC : Word) : List (SysOp k) :=
  on c.dtlb PC (.flush 0) ++ on c.cache_dl1 PC (.flush 0) ++ on c.cache_dl2 PC (.flush 0)

/-- What the simulator does to the caches for a reference. -/
def ops : Ref → List (SysOp k)
  | .fetch PC => c.fetch PC
  | .data PC a => c.data PC a
  -- The calls access the memory through the caches unless these are flushed.
  | .syscall PC as => if c.flush_on_syscalls then c.flush PC else as.flatMap (c.data PC)

/-- The caches as a watcher. -/
def access (H : Hierarchy k) (draw : ρ → BitVec 32 × ρ) : Watcher Ref Fault (World G ρ) :=
  fun x r => (c.ops r).foldlM (sysStep H draw) x

end Caches

/-- The start of the loop. -/
def started (s : Pisa.State ω) : Pisa.State ω := s.setRegs { s.regs with NPC := s.regs.PC + 8 }

/-- The simulation of `n` instructions on new caches. -/
def simMain (G : Fin k → Geometry) (H : Hierarchy k) (draw : ρ → BitVec 32 × ρ) (seed : ρ)
    (c : Caches k) (host : Host ω) (sys : SysAccesses ω) (n : Nat) (s : Pisa.State ω) :
    Except (Stop ⊕ Fault) (List (Step ω) × (Pisa.State ω × World G ρ)) :=
  simRun (c.access H draw) host sys n (started s, created G seed)

/-! ### Without caches -/

/-- A turn of the functional simulator. -/
def safeStep (host : Host ω) : Exec ω (Step ω) := do
  SET_GPR 0 0
  let i ← MD_FETCH_INST
  let op ← MD_SET_OPCODE i
  let s ← get
  (definst host i op).impl
  advance
  return ⟨i, op, s⟩

def safeRun (host : Host ω) : Nat → Exec ω (List (Step ω))
  | 0 => pure []
  | n + 1 => do
      let steps ← safeRun host n
      return steps ++ [← safeStep host]

/-- The simulation of `n` instructions without caches. -/
def simSafe (host : Host ω) (n : Nat) (s : Pisa.State ω) :
    Except Stop (List (Step ω) × Pisa.State ω) :=
  safeRun host n (started s)

end SimCache

end MicroArch
