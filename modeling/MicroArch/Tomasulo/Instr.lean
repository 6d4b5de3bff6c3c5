import Mathlib.Data.Fin.VecNotation
import Mathlib.Data.List.Basic
import Mathlib.Data.List.GetD
import Mathlib.Data.List.Pairwise
import Mathlib.Logic.Function.Basic
import Mathlib.Order.Basic
import Mathlib.Tactic.Common

/-!
# Instructions and Traces

The instructions the Tomasulo simulator reads and the trace that holds them
(`instr.h`, `instr.c`, and the part of `sim-safe.c` that builds the trace).

An `instruction_t` mixes what the functional simulator recorded about an
instruction with what the pipeline model writes into it. Only the first part
is here: the pipeline never changes it, so a trace is a parameter of a run.
The `Q` pointers and the four cycle stamps belong to the state of the
pipeline. The raw encoding and the program counter are only ever printed, so
they are left out.

A pointer into the trace is the position of the entry it points to, and an
opcode is the flag word `MD_OP_FLAGS` looks up for it, since no stage looks
at anything else. A register number is `none` for `DNA`.

The index of an instruction shows the order the instructions execute in, so
`Trace` carries that order with it: indices are not negative and grow along
the table. `simMain` builds a trace the way the functional simulator does, a
zeroed entry that is skipped followed by the executed instructions, numbered
from one. The numbers are those of an `int` for traces of up to 2147483647
instructions.

## Main definitions

* `Instruction`: The recorded part of an `instruction_t`.
* `Trace`: A table of instructions in execution order.
* `Trace.instr`: The entry a pointer points to.
* `usesIntFU`, `usesFPFU`, `writesCDB`, `isTrap`: The opcode classes.
* `Trace.InStation`: The instruction is one that reservation stations hold.
* `Trace.Writes`: The instruction has the register among its outputs.
* `simMain`: The trace of a list of executed instructions.

## Theorems

* `instr_index_nonneg`: No index is the `-1` sentinel of the scans.
* `instr_index_lt`: Indices follow positions.
* `simMain_instr`: The executed instructions stand at positions one onwards.
-/

namespace MicroArch

namespace Tomasulo

/-- Integer, floating point and control registers, plus the dependence
    decoders for temporaries, memory and control. -/
def MD_TOTAL_REGS : Nat := 32 + 32 + 3 + 1 + 1 + 1

-- The literals of the index types get their meaning from one instance each.
scoped instance neZero_regs : @NeZero Nat Zero.ofOfNat0 MD_TOTAL_REGS := ⟨by decide⟩
scoped instance neZero_outputs : @NeZero Nat Zero.ofOfNat0 2 := ⟨by decide⟩

/-- A register number, `none` for `DNA`. -/
abbrev Reg := Option (Fin MD_TOTAL_REGS)

/-- The flag word of an opcode. -/
abbrev OpFlags := BitVec 32

def F_ICOMP : OpFlags := 0x00000001
def F_FCOMP : OpFlags := 0x00000002
def F_CTRL : OpFlags := 0x00000004
def F_UNCOND : OpFlags := 0x00000008
def F_MEM : OpFlags := 0x00000020
def F_LOAD : OpFlags := 0x00000040
def F_STORE : OpFlags := 0x00000080
def F_DISP : OpFlags := 0x00000100
def F_TRAP : OpFlags := 0x00000800
def F_DIRJMP : OpFlags := 0x00002000
def F_CALL : OpFlags := 0x00008000

/-- Floating-point computation. -/
def isFComp (op : OpFlags) : Bool := op &&& F_FCOMP != 0

/-- Integer computation. -/
def isIComp (op : OpFlags) : Bool := op &&& F_ICOMP != 0

/-- Load instruction. -/
def isLoad (op : OpFlags) : Bool := op &&& F_LOAD != 0

/-- Store instruction. -/
def isStore (op : OpFlags) : Bool := op &&& F_STORE != 0

/-- Trap instruction. -/
def isTrap (op : OpFlags) : Bool := op &&& F_TRAP != 0

def usesIntFU (op : OpFlags) : Bool := isIComp op || isLoad op || isStore op
def usesFPFU (op : OpFlags) : Bool := isFComp op
def writesCDB (op : OpFlags) : Bool := isIComp op || isLoad op || isFComp op

/-- The recorded part of an instruction. -/
structure Instruction where
  /-- The order the instructions execute in. -/
  index : Int
  rOut : Fin 2 → Reg
  rIn : Fin 3 → Reg
  op : OpFlags

/-- An entry of a zeroed table: opcode zero has no flags, and register
    fields of zero name register zero rather than `DNA`. -/
def Instruction.zeroed : Instruction :=
  { index := 0, rOut := fun _ => some 0, rIn := fun _ => some 0, op := 0 }

/-- A trace: its entries are numbered in execution order. -/
structure Trace where
  table : List Instruction
  index_nonneg : ∀ i ∈ table, 0 ≤ i.index
  index_lt : table.Pairwise fun i j => i.index < j.index

/-- The entry at a position; past the recorded ones the table is zeroed. -/
def Trace.instr (trace : Trace) (p : Nat) : Instruction := trace.table.getD p Instruction.zeroed

/-- A pointer to the entry at the given index of the table. -/
def getInstr (_trace : Trace) (index : Nat) : Nat := index

theorem instr_index_nonneg (trace : Trace) (p : Nat) : 0 ≤ (trace.instr p).index := by
  unfold Trace.instr
  rcases Nat.lt_or_ge p trace.table.length with hp | hp
  · rw [List.getD_eq_getElem _ _ hp]
    exact trace.index_nonneg _ (List.getElem_mem hp)
  · -- Past the recorded entries the index is zero.
    rw [List.getD_eq_default _ _ hp]
    exact Int.le_refl _

/-- An entry with a flag set is one of the recorded ones. -/
theorem lt_length_of_op (trace : Trace) (p : Nat) (h : (trace.instr p).op ≠ 0) :
    p < trace.table.length := by
  by_contra hp
  refine h ?_
  rw [Trace.instr, List.getD_eq_default _ _ (by omega)]
  rfl

theorem instr_index_lt (trace : Trace) (p q : Nat) (hpq : p < q) (hq : (trace.instr q).op ≠ 0) :
    (trace.instr p).index < (trace.instr q).index := by
  have hlen := lt_length_of_op trace q hq
  unfold Trace.instr
  rw [List.getD_eq_getElem _ _ (by omega : p < trace.table.length), List.getD_eq_getElem _ _ hlen]
  exact List.pairwise_iff_getElem.mp trace.index_lt p q (by omega) hlen hpq

/-- The class of instructions that wait for an integer unit. -/
def Trace.IntClass (trace : Trace) (p : Nat) : Prop :=
  isTrap (trace.instr p).op = false ∧ usesIntFU (trace.instr p).op = true

/-- The class of instructions that wait for the floating-point unit. -/
def Trace.FPClass (trace : Trace) (p : Nat) : Prop :=
  isTrap (trace.instr p).op = false ∧ usesIntFU (trace.instr p).op = false ∧
    usesFPFU (trace.instr p).op = true

/-- An instruction that goes through a reservation station: it is fetched
    into the queue and uses a functional unit. -/
def Trace.InStation (trace : Trace) (p : Nat) : Prop :=
  isTrap (trace.instr p).op = false ∧
    (usesIntFU (trace.instr p).op = true ∨ usesFPFU (trace.instr p).op = true)

/-- The instruction has `r` among its output registers. -/
def Trace.Writes (trace : Trace) (r : Fin MD_TOTAL_REGS) (p : Nat) : Prop :=
  ∃ o, (trace.instr p).rOut o = some r

instance (trace : Trace) (p : Nat) : Decidable (trace.IntClass p) :=
  inferInstanceAs (Decidable (_ ∧ _))

instance (trace : Trace) (p : Nat) : Decidable (trace.FPClass p) :=
  inferInstanceAs (Decidable (_ ∧ _))

instance (trace : Trace) (p : Nat) : Decidable (trace.InStation p) :=
  inferInstanceAs (Decidable (_ ∧ _))

instance (trace : Trace) (r : Fin MD_TOTAL_REGS) (p : Nat) : Decidable (trace.Writes r p) :=
  inferInstanceAs (Decidable (∃ _, _))

theorem inStation_iff (trace : Trace) (p : Nat) :
    trace.InStation p ↔ trace.IntClass p ∨ trace.FPClass p := by
  unfold Trace.InStation Trace.IntClass Trace.FPClass
  rcases usesIntFU (trace.instr p).op <;> simp

theorem not_fpClass_of_intClass {trace : Trace} {p : Nat} (h : trace.IntClass p) :
    ¬ trace.FPClass p := by
  intro hcase
  rcases hcase with ⟨-, hint, -⟩
  rw [h.2] at hint
  exact absurd hint (by simp only [reduceCtorEq, not_false_eq_true])

theorem op_ne_zero_of_inStation {trace : Trace} {p : Nat} (h : trace.InStation p) :
    (trace.instr p).op ≠ 0 := by
  intro hop
  rcases h with ⟨-, h | h⟩ <;> rw [hop] at h <;> revert h <;> decide

/-- Every instruction held in a station that has an output register writes
    the bus, as the instruction set guarantees. -/
def Trace.WritersBroadcast (trace : Trace) : Prop :=
  ∀ p, trace.InStation p → (∃ r, trace.Writes r p) → writesCDB (trace.instr p).op = true

/-- Only the recorded entries can be in a station, so the table decides. -/
instance (trace : Trace) : Decidable trace.WritersBroadcast :=
  decidable_of_iff (∀ p < trace.table.length, trace.InStation p → (∃ r, trace.Writes r p) →
      writesCDB (trace.instr p).op = true)
    ⟨fun h p hp hr => h p (lt_length_of_op trace p (op_ne_zero_of_inStation hp)) hp hr,
      fun h p _ => h p⟩

/-- What one step of the functional simulator records. -/
structure Executed where
  op : OpFlags
  rOut : Fin 2 → Reg
  rIn : Fin 3 → Reg

/-! A few rows of the instruction table, for the runs on fixed programs. -/

def ADD (rd rs rt : Fin MD_TOTAL_REGS) : Executed :=
  { op := F_ICOMP, rOut := ![some rd, none], rIn := ![some rs, some rt, none] }

def LW (rt bs : Fin MD_TOTAL_REGS) : Executed :=
  { op := F_MEM ||| F_LOAD ||| F_DISP, rOut := ![some rt, none], rIn := ![none, some bs, none] }

def SW (rt bs : Fin MD_TOTAL_REGS) : Executed :=
  { op := F_MEM ||| F_STORE ||| F_DISP, rOut := ![none, none], rIn := ![some rt, some bs, none] }

def FADD_S (fd fs ft : Fin MD_TOTAL_REGS) : Executed :=
  { op := F_FCOMP, rOut := ![some fd, none], rIn := ![some fs, some ft, none] }

def JAL : Executed :=
  { op := F_CTRL ||| F_UNCOND ||| F_DIRJMP ||| F_CALL, rOut := ![some 31, none],
    rIn := ![none, none, none] }

def SYSCALL : Executed :=
  { op := F_TRAP, rOut := ![none, none], rIn := ![none, none, none] }

/-- The entry for the `k`-th executed instruction. -/
def Executed.entry (k : Nat) (e : Executed) : Instruction :=
  { index := k, rOut := e.rOut, rIn := e.rIn, op := e.op }

/-- The trace the functional simulator builds: the first entry is skipped and
    stays zeroed, and `sim_num_insn` counts up before each instruction. -/
def simMain (insns : List Executed) : Trace where
  table := Instruction.zeroed :: insns.mapIdx fun k e => e.entry (k + 1)
  -- The skipped entry has index 0, the `k`-th instruction `k + 1`.
  index_nonneg := by
    intro i hi
    rcases List.mem_cons.mp hi with rfl | hi
    · exact Int.le_refl _
    · rcases List.mem_mapIdx.mp hi with ⟨k, hk, rfl⟩
      exact Int.natCast_nonneg _
  index_lt := by
    refine List.pairwise_cons.mpr ⟨fun i hi => ?_, List.pairwise_iff_getElem.mpr ?_⟩
    · rcases List.mem_mapIdx.mp hi with ⟨k, hk, rfl⟩
      simp only [Instruction.zeroed, Executed.entry]
      omega
    · intro i j hi hj hij
      simp only [List.getElem_mapIdx, Executed.entry]
      omega

theorem simMain_instr (insns : List Executed) (k : Nat) (hk : k < insns.length) :
    (simMain insns).instr (k + 1) = insns[k].entry (k + 1) := by
  have hlen : k + 1 < (simMain insns).table.length := by
    simp only [simMain, List.length_cons, List.length_mapIdx]
    omega
  rw [Trace.instr, List.getD_eq_getElem _ _ hlen]
  simp only [simMain, List.getElem_cons_succ, List.getElem_mapIdx]

end Tomasulo

end MicroArch
