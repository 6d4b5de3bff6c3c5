import Mathlib.Data.Fintype.EquivFin
import Mathlib.Data.Fintype.Sigma
import Mathlib.Data.Fintype.Sum
import Mathlib.Tactic.DeriveFintype
import MicroArch.Library.Slots
import MicroArch.Tomasulo.Instr

/-!
# The Pipeline Stages

The state of the Tomasulo pipeline and its stage functions, as `tomasulo.c`
has them.

The state collects the file's static variables and, for every instruction of
the trace, the fields the pipeline writes: the `Q` pointers and the four
cycle stamps. Arrays are functions on their index range. The size of the
fetch queue is a separate integer in the source and stays one here, so that
nothing but an invariant ties it to the contents. The index of the next fetch
is an `int` in the source and a number here; fetching stops when it reaches the
number of instructions, so it does not overflow.

A `for` loop whose iterations touch cells of their own is one update of the
whole array, `Slots.drop` being the loop that clears every copy of a pointer.
The loops that carry something from one iteration to the next, the running
minimum of the arbitration and the filling of the free units, are folds over
the index range in the order of the source. In `finishINT` the minimum search
and the removal of finished stores share a loop, so they share a fold.

## Main definitions

* `State`: The pipeline state.
* `FuSlot`: A slot of a functional unit.
* `cdbToRetire`: Releases what waits for the instruction on the bus.
* `executeToCDB`: Stores leave, and the oldest finished writer takes the bus.
* `issueToExecute`: Free units take the oldest ready instruction.
* `dispatchToIssue`: The queue's head moves to a reservation station.
* `fetchToDispatch`: The next trace entry is appended to the queue.
* `isSimulationDone`: The end test, with its side effect on fetching.
-/

namespace MicroArch

namespace Tomasulo

abbrev INSTR_QUEUE_SIZE : Nat := 10
abbrev RESERV_INT_SIZE : Nat := 4
abbrev RESERV_FP_SIZE : Nat := 2
abbrev FU_INT_SIZE : Nat := 2
abbrev FU_FP_SIZE : Nat := 1
abbrev FU_INT_LATENCY : Nat := 4
abbrev FU_FP_LATENCY : Nat := 9

scoped instance neZero_queue : @NeZero Nat Zero.ofOfNat0 INSTR_QUEUE_SIZE := ⟨by decide⟩

/-- The static variables of the pipeline and the mutable fields of the
    instructions. -/
structure State where
  instrQueue : Fin INSTR_QUEUE_SIZE → Option Nat
  instrQueueSize : Int
  reservINT : Fin RESERV_INT_SIZE → Option Nat
  reservFP : Fin RESERV_FP_SIZE → Option Nat
  fuINT : Fin FU_INT_SIZE → Option Nat
  fuFP : Fin FU_FP_SIZE → Option Nat
  commonDataBus : Option Nat
  mapTable : Fin MD_TOTAL_REGS → Option Nat
  fetchIndex : Nat
  dontFetch : Bool
  Q : Nat → Fin 3 → Option Nat
  tomDispatchCycle : Nat → Nat
  tomIssueCycle : Nat → Nat
  tomExecuteCycle : Nat → Nat
  tomCdbCycle : Nat → Nat

/-- The state `runTomasulo` enters its loop with. -/
def State.initial : State :=
  { instrQueue := fun _ => none, instrQueueSize := 0,
    reservINT := fun _ => none, reservFP := fun _ => none,
    fuINT := fun _ => none, fuFP := fun _ => none, commonDataBus := none,
    mapTable := fun _ => none, fetchIndex := 0, dontFetch := false,
    Q := fun _ _ => none, tomDispatchCycle := fun _ => 0, tomIssueCycle := fun _ => 0,
    tomExecuteCycle := fun _ => 0, tomCdbCycle := fun _ => 0 }

/-- The instruction is in a reservation station. -/
def State.Held (s : State) (p : Nat) : Prop :=
  Slots.Holds s.reservINT p ∨ Slots.Holds s.reservFP p

instance (s : State) (p : Nat) : Decidable (s.Held p) := inferInstanceAs (Decidable (_ ∨ _))

/-- A slot of a functional unit. -/
inductive FuSlot where
  | int (i : Fin FU_INT_SIZE)
  | fp (i : Fin FU_FP_SIZE)
  deriving DecidableEq, Fintype

/-- What a functional unit slot holds. -/
def State.unit (s : State) : FuSlot → Option Nat
  | .int i => s.fuINT i
  | .fp i => s.fuFP i

/-- The state with a slot of a functional unit overwritten. -/
def State.setUnit (s : State) (u : FuSlot) (v : Option Nat) : State :=
  match u with
  | .int i => { s with fuINT := Function.update s.fuINT i v }
  | .fp i => { s with fuFP := Function.update s.fuFP i v }

/-- The stations that feed a slot hold the instruction. -/
def State.HeldFor (s : State) (u : FuSlot) (p : Nat) : Prop :=
  match u with
  | .int _ => Slots.Holds s.reservINT p
  | .fp _ => Slots.Holds s.reservFP p

/-- The stations that feed a slot no longer hold the instruction. -/
def State.dropFor (s : State) (u : FuSlot) (p : Nat) : State :=
  match u with
  | .int _ => { s with reservINT := Slots.drop p s.reservINT }
  | .fp _ => { s with reservFP := Slots.drop p s.reservFP }

/-- The latency of a slot's unit. -/
def FuSlot.latency : FuSlot → Nat
  | .int _ => FU_INT_LATENCY
  | .fp _ => FU_FP_LATENCY

/-- All operands have arrived. -/
def State.ready (s : State) (p : Nat) : Bool :=
  (s.Q p 0).isNone && (s.Q p 1).isNone && (s.Q p 2).isNone

/-- The index of an instruction, the key of every age comparison. -/
def Trace.age (trace : Trace) (p : Nat) : Int := (trace.instr p).index

/-- Retires the instruction on the bus: every pointer to it in a reservation
    station or in the map table is cleared, then the bus is free. -/
def cdbToRetire (s : State) : State :=
  match s.commonDataBus with
  | none => { s with commonDataBus := none }
  | some bus =>
    { s with
      -- The loops visit the stations, so pointers of instructions elsewhere stay.
      Q := fun p j => if s.Held p ∧ s.Q p j = some bus then none else s.Q p j
      mapTable := Slots.drop bus s.mapTable
      commonDataBus := none }

/-- The occupant of a slot has been executing for the unit's latency. -/
def State.finished (s : State) (currentCycle : Nat) (u : FuSlot) (p : Nat) : Bool :=
  decide (currentCycle ≥ s.tomExecuteCycle p + u.latency)

/-- One iteration over the integer units: a finished instruction that does
    not write the bus leaves its station and the unit, any other finished one
    is compared with the oldest so far. -/
def finishINT (trace : Trace) (currentCycle : Nat) (acc : State × Slots.Oldest FuSlot)
    (i : Fin FU_INT_SIZE) : State × Slots.Oldest FuSlot :=
  match acc.1.fuINT i with
  | none => acc
  | some p =>
    if acc.1.finished currentCycle (.int i) p then
      if writesCDB (trace.instr p).op then
        (acc.1, Slots.offer trace.age (.int i) p acc.2)
      -- The store leaves in the loop that looks for the oldest writer.
      else ((acc.1.dropFor (.int i) p).setUnit (.int i) none, acc.2)
    else acc

/-- One iteration over the floating-point units, where every instruction
    writes the bus. -/
def finishFP (trace : Trace) (currentCycle : Nat) (acc : State × Slots.Oldest FuSlot)
    (i : Fin FU_FP_SIZE) : State × Slots.Oldest FuSlot :=
  match acc.1.fuFP i with
  | none => acc
  | some p =>
    if acc.1.finished currentCycle (.fp i) p then
      (acc.1, Slots.offer trace.age (.fp i) p acc.2)
    else acc

/-- The instruction in a slot goes on the bus and leaves the slot and its
    station. -/
def broadcast (currentCycle : Nat) (s : State) (u : FuSlot) : State :=
  match s.unit u with
  | none => s
  | some p =>
    { (s.dropFor u p).setUnit u none with
      tomCdbCycle := Function.update s.tomCdbCycle p currentCycle
      commonDataBus := some p }

/-- Moves the oldest finished instruction to the bus. -/
def executeToCDB (trace : Trace) (currentCycle : Nat) (s : State) : State :=
  let scannedINT := (List.finRange FU_INT_SIZE).foldl (finishINT trace currentCycle)
    (s, Slots.Oldest.start)
  let scanned := (List.finRange FU_FP_SIZE).foldl (finishFP trace currentCycle) scannedINT
  -- The floating-point units are scanned with the minimum of the integer ones.
  match scanned.2.found with
  | none => scanned.1
  | some station => broadcast currentCycle scanned.1 station

/-- The oldest instruction of a class of stations whose operands have all
    arrived. An instruction that is already executing is still in its
    station, and is not told apart from one that is not. -/
def oldestReady {n : Nat} (trace : Trace) (s : State) (reserv : Fin n → Option Nat) :
    Option Nat :=
  (Slots.scanOldest trace.age s.ready id reserv Slots.Oldest.start).found.bind reserv

/-- The instruction a slot would take if it is free. -/
def State.candidate (trace : Trace) (s : State) : FuSlot → Option Nat
  | .int _ => oldestReady trace s s.reservINT
  | .fp _ => oldestReady trace s s.reservFP

/-- A free slot takes the oldest ready instruction of its stations. -/
def start (trace : Trace) (currentCycle : Nat) (s : State) (u : FuSlot) : State :=
  match s.unit u with
  | some _ => s
  | none =>
    match s.candidate trace u with
    | none => s
    | some p =>
      -- The instruction stays in its station until it has finished.
      { s.setUnit u (some p) with
        tomExecuteCycle := Function.update s.tomExecuteCycle p currentCycle }

/-- Moves ready instructions to the functional units that are free, integer
    units first. -/
def issueToExecute (trace : Trace) (currentCycle : Nat) (s : State) : State :=
  let startedINT := (List.finRange FU_INT_SIZE).foldl
    (fun s i => start trace currentCycle s (.int i)) s
  (List.finRange FU_FP_SIZE).foldl (fun s i => start trace currentCycle s (.fp i)) startedINT

/-- The queue moves up by one. -/
def shiftQueue (s : State) : State :=
  { s with
    instrQueue := fun j =>
      if h : j.val + 1 < INSTR_QUEUE_SIZE then s.instrQueue ⟨j + 1, h⟩ else none
    instrQueueSize := s.instrQueueSize - 1 }

/-- An output register is now produced by `head`. -/
def produce (head : Nat) (r : Reg) (mapTable : Fin MD_TOTAL_REGS → Option Nat) :
    Fin MD_TOTAL_REGS → Option Nat :=
  match r with
  | some r => Function.update mapTable r (some head)
  | none => mapTable

/-- The producers of the head's inputs are captured, then the head becomes
    the producer of its outputs. -/
def rename (trace : Trace) (currentCycle : Nat) (head : Nat) (s : State) : State :=
  { s with
    tomIssueCycle := Function.update s.tomIssueCycle head currentCycle
    Q := Function.update s.Q head fun j => match (trace.instr head).rIn j with
      | some r => s.mapTable r
      | none => none
    -- The inputs were read before, so an instruction does not wait for itself.
    mapTable := produce head ((trace.instr head).rOut 1)
      (produce head ((trace.instr head).rOut 0) s.mapTable) }

/-- Moves the head of the queue to the first free station of its class, or
    out of the pipeline when it needs none. -/
def dispatchToIssue (trace : Trace) (currentCycle : Nat) (s : State) : State :=
  match s.instrQueue 0 with
  | none => s
  | some head =>
    -- Without a free station of its class the head blocks the queue.
    if usesIntFU (trace.instr head).op then
      match Slots.firstFree s.reservINT with
      | none => s
      | some i => shiftQueue (rename trace currentCycle head
          { s with reservINT := Function.update s.reservINT i (some head) })
    else if usesFPFU (trace.instr head).op then
      match Slots.firstFree s.reservFP with
      | none => s
      | some i => shiftQueue (rename trace currentCycle head
          { s with reservFP := Function.update s.reservFP i (some head) })
    -- Branches are never executed, and traps are never queued.
    else shiftQueue s

/-- Writes the first unused cell of the queue. -/
def appendQueue (s : State) (instr : Nat) : State :=
  { s with
    instrQueue := fun j => if (j.val : Int) = s.instrQueueSize then some instr else s.instrQueue j
    instrQueueSize := s.instrQueueSize + 1 }

/-- Reads the next trace entry, unless the queue is full or fetching has
    ended. A trap is read but not queued. -/
def fetchToDispatch (trace : Trace) (currentCycle : Nat) (s : State) : State :=
  if s.instrQueueSize ≠ INSTR_QUEUE_SIZE ∧ s.dontFetch = false then
    let instr := getInstr trace s.fetchIndex
    let fetched := { s with fetchIndex := s.fetchIndex + 1 }
    -- A trap is stamped as if it had been queued.
    let queued := if isTrap (trace.instr instr).op then fetched else appendQueue fetched instr
    { queued with tomDispatchCycle := Function.update queued.tomDispatchCycle instr currentCycle }
  else s

/-- Everything in the pipeline has drained. -/
def State.Empty (s : State) : Prop :=
  (∀ i, s.instrQueue i = none) ∧ (∀ i, s.reservINT i = none) ∧ (∀ i, s.reservFP i = none) ∧
    (∀ i, s.fuINT i = none) ∧ (∀ i, s.fuFP i = none) ∧ s.commonDataBus = none

instance (s : State) : Decidable s.Empty := inferInstanceAs (Decidable (_ ∧ _))

/-- Whether the last instruction has finished. Once everything has been
    fetched, fetching stops. -/
def isSimulationDone (simInsn : Nat) (s : State) : Bool × State :=
  if s.fetchIndex ≥ simInsn then
    -- Fetching is stopped from the cycle on in which the last entry was read.
    (decide s.Empty, { s with dontFetch := true })
  else (false, s)

end Tomasulo

end MicroArch
