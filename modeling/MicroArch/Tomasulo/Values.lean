import Mathlib.Tactic.FinCases
import MicroArch.Library.InOrder
import MicroArch.Tomasulo.Execution

/-!
# Values

What the pipeline is for: executing out of order and computing what execution
in order computes.

The simulator counts cycles and has no values. Here every instruction is given
a meaning, any function from the values of its operands to those of its output
registers, and a run is annotated with the values that go where the pointers
of the pipeline say. A station takes an operand from the register file if the
map table has no producer for it, and otherwise from the bus when the producer
it waits for is there. A unit computes from the operands in the station when
it takes an instruction. The register file is written when an instruction
retires that the map table still names. Nothing of the run depends on the
annotation.

The invariant `Carried` says where the values of in-order execution are. A
pointer that is not cleared yet names the producer, by `Dataflow`, so what
arrives through it is what the producer has computed, and a register without a
pointer has the value of its latest writer.

Only instructions that go through a station execute. The ones that do not,
such as jumps and traps, are no part of the reference either: in order, too, a
jump that links leaves its register as it was. What reads the register then
gets the value of the last instruction with a station that wrote it, which is
not what the program means. So the reference is execution in order of the
station instructions, and execution of the program where no other instruction
writes a register.

## Main definitions

* `Meaning`: What the instructions compute.
* `Trace.code`: A trace with a meaning, for execution in order.
* `Values`: The register file, the operands in the stations and the results.
* `runValues`: The values along a run.
* `Carried`: The values are those of execution in order.

## Theorems

* `carried_retire`, `carried_issue`, `carried_capture`: The stages that move
  values keep the invariant.
* `carried_runTomasulo`: It holds in every configuration of a run.
* `operands_in_order`: What a unit takes, and the bus carries, is right.
* `regFile_returned`, `registers_in_order`: When the loop has ended, the
  register file is the one that execution in order leaves.
-/

namespace MicroArch

namespace Tomasulo

open Latest

variable {V : Type} {trace : Trace} {simInsn : Nat}

/-- What each instruction computes for its output registers, from the values
    of its inputs. -/
abbrev Meaning (V : Type) := Nat → (Fin 3 → Option V) → Fin MD_TOTAL_REGS → V

/-- The instructions that go through stations, as a program. -/
def Trace.code (trace : Trace) (f : Meaning V) : InOrder.Code (Fin MD_TOTAL_REGS) (Fin 3) V :=
  { reads := fun p => (trace.instr p).rIn, writes := trace.StationWriter, result := f }

instance (trace : Trace) (f : Meaning V) (r : Fin MD_TOTAL_REGS) :
    DecidablePred ((trace.code f).writes r) :=
  inferInstanceAs (DecidablePred (trace.StationWriter r))

/-- The values in the pipeline. -/
@[ext] structure Values (V : Type) where
  regFile : Fin MD_TOTAL_REGS → V
  /-- The operands that an instruction in a station has received. -/
  operand : Nat → Fin 3 → Option V
  /-- What an instruction in a unit or on the bus has computed. -/
  result : Nat → Fin MD_TOTAL_REGS → V

namespace Values

variable (trace) (f : Meaning V) (s s' : State) (v : Values V)

/-- What is on the bus goes to everybody whose pointer is cleared. -/
def retire : Values V :=
  match s.commonDataBus with
  | none => v
  | some bus =>
    { v with
      operand := fun p j => if s.Held p ∧ s.Q p j = some bus then
        ((trace.instr p).rIn j).map (v.result bus) else v.operand p j
      regFile := fun r => if s.mapTable r = some bus then v.result bus r else v.regFile r }

/-- A unit that takes an instruction computes its result. -/
def issue : Values V :=
  { v with
    result := fun p =>
      if ∃ u, s.unit u = none ∧ s'.unit u = some p then f p (v.operand p) else v.result p }

/-- An instruction that enters a station reads the registers that nobody is
    going to write. -/
def dispatch : Values V :=
  { v with
    operand := fun p j => if ¬ s.Held p ∧ s'.Held p then
      ((trace.instr p).rIn j).bind fun r => if s.mapTable r = none then some (v.regFile r) else none
      else v.operand p j }

/-- The values after one stage. -/
def step (simInsn : Nat) (c : Config) : Values V :=
  let s' := (Tomasulo.step trace simInsn c).state
  match c.stage with
  | .cdbToRetire => retire trace c.state v
  | .issueToExecute => issue f c.state s' v
  | .dispatchToIssue => dispatch trace c.state s' v
  | _ => v

/-- The values before the program starts. -/
def initial (init : Fin MD_TOTAL_REGS → V) : Values V :=
  { regFile := init, operand := fun _ _ => none, result := fun _ => init }

end Values

/-- The values along a run. -/
def runValues (trace : Trace) (simInsn : Nat) (f : Meaning V) (init : Fin MD_TOTAL_REGS → V) :
    Nat → Values V
  | 0 => Values.initial init
  | n + 1 =>
      (runValues trace simInsn f init n).step trace f simInsn (runTomasulo trace simInsn n)

/-! ### The invariant -/

/-- Where the values of in-order execution are: in the register file, as of
    the front, for a register nobody is going to write; in a station, for an
    operand that has arrived; and with every instruction in a unit or on the
    bus. -/
structure Carried (trace : Trace) (f : Meaning V) (init : Fin MD_TOTAL_REGS → V) (s : State)
    (v : Values V) : Prop where
  regFile : ∀ r, s.mapTable r = none → v.regFile r = (trace.code f).regs init s.front r
  operand : ∀ p j, s.Held p → s.Q p j = none →
    v.operand p j = (trace.code f).operands init p j
  unit : ∀ u p, s.unit u = some p → v.result p = (trace.code f).value init p
  bus : ∀ p, s.commonDataBus = some p → v.result p = (trace.code f).value init p

section Stages

variable {f : Meaning V} {init : Fin MD_TOTAL_REGS → V} {s s' : State} {v : Values V} {cc : Nat}

theorem carried_initial (trace : Trace) (f : Meaning V) (init : Fin MD_TOTAL_REGS → V) :
    Carried trace f init State.initial (Values.initial init) where
  regFile _ _ := rfl
  operand p j h := by
    rcases h with ⟨i, hi⟩ | ⟨i, hi⟩ <;> simp [State.initial] at hi
  unit u p h := by cases u <;> simp [State.unit, State.initial] at h
  bus p h := by simp [State.initial] at h

/-- A register has the value its producer has computed. -/
theorem regs_of_producer {r : Fin MD_TOTAL_REGS} {n q : Nat} (h : trace.producer r n = some q) :
    (trace.code f).regs init n r = (trace.code f).value init q r :=
  InOrder.Code.regs_of_latest h

theorem Q_of_ready {p : Nat} (h : s.ready p = true) (j : Fin 3) : s.Q p j = none := by
  simp only [State.ready, Bool.and_eq_true, Option.isNone_iff_eq_none] at h
  fin_cases j
  · exact h.1.1
  · exact h.1.2
  · exact h.2

/-- A stage that moves no value: it puts nobody new in a station, a unit or
    on the bus and passes no producer. -/
theorem Carried.congr (h : Carried trace f init s v)
    (hmap : s'.mapTable = s.mapTable) (hQ : s'.Q = s.Q)
    (hfront : ∀ r, trace.producer r s'.front = trace.producer r s.front)
    (hheld : ∀ p, s'.Held p → s.Held p)
    (hunit : ∀ u p, s'.unit u = some p → s.unit u = some p)
    (hbus : ∀ p, s'.commonDataBus = some p →
      s.commonDataBus = some p ∨ ∃ u, s.unit u = some p) : Carried trace f init s' v where
  regFile r hr := by
    rw [hmap] at hr
    rw [h.regFile r hr]
    exact InOrder.Code.regs_congr (hfront r).symm
  operand p j hp hq := by
    rw [hQ] at hq
    exact h.operand p j (hheld p hp) hq
  unit u p hp := h.unit u p (hunit u p hp)
  bus p hp := by
    rcases hbus p hp with hb | ⟨u, hu⟩
    · exact h.bus p hb
    · exact h.unit u p hu

/-- A pointer that is cleared named the producer, whose result is on the
    bus. -/
theorem carried_retire {sent : Nat → Prop} (hd : Dataflow trace sent s)
    (h : Carried trace f init s v) :
    Carried trace f init (cdbToRetire s) (v.retire trace s) := by
  -- The stage reads nothing but the bus.
  cases hb : s.commonDataBus with
  | none =>
      have hsame : cdbToRetire s = s := by
        rw [cdbToRetire, hb]
        simp [← hb]
      rw [hsame, Values.retire, hb]
      exact h
  | some bus =>
      have hres := h.bus bus hb
      have hfront : (cdbToRetire s).front = s.front := by
        rw [cdbToRetire_frame]
        rfl
      refine ⟨fun r hr => ?_, fun p j hp hq => ?_, fun u p hu => ?_, fun p hp => ?_⟩
      · rw [cdbToRetire_mapTable, hb] at hr
        simp only [Values.retire, hb, hfront]
        -- Registers whose pointer is cleared take the value on the bus. The pointer named the last
        -- writer in front, so this is its value in order as well.
        by_cases hm : s.mapTable r = some bus
        · rw [if_pos hm, hres, regs_of_producer (hd.mapTable r bus hm)]
        · rw [if_neg hm] at hr ⊢
          exact h.regFile r hr
      · rw [cdbToRetire_held] at hp
        rw [cdbToRetire_Q, hb] at hq
        simp only [Values.retire, hb]
        -- A station takes the value when its tag is the instruction on the bus.
        by_cases hw : s.Held p ∧ s.Q p j = some bus
        · rcases hd.waits p j bus hp hw.2 with ⟨r, hr, hprod⟩
          rw [if_pos hw, hres]
          change _ = ((trace.instr p).rIn j).map _
          rw [hr, Option.map_some, Option.map_some, regs_of_producer hprod]
        · rw [if_neg hw] at hq ⊢
          exact h.operand p j hp hq
      · rw [cdbToRetire_unit] at hu
        simpa only [Values.retire, hb] using h.unit u p hu
      · rw [cdbToRetire_commonDataBus] at hp
        exact absurd hp (by simp)

/-- What goes on the bus comes from a unit. -/
theorem carried_execute {winner : Option (FuSlot × Nat)}
    (e : CDBEffect trace cc s s' winner) (ho : Occupancy trace s)
    (h : Carried trace f init s v) : Carried trace f init s' v := by
  refine h.congr (by rw [e.frame]) (by rw [e.frame]) (fun r => by rw [e.front])
    (fun p hp => ((e.held ho p).mp hp).1) (fun u p hu => ((e.unit u p).mp hu).1) fun p hp => ?_
  rw [e.bus] at hp
  -- A result is on the bus because it was there already, or because its unit has won.
  cases hw : winner with
  | none =>
      rw [hw] at hp
      exact .inl hp
  | some uq =>
      rw [hw] at hp
      simp only [Option.map_some, Option.some_or, Option.some.injEq] at hp
      refine .inr ⟨uq.1, ?_⟩
      rw [← hp]
      exact (e.oldest uq.1 uq.2 hw).1.1

/-- An instruction is taken when all its operands have arrived. -/
theorem carried_issue (h : Carried trace f init s v) :
    Carried trace f init (issueToExecute trace cc s)
      (v.issue f s (issueToExecute trace cc s)) := by
  have hmap : (issueToExecute trace cc s).mapTable = s.mapTable := by rw [issueToExecute_frame]
  have hQ : (issueToExecute trace cc s).Q = s.Q := by rw [issueToExecute_frame]
  have hfront : (issueToExecute trace cc s).front = s.front := by
    rw [issueToExecute_frame]
    rfl
  have hbus : (issueToExecute trace cc s).commonDataBus = s.commonDataBus := by
    rw [issueToExecute_frame]
  -- Whoever is taken, now or a second time, computes the value of in-order execution.
  have hnew : ∀ p, (∃ u, s.unit u = none ∧ (issueToExecute trace cc s).unit u = some p) →
      f p (v.operand p) = (trace.code f).value init p := by
    rintro p ⟨u, hnone, hsome⟩
    rw [issueToExecute_unit, hnone, Option.none_or] at hsome
    rcases candidate_facts hsome with ⟨hfor, hready⟩
    have hnull := Q_of_ready hready
    have hops : v.operand p = (trace.code f).operands init p := by
      ext1 j
      exact h.operand p j (held_of_heldFor hfor) (hnull j)
    rw [hops]
    rfl
  have hresult : ∀ p, v.result p = (trace.code f).value init p →
      (v.issue f s (issueToExecute trace cc s)).result p = (trace.code f).value init p := by
    intro p hp
    simp only [Values.issue]
    by_cases hs : ∃ u, s.unit u = none ∧ (issueToExecute trace cc s).unit u = some p
    · rw [if_pos hs, hnew p hs]
    · rw [if_neg hs, hp]
  refine ⟨fun r hr => ?_, fun p j hp hq => ?_, fun u p hu => ?_, fun p hp => ?_⟩
  · rw [hmap] at hr
    rw [hfront]
    exact h.regFile r hr
  · rw [hQ] at hq
    exact h.operand p j ((issueToExecute_held s p).mp hp) hq
  · -- A unit that was free holds an instruction taken just now, and another one keeps its own.
    cases hs : s.unit u with
    | none =>
        simp only [Values.issue]
        rw [if_pos ⟨u, hs, hu⟩, hnew p ⟨u, hs, hu⟩]
    | some q =>
        rw [issueToExecute_unit, hs, Option.some_or, Option.some.injEq] at hu
        exact hresult p (h.unit u p (hs.trans (congrArg some hu)))
  · rw [hbus] at hp
    exact hresult p (h.bus p hp)

/-- Fetching passes traps, which produce nothing. -/
theorem carried_fetch (heff : FetchEffect trace cc s s') (ho : Occupancy trace s)
    (h : Carried trace f init s v) : Carried trace f init s' v := by
  refine h.congr (by rw [heff.frame]) (by rw [heff.frame]) (fun r => ?_) (fun p hp => ?_)
    (fun u p hu => ?_) fun p hp => ?_
  · exact latest_congr fun p hp => fetch_front ho.queue heff hp.1.1
  · rw [heff.frame] at hp
    exact hp
  · rw [heff.frame] at hu
    exact hu
  · rw [heff.frame] at hp
    exact .inl hp

/-- A register without a producer in the map table is read from the register
    file, which is up to date at the front, where the instruction stands. -/
theorem carried_capture {head : Nat} (c : Captured trace head s s') (ho : Occupancy trace s)
    (hunit : ∀ u, s'.unit u = s.unit u) (h : Carried trace f init s v) :
    Carried trace f init s' (v.dispatch trace s s') := by
  have hnot : ¬ s.Held head := by
    intro hheld
    have hlt := (ho.held hheld).2
    rw [c.front] at hlt
    exact Nat.lt_irrefl _ hlt
  refine ⟨fun r hr => ?_, fun p j hp hq => ?_, fun u p hu => ?_, fun p hp => ?_⟩
  · rw [c.mapTable] at hr
    -- A register that the instruction writes has its pointer set, so nothing is asked of it.
    by_cases hw : trace.Writes r head
    · rw [if_pos hw] at hr
      exact absurd hr (by simp)
    · rw [if_neg hw] at hr
      have hprod := c.producer r
      rw [if_neg hw] at hprod
      change v.regFile r = _
      rw [h.regFile r hr]
      exact InOrder.Code.regs_congr hprod.symm
  · rw [c.Q] at hq
    simp only [Values.dispatch]
    -- The instruction that enters reads the register file where no producer is named. Whoever
    -- was in a station before has its operands.
    by_cases hph : p = head
    · subst hph
      rw [if_pos rfl] at hq
      rw [if_pos ⟨hnot, hp⟩]
      change _ = ((trace.instr p).rIn j).map _
      cases hr : (trace.instr p).rIn j with
      | none => rfl
      | some r =>
          rw [hr, Option.bind_some] at hq
          rw [Option.bind_some, if_pos hq, Option.map_some, h.regFile r hq, c.front]
    · have hold : s.Held p := ((c.held p).mp hp).resolve_right hph
      rw [if_neg hph] at hq
      rw [if_neg fun hcase => hcase.1 hold]
      exact h.operand p j hold hq
  · rw [hunit] at hu
    exact h.unit u p hu
  · rw [c.bus] at hp
    exact h.bus p hp

/-- A stage that lets nobody enter a station reads no register. -/
theorem dispatch_eq (h : ∀ p, s'.Held p → s.Held p) : v.dispatch trace s s' = v := by
  ext p j
  · rfl
  · have hno : ¬ (¬ s.Held p ∧ s'.Held p) := fun hcase => hcase.1 (h p hcase.2)
    simp only [Values.dispatch, if_neg hno]
  · rfl

theorem carried_dispatch (heff : DispatchEffect trace cc s s') (ho : Occupancy trace s)
    (h : Carried trace f init s v) : Carried trace f init s' (v.dispatch trace s s') := by
  cases heff with
  | empty =>
      rw [dispatch_eq fun _ hp => hp]
      exact h
  | full =>
      rw [dispatch_eq fun _ hp => hp]
      exact h
  | enter head t hq ht =>
      refine carried_capture (captured_enter _ ho hq ht) ho (fun u => ?_) h
      rw [shiftQueue_frame, rename_frame, entered_frame ht]
      rfl
  -- A branch leaves the queue without a station and without a value.
  | evict head hq hint hfp =>
      have heq : v.dispatch trace s (shiftQueue s) = v := dispatch_eq fun _ hp => hp
      rw [heq]
      exact h.congr rfl rfl (evict_producer ho hq hint hfp) (fun _ hp => hp) (fun _ _ hu => hu)
        fun _ hp => .inl hp

end Stages

/-! ### Runs -/

section Runs

variable (trace) (simInsn) (f : Meaning V) (init : Fin MD_TOTAL_REGS → V)

/-- The values of a run are those of execution in order. -/
theorem carried_runTomasulo (n : Nat) :
    Carried trace f init (runTomasulo trace simInsn n).state
      (runValues trace simInsn f init n) := by
  -- By induction on the stages of the run; the invariants of the pipeline hold at each.
  induction n with
  | zero => exact carried_initial trace f init
  | succ n ih =>
      have ho := occupancy_runTomasulo trace simInsn n
      rw [runTomasulo_succ, runValues, Values.step]
      cases hs : (runTomasulo trace simInsn n).stage with
      | cdbToRetire =>
          simp only [step, hs]
          exact carried_retire (dataflow_runTomasulo trace simInsn n) ih
      | executeToCDB =>
          simp only [step, hs]
          rcases executeToCDB_effect trace (runTomasulo trace simInsn n).cycle
            (runTomasulo trace simInsn n).state with ⟨winner, e⟩
          exact carried_execute e ho ih
      | issueToExecute =>
          simp only [step, hs]
          exact carried_issue ih
      | fetchToDispatch =>
          simp only [step, hs]
          exact carried_fetch (fetchToDispatch_effect _ _ _) ho ih
      | dispatchToIssue =>
          simp only [step, hs]
          exact carried_dispatch (dispatchToIssue_effect _ _ _) ho ih
      | isSimulationDone =>
          simp only [step, hs]
          have hf := isSimulationDone_frame simInsn (runTomasulo trace simInsn n).state
          rw [hf]
          exact ih.congr rfl rfl (fun _ => rfl) (fun _ hp => hp) (fun _ _ hu => hu)
            fun _ hp => .inl hp
      | returned =>
          simp only [step, hs]
          exact ih

/-- An instruction that is put in a unit has the operands of execution in
    order of the station instructions, whoever else is still executing, and an
    instruction on the bus has computed what it computes in that order. -/
theorem operands_in_order (n p : Nat) :
    (∀ u, StartsAt trace simInsn n u p →
      (runValues trace simInsn f init n).operand p = (trace.code f).operands init p) ∧
    (BroadcastAt trace simInsn n p →
      (runValues trace simInsn f init (n + 1)).result p = (trace.code f).value init p) := by
  refine ⟨fun u hstart => ?_, fun hb => ?_⟩
  · -- A start is the choice of a ready candidate, whose tags have all been cleared.
    rcases candidate_facts (candidate_of_starts hstart) with ⟨hfor, hready⟩
    ext1 j
    exact (carried_runTomasulo trace simInsn f init n).operand p j (held_of_heldFor hfor)
      (Q_of_ready hready j)
  · exact (carried_runTomasulo trace simInsn f init (n + 1)).bus p hb.2

/-- When the loop has ended, nobody is named by the map table any more. -/
theorem mapTable_returned (hwb : trace.WritersBroadcast) {n : Nat}
    (hret : Returned trace simInsn n) (r : Fin MD_TOTAL_REGS) :
    (runTomasulo trace simInsn n).state.mapTable r = none := by
  rcases returned_empty trace simInsn n hret with ⟨⟨-, hINT, hFP, -, -, hbus⟩, -⟩
  have hnl := noLostWriter_of_writersBroadcast trace simInsn hwb
  cases hm : (runTomasulo trace simInsn n).state.mapTable r with
  | none => rfl
  | some q =>
      -- A writer named by the map table would be in a station or on the bus, and both are empty.
      rcases (awaited_runTomasulo trace simInsn n hnl).mapTable r q hm with hheld | hb
      · rcases hheld with ⟨i, hi⟩ | ⟨i, hi⟩
        · simp [hINT] at hi
        · simp [hFP] at hi
      · simp [hbus] at hb

/-- The register file that the loop leaves. -/
theorem regFile_returned (hwb : trace.WritersBroadcast) {n : Nat}
    (hret : Returned trace simInsn n) :
    (runValues trace simInsn f init n).regFile = (trace.code f).regs init (max simInsn 1) := by
  have hfront : (runTomasulo trace simInsn n).state.front = max simInsn 1 := by
    rw [State.front, (returned_empty trace simInsn n hret).1.1 0, Option.getD_none,
      fetchIndex_returned hret]
  ext1 r
  rw [← hfront]
  exact (carried_runTomasulo trace simInsn f init n).regFile r
    (mapTable_returned trace simInsn hwb hret r)

/-- On every trace of an instruction set whose writers broadcast, the loop
    ends, and the register file is then the one that executing the entries it
    has read in order leaves. -/
theorem registers_in_order (hwb : trace.WritersBroadcast) :
    ∃ n, Returned trace simInsn n ∧
      (runValues trace simInsn f init n).regFile
        = (trace.code f).regs init (max simInsn 1) := by
  rcases terminates trace simInsn (noLostWriter_of_writersBroadcast trace simInsn hwb)
    with ⟨n, hn⟩
  exact ⟨n, hn, regFile_returned trace simInsn f init hwb hn⟩

/-- The chain of two additions, in the numbers. -/
theorem registers_in_order_chain :
    ∃ n, Returned chain 3 n ∧
      (runValues chain 3 (fun _ a _ => (a 0).getD 0 + (a 1).getD 0) (fun r => r.val) n).regFile
        = (chain.code fun _ a _ => (a 0).getD 0 + (a 1).getD 0).regs (fun r => r.val) 3 :=
  registers_in_order chain 3 _ _ (by decide +kernel)

end Runs

end Tomasulo

end MicroArch
