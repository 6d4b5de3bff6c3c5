import Mathlib.Algebra.BigOperators.Fin
import Mathlib.Algebra.Order.BigOperators.Group.Finset
import Mathlib.Data.Prod.Lex
import MicroArch.Tomasulo.Renaming

/-!
# Progress

Why the simulation loop ends.

No counter drops in every cycle, so the measure is lexicographic. `work` is
what is left to do: entries to read, then entries to dispatch, then occupied
stations, then units holding an instruction that has left its station, then
free units. Every stage either leaves the state as it is or makes `work`
smaller, whatever it does to the later components. When a whole cycle leaves
the state as it is, time still passes for whoever is executing, and
`remaining` drops.

If nobody is executing either, nobody in a station is ready. Waiting goes
from younger to older instructions and never to someone outside the stations
and the bus, so there is nobody in a station at all, and then nothing holds
up the queue, and then nothing is left.

## Main definitions

* `State.work`: What is left to do, the leading part of the measure.
* `remaining`: The cycles the occupants of the units still need.
* `FetchBound`: How far fetching has come.

## Theorems

* `work_execute`, `work_issue`, `work_fetch`, `work_dispatch`: A stage does
  some of the work or nothing.
* `not_held_of_stuck`: With nothing to start, nobody is in a station.
* `cycle_progress`: A cycle ends the loop or lowers the measure.
* `terminates`: The loop ends if no writer is lost.
* `no_deadlock`: The loop ends on every trace of the instruction set.
-/

namespace MicroArch

namespace Tomasulo

variable {trace : Trace} {cc simInsn : Nat} {s s' : State} {winner : Option (FuSlot × Nat)}

/-! ### The work left -/

/-- The number of stations that are occupied. -/
def State.occupiedStations (s : State) : Nat :=
  Slots.occupied s.reservINT + Slots.occupied s.reservFP

/-- The units whose occupant has left its station. -/
def State.staleUnits (s : State) : Finset FuSlot :=
  Finset.univ.filter fun u => (s.unit u).any fun p => decide (¬ s.Held p)

/-- The units that are free. -/
def State.freeUnits (s : State) : Finset FuSlot :=
  Finset.univ.filter fun u => (s.unit u).isNone

/-- What is left to do when `bound` entries are to be read. -/
def State.work (bound : Nat) (s : State) : Nat ×ₗ Nat ×ₗ Nat ×ₗ Nat ×ₗ Nat :=
  toLex (bound - s.fetchIndex, toLex (s.instrQueueSize.toNat, toLex (s.occupiedStations,
    toLex (s.staleUnits.card, s.freeUnits.card))))

theorem mem_staleUnits {u : FuSlot} :
    u ∈ s.staleUnits ↔ ∃ p, s.unit u = some p ∧ ¬ s.Held p := by
  simp only [State.staleUnits, Finset.mem_filter, Finset.mem_univ, true_and,
    Option.any_eq_true_iff_get, decide_eq_true_eq]
  constructor
  · intro hcase
    rcases hcase with ⟨hsome, hnot⟩
    exact ⟨_, Option.eq_some_of_isSome hsome, hnot⟩
  · intro hcase
    rcases hcase with ⟨p, hp, hnot⟩
    simp only [hp, Option.isSome_some, Option.get_some, exists_const]
    exact hnot

theorem mem_freeUnits {u : FuSlot} : u ∈ s.freeUnits ↔ s.unit u = none := by
  simp only [State.freeUnits, Finset.mem_filter, Finset.mem_univ, true_and,
    Option.isNone_iff_eq_none]

/-- The work only depends on what is fetched, queued, held and executing. -/
theorem work_congr (bound : Nat) (hf : s'.fetchIndex = s.fetchIndex)
    (hq : s'.instrQueueSize = s.instrQueueSize) (hint : s'.reservINT = s.reservINT)
    (hfp : s'.reservFP = s.reservFP) (hunit : ∀ u, s'.unit u = s.unit u) :
    s'.work bound = s.work bound := by
  have hheld : ∀ p, s'.Held p ↔ s.Held p := by
    intro p
    rw [State.Held, State.Held, hint, hfp]
  -- Both sets of units are read off the units and the stations.
  have hstale : s'.staleUnits = s.staleUnits := by
    ext u
    simp only [mem_staleUnits, hunit, hheld]
  have hfree : s'.freeUnits = s.freeUnits := by
    ext u
    simp only [mem_freeUnits, hunit]
  simp only [State.work, State.occupiedStations, hf, hq, hint, hfp, hstale, hfree]

theorem work_retire (bound : Nat) (s : State) : (cdbToRetire s).work bound = s.work bound := by
  refine work_congr bound ?_ ?_ ?_ ?_ (cdbToRetire_unit s) <;> rw [cdbToRetire_frame]

/-- A station that is occupied after `executeToCDB` was so before. -/
theorem occupiedStations_le (e : CDBEffect trace cc s s' winner) :
    s'.occupiedStations ≤ s.occupiedStations :=
  Nat.add_le_add (Slots.occupied_le fun i p hp => ((e.reservINT i p).mp hp).1)
    (Slots.occupied_le fun i p hp => ((e.reservFP i p).mp hp).1)

/-- When an instruction that is held leaves, its station is freed. -/
theorem occupiedStations_lt (e : CDBEffect trace cc s s' winner) (ho : Occupancy trace s)
    {p : Nat} (hp : s.Held p) (hl : Leaves trace cc s winner p) :
    s'.occupiedStations < s.occupiedStations := by
  have hgone : ¬ s'.Held p := fun h => ((e.held ho p).mp h).2 hl
  have hINT : ∀ i q, s'.reservINT i = some q → s.reservINT i = some q :=
    fun i q hq => ((e.reservINT i q).mp hq).1
  have hFP : ∀ i q, s'.reservFP i = some q → s.reservFP i = some q :=
    fun i q hq => ((e.reservFP i q).mp hq).1
  -- The class of stations it is in loses one, the other loses none.
  rcases hp with ⟨i, hi⟩ | ⟨i, hi⟩
  · exact Nat.add_lt_add_of_lt_of_le
      (Slots.occupied_lt hINT hi fun h => hgone (Or.inl ⟨i, h⟩)) (Slots.occupied_le hFP)
  · exact Nat.add_lt_add_of_le_of_lt (Slots.occupied_le hINT)
      (Slots.occupied_lt hFP hi fun h => hgone (Or.inr ⟨i, h⟩))

/-- A unit's occupant whose station is gone after `executeToCDB`, but who was
    not there to leave it, had lost it before. -/
theorem staleUnits_subset (e : CDBEffect trace cc s s' winner) (ho : Occupancy trace s)
    (hstay : ∀ p, s.Held p → ¬ Leaves trace cc s winner p) :
    s'.staleUnits ⊆ s.staleUnits := by
  -- Whoever is stale afterwards was not held, since the held ones stay.
  intro u hu
  rw [mem_staleUnits] at hu ⊢
  rcases hu with ⟨p, hp, hnot⟩
  refine ⟨p, ((e.unit u p).mp hp).1, fun hheld => ?_⟩
  exact hnot ((e.held ho p).mpr ⟨hheld, hstay p hheld⟩)

theorem staleUnits_lt (e : CDBEffect trace cc s s' winner) (ho : Occupancy trace s)
    (hstay : ∀ p, s.Held p → ¬ Leaves trace cc s winner p) {p : Nat}
    (hl : Leaves trace cc s winner p) : s'.staleUnits.card < s.staleUnits.card := by
  -- The one who leaves vacates the unit it left from.
  have hgone : ∃ u, s.unit u = some p ∧ s'.unit u ≠ some p := by
    rcases hl with ⟨u, hst⟩ | ⟨u, hwin⟩
    · exact ⟨u, hst.1, fun h => ((e.unit u p).mp h).2.1 hst⟩
    · exact ⟨u, (e.oldest u p hwin).1.1, fun h => ((e.unit u p).mp h).2.2 hwin⟩
  rcases hgone with ⟨u, hu, hu'⟩
  refine Finset.card_lt_card (Finset.ssubset_iff_subset_ne.mpr
    ⟨staleUnits_subset e ho hstay, fun heq => ?_⟩)
  have hmem : u ∈ s.staleUnits := mem_staleUnits.mpr ⟨p, hu, fun h => hstay p h hl⟩
  rw [← heq, mem_staleUnits] at hmem
  rcases hmem with ⟨q, hq, -⟩
  have hsame := ((e.unit u q).mp hq).1
  rw [hu, Option.some.injEq] at hsame
  rw [← hsame] at hq
  exact hu' hq

/-- With nobody leaving, `executeToCDB` leaves the state as it is, and nobody
    in a unit has finished. -/
theorem execute_idle (e : CDBEffect trace cc s s' winner)
    (hnone : ∀ p, ¬ Leaves trace cc s winner p) :
    s' = s ∧ ∀ u p, s.unit u = some p → s.finished cc u p = false := by
  -- Nobody leaves, so there is no winner and no finished store.
  have hw : winner = none := by
    rcases h : winner with _ | ⟨u, p⟩
    · rfl
    · exact absurd (Or.inr ⟨u, h⟩) (hnone p)
  have hst : ∀ u p, ¬ FinishedStore trace cc s u p := fun u p h => hnone p (Or.inl ⟨u, h⟩)
  have hunit : ∀ u, s'.unit u = s.unit u := by
    intro u
    ext p
    rw [e.unit, hw]
    simp only [hst, not_false_eq_true, ne_eq, reduceCtorEq, and_true]
  have hINT : s'.reservINT = s.reservINT := by
    ext i p
    rw [e.reservINT, hw]
    simp only [hst, not_false_eq_true, implies_true, ne_eq, reduceCtorEq, and_true]
  have hFP : s'.reservFP = s.reservFP := by
    ext i p
    rw [e.reservFP, hw]
    simp only [ne_eq, reduceCtorEq, not_false_eq_true, implies_true, and_true]
  have hbus : s'.commonDataBus = s.commonDataBus := by
    rw [e.bus, hw]
    rfl
  have hstamp : s'.tomCdbCycle = s.tomCdbCycle := by
    ext p
    rw [e.stamp, hw, if_neg (by simp only [Option.map_none, reduceCtorEq, not_false_eq_true])]
  refine ⟨?_, fun u p hp => ?_⟩
  · rw [e.frame, hINT, hFP, hbus, hstamp, show s'.fuINT = s.fuINT from
      funext fun i => hunit (.int i), show s'.fuFP = s.fuFP from funext fun i => hunit (.fp i)]
  · -- a finished occupant is a store that leaves or a writer for the bus
    by_contra hfin
    rw [Bool.not_eq_false] at hfin
    by_cases hint : ∃ i, u = .int i
    · by_cases hcdb : writesCDB (trace.instr p).op = true
      · exact e.idle hw u p ⟨hp, hfin, fun _ => hcdb⟩
      · exact hst u p ⟨hp, hfin, hint, by simpa only [Bool.not_eq_true] using hcdb⟩
    · exact e.idle hw u p ⟨hp, hfin, fun h => absurd h hint⟩

theorem work_execute (bound : Nat) (e : CDBEffect trace cc s s' winner) (ho : Occupancy trace s) :
    s'.work bound < s.work bound ∨
      (s' = s ∧ ∀ u p, s.unit u = some p → s.finished cc u p = false) := by
  by_cases hnone : ∀ p, ¬ Leaves trace cc s winner p
  · exact Or.inr (execute_idle e hnone)
  · left
    have hfetch : s'.fetchIndex = s.fetchIndex := by rw [e.frame]
    have hqueue : s'.instrQueueSize = s.instrQueueSize := by rw [e.frame]
    unfold State.work
    rw [hfetch, hqueue]
    refine Prod.Lex.toLex_lt_toLex'.mpr ⟨Nat.le_refl _, fun _ => ?_⟩
    refine Prod.Lex.toLex_lt_toLex'.mpr ⟨Nat.le_refl _, fun _ => ?_⟩
    -- A station is freed, or a copy whose station was freed before is removed.
    by_cases hheld : ∃ p, s.Held p ∧ Leaves trace cc s winner p
    · rcases hheld with ⟨p, hp, hl⟩
      have hlt := occupiedStations_lt e ho hp hl
      exact Prod.Lex.toLex_lt_toLex.mpr (Or.inl hlt)
    · -- only copies left behind in a unit leave
      have hstay : ∀ p, s.Held p → ¬ Leaves trace cc s winner p :=
        fun p hp hl => hheld ⟨p, hp, hl⟩
      rcases not_forall_not.mp hnone with ⟨p, hl⟩
      have hlt := staleUnits_lt e ho hstay hl
      refine Prod.Lex.toLex_lt_toLex'.mpr ⟨occupiedStations_le e, fun _ => ?_⟩
      exact Prod.Lex.toLex_lt_toLex.mpr (Or.inl hlt)

/-- With no free unit finding anything to start, `issueToExecute` leaves the
    state as it is. -/
theorem issue_idle (h : ∀ u, s.unit u = none → s.candidate trace u = none) :
    issueToExecute trace cc s = s := by
  have hstart : ∀ u, start trace cc s u = s := by
    intro u
    unfold start
    rcases hu : s.unit u with _ | q
    · rw [h u hu]
    · rfl
  rw [issueToExecute_eq, hstart, hstart, hstart]

theorem work_issue (trace : Trace) (cc bound : Nat) (s : State) :
    (issueToExecute trace cc s).work bound < s.work bound ∨
      (issueToExecute trace cc s = s ∧
        ∀ u, s.unit u = none → s.candidate trace u = none) := by
  by_cases hidle : ∀ u, s.unit u = none → s.candidate trace u = none
  · exact Or.inr ⟨issue_idle hidle, hidle⟩
  · left
    have hstations : (issueToExecute trace cc s).occupiedStations = s.occupiedStations := by
      unfold State.occupiedStations
      rw [issueToExecute_frame]
    -- Whoever is placed now is still held, so no unit becomes stale.
    have hstale : (issueToExecute trace cc s).staleUnits ⊆ s.staleUnits := by
      intro u hu
      rw [mem_staleUnits] at hu ⊢
      rcases hu with ⟨p, hp, hnot⟩
      rw [issueToExecute_held] at hnot
      rw [issueToExecute_unit, Option.or_eq_some_iff] at hp
      rcases hp with hp | ⟨-, hp⟩
      · exact ⟨p, hp, hnot⟩
      · exact absurd (held_of_heldFor (candidate_facts hp).1) hnot
    -- The unit that takes an instruction is free no longer.
    have hfree : (issueToExecute trace cc s).freeUnits.card < s.freeUnits.card := by
      simp only [not_forall] at hidle
      rcases hidle with ⟨u, hu, hc⟩
      refine Finset.card_lt_card (Finset.ssubset_iff_subset_ne.mpr ⟨fun v hv => ?_, fun heq => ?_⟩)
      · rw [mem_freeUnits] at hv ⊢
        rw [issueToExecute_unit, Option.or_eq_none_iff] at hv
        exact hv.1
      · have hmem : u ∈ s.freeUnits := mem_freeUnits.mpr hu
        rw [← heq, mem_freeUnits, issueToExecute_unit, Option.or_eq_none_iff] at hmem
        exact hc hmem.2
    have hfetch : (issueToExecute trace cc s).fetchIndex = s.fetchIndex := by
      rw [issueToExecute_frame]
    have hqueue : (issueToExecute trace cc s).instrQueueSize = s.instrQueueSize := by
      rw [issueToExecute_frame]
    unfold State.work
    rw [hfetch, hqueue, hstations]
    refine Prod.Lex.toLex_lt_toLex'.mpr ⟨Nat.le_refl _, fun _ => ?_⟩
    refine Prod.Lex.toLex_lt_toLex'.mpr ⟨Nat.le_refl _, fun _ => ?_⟩
    refine Prod.Lex.toLex_lt_toLex'.mpr ⟨Nat.le_refl _, fun _ => ?_⟩
    refine Prod.Lex.toLex_lt_toLex'.mpr ⟨Finset.card_le_card hstale, fun _ => ?_⟩
    exact hfree

theorem work_fetch (bound : Nat) (heff : FetchEffect trace cc s s')
    (hbound : s.dontFetch = false → s.fetchIndex < bound) :
    s'.work bound < s.work bound ∨
      (s' = s ∧ (s.instrQueueSize = INSTR_QUEUE_SIZE ∨ s.dontFetch = true)) := by
  cases heff with
  | idle h => exact Or.inr ⟨rfl, h⟩
  | trap hsize hfetch htrap =>
      have hlt := hbound hfetch
      exact Or.inl (Prod.Lex.toLex_lt_toLex.mpr (Or.inl (by simp only; omega)))
  | queue hsize hfetch htrap =>
      have hlt := hbound hfetch
      exact Or.inl (Prod.Lex.toLex_lt_toLex.mpr (Or.inl (by simp only; omega)))

/-- A queue with a head has a positive size. -/
theorem queueSize_pos (hinv : QueueInv trace s) {head : Nat} (hq : s.instrQueue 0 = some head) :
    0 < s.instrQueueSize := by
  rcases hinv with ⟨removed, l, hrep, -⟩
  rcases hrep.eq_cons hq with ⟨l', rfl⟩
  rw [hrep.size, List.length_cons]
  omega

theorem work_dispatch (bound : Nat) (heff : DispatchEffect trace cc s s')
    (ho : Occupancy trace s) :
    s'.work bound < s.work bound ∨
      (s' = s ∧ (s.instrQueue 0 = none ∨ ∃ head, StationsFull trace head s)) := by
  -- In both cases that move the queue its size drops.
  have hshift : ∀ t : State, t.fetchIndex = s.fetchIndex →
      t.instrQueueSize = s.instrQueueSize → ∀ head, s.instrQueue 0 = some head →
      (shiftQueue t).work bound < s.work bound := by
    intro t hf hsize head hq
    have hpos := queueSize_pos ho.queue hq
    refine Prod.Lex.toLex_lt_toLex'.mpr ⟨?_, fun _ => ?_⟩
    · rw [show (shiftQueue t).fetchIndex = t.fetchIndex from rfl, hf]
    · refine Prod.Lex.toLex_lt_toLex.mpr (Or.inl ?_)
      rw [show (shiftQueue t).instrQueueSize = t.instrQueueSize - 1 from rfl, hsize]
      omega
  cases heff with
  | empty hq => exact Or.inr ⟨rfl, Or.inl hq⟩
  | full head hq hfull => exact Or.inr ⟨rfl, Or.inr ⟨head, hfull⟩⟩
  | enter head t hq ht =>
      have hframe := entered_frame ht
      exact Or.inl (hshift _ (by rw [rename_frame, hframe]) (by rw [rename_frame, hframe]) head hq)
  | evict head hq => exact Or.inl (hshift s rfl rfl head hq)

theorem work_done (bound : Nat) (s : State) :
    (isSimulationDone simInsn s).2.work bound = s.work bound := by
  refine work_congr bound ?_ ?_ ?_ ?_ (fun u => ?_) <;> rw [isSimulationDone_frame]
  rcases u <;> rfl

/-! ### Nobody waits in a circle -/

/-- If nothing can be started although every unit is free, no station is
    occupied. -/
theorem not_held_of_stuck {sent : Nat → Prop} (hd : Dataflow trace sent s) (ha : Awaited s)
    (hbus : s.commonDataBus = none) (hstuck : ∀ u, s.candidate trace u = none) :
    ∀ p, ¬ s.Held p := by
  intro p
  -- waiting leads to an older instruction that is held as well
  induction p using Nat.strong_induction_on with
  | _ p ih =>
      intro hp
      have hready : s.ready p = false := by
        rcases hp with hp | hp
        · exact oldestReady_eq_none _ (hstuck (.int 0)) p hp
        · exact oldestReady_eq_none _ (hstuck (.fp 0)) p hp
      -- Not being ready means that one of the three pointers is set.
      have hwait : ∃ j q, s.Q p j = some q := by
        by_contra hnone
        have hnull : ∀ j, s.Q p j = none := by
          intro j
          rcases hq : s.Q p j with _ | q
          · rfl
          · exact absurd ⟨j, q, hq⟩ hnone
        rw [State.ready, hnull, hnull, hnull] at hready
        exact absurd hready (by decide)
      rcases hwait with ⟨j, q, hq⟩
      rcases hd.waits p j q hp hq with ⟨r, -, hprod⟩
      rcases ha.waits p j q hp hq with hheld | hq'
      · exact ih q (producer_lt hprod).1 hheld
      · rw [hbus] at hq'
        exact absurd hq' (by simp only [reduceCtorEq, not_false_eq_true])

/-- When every stage is idle and nobody is executing, the pipeline is empty
    and fetching has ended. -/
theorem empty_of_stuck {sent : Nat → Prop} (ho : Occupancy trace s) (hd : Dataflow trace sent s)
    (ha : Awaited s) (hbus : s.commonDataBus = none) (hfree : ∀ u, s.unit u = none)
    (hstuck : ∀ u, s.candidate trace u = none)
    (hfetch : s.instrQueueSize = INSTR_QUEUE_SIZE ∨ s.dontFetch = true)
    (hdispatch : s.instrQueue 0 = none ∨ ∃ head, StationsFull trace head s) :
    s.Empty ∧ s.dontFetch = true := by
  have hheld := not_held_of_stuck hd ha hbus hstuck
  have hINT : ∀ i, s.reservINT i = none := by
    intro i
    rcases hi : s.reservINT i with _ | p
    · rfl
    · exact absurd (Or.inl ⟨i, hi⟩) (hheld p)
  have hFP : ∀ i, s.reservFP i = none := by
    intro i
    rcases hi : s.reservFP i with _ | p
    · rfl
    · exact absurd (Or.inr ⟨i, hi⟩) (hheld p)
  -- With empty stations the head cannot be blocked, so there is none.
  have hhead : s.instrQueue 0 = none := by
    rcases hdispatch with h | ⟨head, ⟨-, hfull⟩ | ⟨-, -, hfull⟩⟩
    · exact h
    · exact absurd (hINT 0) (hfull 0)
    · exact absurd (hFP 0) (hfull 0)
  rcases ho.queue with ⟨removed, l, hrep, -⟩
  have hl : l = [] := by
    rw [hrep.head] at hhead
    exact List.head?_eq_none_iff.mp hhead
  rw [hl] at hrep
  refine ⟨⟨fun i => ?_, hINT, hFP, fun i => hfree (.int i), fun i => hfree (.fp i), hbus⟩, ?_⟩
  · rw [hrep.cells.cells i, List.getElem?_nil]
  -- The queue is empty, so fetching was not kept back by its size.
  · rcases hfetch with hfull | hdont
    · rw [hrep.size] at hfull
      exact absurd hfull (by decide)
    · exact hdont

/-! ### How far fetching has come -/

/-- Fetching stops once `simInsn` entries have been read, but the first
    entry is read in any case: the test comes at the end of a cycle. -/
structure FetchBound (simInsn : Nat) (c : Config) : Prop where
  stopped : c.state.dontFetch = true → simInsn ≤ c.state.fetchIndex
  atMost : c.state.fetchIndex ≤ max simInsn 1
  below : c.stage ≠ .dispatchToIssue → c.stage ≠ .isSimulationDone →
    c.state.dontFetch = false → c.state.fetchIndex < max simInsn 1

theorem step_dontFetch (trace : Trace) (simInsn : Nat) (c : Config)
    (hd : c.stage ≠ .isSimulationDone) :
    (step trace simInsn c).state.dontFetch = c.state.dontFetch := by
  unfold step
  cases hs : c.stage with
  | cdbToRetire =>
      simp only
      rw [cdbToRetire_frame]
  | executeToCDB =>
      rcases executeToCDB_effect trace c.cycle c.state with ⟨winner, e⟩
      simp only
      rw [e.frame]
  | issueToExecute =>
      simp only
      rw [issueToExecute_frame]
  | fetchToDispatch =>
      simp only
      rw [(fetchToDispatch_effect trace c.cycle c.state).frame]
  | dispatchToIssue =>
      have heff := dispatchToIssue_effect trace c.cycle c.state
      simp only
      generalize dispatchToIssue trace c.cycle c.state = s' at heff
      cases heff with
      | empty => rfl
      | full => rfl
      | enter head t hq ht => rw [shiftQueue_frame, rename_frame, entered_frame ht]
      | evict => rfl
  | isSimulationDone => exact absurd hs hd
  | returned => rfl

/-- The stage after a stage, while the loop runs. -/
theorem step_stage (trace : Trace) (simInsn : Nat) (c : Config) :
    (step trace simInsn c).stage = match c.stage with
      | .cdbToRetire => .executeToCDB
      | .executeToCDB => .issueToExecute
      | .issueToExecute => .fetchToDispatch
      | .fetchToDispatch => .dispatchToIssue
      | .dispatchToIssue => .isSimulationDone
      | .isSimulationDone =>
        if (isSimulationDone simInsn c.state).1 then .returned else .cdbToRetire
      | .returned => .returned := by
  unfold step
  cases hs : c.stage <;> simp only [hs]

theorem fetchBound_step (trace : Trace) (simInsn : Nat) (c : Config) (h : FetchBound simInsn c) :
    FetchBound simInsn (step trace simInsn c) := by
  by_cases hd : c.stage = .isSimulationDone
  · -- the end test is what stops fetching
    have hf : (step trace simInsn c).state.fetchIndex = c.state.fetchIndex :=
      (step_queue trace simInsn c (by rw [hd]; decide) (by rw [hd]; decide)).2.2
    have hstate : (step trace simInsn c).state = (isSimulationDone simInsn c.state).2 := by
      rw [step, hd]
    by_cases hn : c.state.fetchIndex ≥ simInsn
    -- The bound has been reached, and fetching stops.
    · have hdont : (step trace simInsn c).state.dontFetch = true := by
        rw [hstate, isSimulationDone, if_pos hn]
      refine ⟨fun _ => by rw [hf]; exact hn, by rw [hf]; exact h.atMost, fun _ _ hff => ?_⟩
      rw [hdont] at hff
      exact absurd hff (by decide)
    -- The bound has not been reached, and nothing changes.
    · have hdont : (step trace simInsn c).state.dontFetch = c.state.dontFetch := by
        rw [hstate, isSimulationDone, if_neg hn]
      refine ⟨fun ht => ?_, by rw [hf]; exact h.atMost, fun _ _ _ => ?_⟩
      · rw [hdont] at ht
        exact absurd (h.stopped ht) hn
      · rw [hf]
        omega
  · have hdont := step_dontFetch trace simInsn c hd
    rcases step_fetchIndex trace simInsn c with hf | ⟨hs, hf⟩
    · refine ⟨?_, ?_, ?_⟩
      · rw [hdont, hf]
        exact h.stopped
      · rw [hf]
        exact h.atMost
      · rw [hdont, hf, step_stage]
        intro h1 h2
        refine h.below (fun hs => ?_) hd
        rw [hs] at h2
        exact h2 rfl
    · -- an entry is only read while fetching has not stopped
      have hfetch : c.state.dontFetch = false := by
        have heff := fetchToDispatch_effect trace c.cycle c.state
        rw [step, hs] at hf
        simp only at hf
        generalize fetchToDispatch trace c.cycle c.state = s' at heff hf
        cases heff with
        | idle => exact absurd hf (by omega)
        | trap _ h => exact h
        | queue _ h => exact h
      have hlt := h.below (by rw [hs]; decide) hd hfetch
      refine ⟨fun ht => ?_, by omega, fun hne => ?_⟩
      · rw [hdont, hfetch] at ht
        exact absurd ht (by decide)
      · rw [step_stage, hs] at hne
        exact absurd rfl hne

theorem fetchBound_runTomasulo (trace : Trace) (simInsn n : Nat) :
    FetchBound simInsn (runTomasulo trace simInsn n) := by
  refine Run.runFor_invariant _ _ _ ⟨fun h => ?_, Nat.zero_le _, fun _ _ _ => ?_⟩
    (fetchBound_step trace simInsn) n
  · exact absurd h (by simp only [Config.initial, State.initial, Bool.false_eq_true,
      not_false_eq_true])
  · exact Nat.lt_of_lt_of_le Nat.zero_lt_one (Nat.le_max_right simInsn 1)

/-! ### The loop ends -/

/-- The cycles the occupant of a unit still needs. -/
def needs (cc : Nat) (s : State) (u : FuSlot) : Nat :=
  match s.unit u with
  | none => 0
  | some p => s.tomExecuteCycle p + u.latency - cc

/-- The cycles all occupants together still need. -/
def remaining (cc : Nat) (s : State) : Nat := ∑ u, needs cc s u

/-- Time passes for an occupant that has not finished. -/
theorem remaining_lt (hbusy : ∃ u, s.unit u ≠ none)
    (hrun : ∀ u p, s.unit u = some p → s.finished cc u p = false) :
    remaining (cc + 1) s < remaining cc s := by
  have hle : ∀ u, needs (cc + 1) s u ≤ needs cc s u := by
    intro u
    unfold needs
    rcases s.unit u with _ | p
    · exact Nat.le_refl _
    · exact Nat.sub_le_sub_left (Nat.le_succ cc) _
  rcases hbusy with ⟨u, hu⟩
  -- No term grows, and the term of a busy unit shrinks.
  refine Finset.sum_lt_sum (fun v _ => hle v) ⟨u, Finset.mem_univ u, ?_⟩
  unfold needs
  rcases hp : s.unit u with _ | p
  · exact absurd hp hu
  · have hfin := hrun u p hp
    simp only [State.finished, ge_iff_le, decide_eq_false_iff_not, not_le] at hfin
    simp only
    omega

theorem remaining_congr (hunit : ∀ u, s'.unit u = s.unit u)
    (he : s'.tomExecuteCycle = s.tomExecuteCycle) : remaining cc s' = remaining cc s := by
  unfold remaining needs
  simp only [hunit, he]

/-- The measure of a configuration at the start of a cycle. -/
def measure (simInsn : Nat) (c : Config) : (Nat ×ₗ Nat ×ₗ Nat ×ₗ Nat ×ₗ Nat) ×ₗ Nat :=
  toLex (c.state.work (max simInsn 1), remaining c.cycle c.state)

/-- One cycle of the loop, stage by stage. -/
theorem cycle_stages (trace : Trace) (simInsn n : Nat)
    (h : (runTomasulo trace simInsn n).stage = .cdbToRetire) :
    let c := runTomasulo trace simInsn n
    let s₁ := cdbToRetire c.state
    let s₂ := executeToCDB trace c.cycle s₁
    let s₃ := issueToExecute trace c.cycle s₂
    let s₄ := fetchToDispatch trace c.cycle s₃
    let s₅ := dispatchToIssue trace c.cycle s₄
    runTomasulo trace simInsn (n + 1) = ⟨.executeToCDB, c.cycle, s₁⟩ ∧
    runTomasulo trace simInsn (n + 2) = ⟨.issueToExecute, c.cycle, s₂⟩ ∧
    runTomasulo trace simInsn (n + 3) = ⟨.fetchToDispatch, c.cycle, s₃⟩ ∧
    runTomasulo trace simInsn (n + 4) = ⟨.dispatchToIssue, c.cycle, s₄⟩ ∧
    runTomasulo trace simInsn (n + 5) = ⟨.isSimulationDone, c.cycle + 1, s₅⟩ ∧
    runTomasulo trace simInsn (n + 6)
      = ⟨if (isSimulationDone simInsn s₅).1 then .returned else .cdbToRetire, c.cycle + 1,
        (isSimulationDone simInsn s₅).2⟩ := by
  intro c s₁ s₂ s₃ s₄ s₅
  have h1 : runTomasulo trace simInsn (n + 1) = ⟨.executeToCDB, c.cycle, s₁⟩ := by
    rw [runTomasulo_succ, step, h]
  have h2 : runTomasulo trace simInsn (n + 2) = ⟨.issueToExecute, c.cycle, s₂⟩ := by
    rw [runTomasulo_succ, h1]
    rfl
  have h3 : runTomasulo trace simInsn (n + 3) = ⟨.fetchToDispatch, c.cycle, s₃⟩ := by
    rw [runTomasulo_succ, h2]
    rfl
  have h4 : runTomasulo trace simInsn (n + 4) = ⟨.dispatchToIssue, c.cycle, s₄⟩ := by
    rw [runTomasulo_succ, h3]
    rfl
  have h5 : runTomasulo trace simInsn (n + 5) = ⟨.isSimulationDone, c.cycle + 1, s₅⟩ := by
    rw [runTomasulo_succ, h4]
    rfl
  refine ⟨h1, h2, h3, h4, h5, ?_⟩
  rw [runTomasulo_succ, h5]
  rfl

/-- The stages of a cycle, none of which has anything to do in this state. -/
structure Idle (trace : Trace) (cc : Nat) (s : State) : Prop where
  execute : ∀ u p, s.unit u = some p → s.finished cc u p = false
  issue : ∀ u, s.unit u = none → s.candidate trace u = none
  fetch : s.instrQueueSize = INSTR_QUEUE_SIZE ∨ s.dontFetch = true
  dispatch : s.instrQueue 0 = none ∨ ∃ head, StationsFull trace head s

/-- A cycle after retirement does some of the work, or it finds nothing to do
    and leaves the state as it is. -/
theorem cycle_work (bound : Nat) {s₁ s₂ s₃ s₄ s₅ : State}
    (hexec : s₂.work bound < s₁.work bound ∨
      (s₂ = s₁ ∧ ∀ u p, s₁.unit u = some p → s₁.finished cc u p = false))
    (hissue : s₃.work bound < s₂.work bound ∨
      (s₃ = s₂ ∧ ∀ u, s₂.unit u = none → s₂.candidate trace u = none))
    (hfetch : s₄.work bound < s₃.work bound ∨
      (s₄ = s₃ ∧ (s₃.instrQueueSize = INSTR_QUEUE_SIZE ∨ s₃.dontFetch = true)))
    (hdispatch : s₅.work bound < s₄.work bound ∨
      (s₅ = s₄ ∧ (s₄.instrQueue 0 = none ∨ ∃ head, StationsFull trace head s₄))) :
    s₅.work bound < s₁.work bound ∨ (s₅ = s₁ ∧ Idle trace cc s₁) := by
  have le_of_step : ∀ {s t : State} {P : Prop},
      t.work bound < s.work bound ∨ (t = s ∧ P) → t.work bound ≤ s.work bound := by
    intro s t P h
    rcases h with h | ⟨rfl, -⟩
    · exact le_of_lt h
    · exact le_refl _
  -- Each stage does some of the work or is idle; the first that is not decides.
  have h5 := le_of_step hdispatch
  have h4 := h5.trans (le_of_step hfetch)
  have h3 := h4.trans (le_of_step hissue)
  rcases hexec with hexec | ⟨rfl, hrun⟩
  · exact Or.inl (lt_of_le_of_lt h3 hexec)
  · rcases hissue with hissue | ⟨rfl, hstuck⟩
    · exact Or.inl (lt_of_le_of_lt h4 hissue)
    · rcases hfetch with hfetch | ⟨rfl, hnofetch⟩
      · exact Or.inl (lt_of_le_of_lt h5 hfetch)
      · rcases hdispatch with hdispatch | ⟨rfl, hnodispatch⟩
        · exact Or.inl hdispatch
        · exact Or.inr ⟨rfl, hrun, hstuck, hnofetch, hnodispatch⟩

/-- A cycle ends the loop or lowers the measure. -/
theorem cycle_progress (trace : Trace) (simInsn n : Nat) (hnl : NoLostWriter trace simInsn)
    (h : (runTomasulo trace simInsn n).stage = .cdbToRetire) :
    Returned trace simInsn (n + 6) ∨
      ((runTomasulo trace simInsn (n + 6)).stage = .cdbToRetire ∧
        measure simInsn (runTomasulo trace simInsn (n + 6))
          < measure simInsn (runTomasulo trace simInsn n)) := by
  -- The invariants are needed at the stages that use them, within one cycle.
  rcases cycle_stages trace simInsn n h with ⟨h1, -, h3, h4, -, h6⟩
  have ho1 := occupancy_runTomasulo trace simInsn (n + 1)
  have hd1 := dataflow_runTomasulo trace simInsn (n + 1)
  have ha1 := awaited_runTomasulo trace simInsn (n + 1) hnl
  have hb1 := fetchBound_runTomasulo trace simInsn (n + 1)
  have hb3 := fetchBound_runTomasulo trace simInsn (n + 3)
  have ho4 := occupancy_runTomasulo trace simInsn (n + 4)
  rw [h1] at ho1 hd1 ha1 hb1
  rw [h3] at hb3
  rw [h4] at ho4
  unfold Returned measure
  rw [h6]
  generalize (runTomasulo trace simInsn n).cycle = cc at *
  generalize (runTomasulo trace simInsn n).state = s at *
  rcases executeToCDB_effect trace cc (cdbToRetire s) with ⟨winner, e⟩
  have hcycle := cycle_work (max simInsn 1) (work_execute (max simInsn 1) e ho1)
    (work_issue trace cc (max simInsn 1) _)
    (work_fetch (max simInsn 1) (fetchToDispatch_effect trace cc _)
      (hb3.below (fun h => Stage.noConfusion h) (fun h => Stage.noConfusion h)))
    (work_dispatch (max simInsn 1) (dispatchToIssue_effect trace cc _) ho4)
  generalize dispatchToIssue trace cc _ = s₅ at hcycle ⊢
  by_cases hdone : (isSimulationDone simInsn s₅).1 = true
  · left
    rw [if_pos hdone]
  · right
    rw [if_neg hdone]
    refine ⟨rfl, ?_⟩
    simp only
    rw [work_done]
    -- Some work was done, or nothing changed and time has passed for the units.
    rcases hcycle with hdrop | ⟨rfl, hidle⟩
    · rw [work_retire] at hdrop
      exact Prod.Lex.toLex_lt_toLex.mpr (Or.inl hdrop)
    · rw [work_retire]
      refine Prod.Lex.toLex_lt_toLex.mpr (Or.inr ⟨rfl, ?_⟩)
      have hdoneneed : remaining (cc + 1) (isSimulationDone simInsn (cdbToRetire s)).2
          = remaining (cc + 1) (cdbToRetire s) := by
        refine remaining_congr (fun u => ?_) ?_ <;> rw [isSimulationDone_frame]
        rcases u <;> rfl
      have hretneed : remaining cc (cdbToRetire s) = remaining cc s :=
        remaining_congr (cdbToRetire_unit s) (by rw [cdbToRetire_frame])
      simp only
      rw [hdoneneed, ← hretneed]
      by_cases hbusy : ∃ u, (cdbToRetire s).unit u ≠ none
      · exact remaining_lt hbusy hidle.execute
      · -- nobody is executing either, so the end test would have succeeded
        have hfree : ∀ u, (cdbToRetire s).unit u = none := not_exists_not.mp hbusy
        rcases empty_of_stuck ho1 hd1 ha1 (cdbToRetire_commonDataBus s) hfree
          (fun u => hidle.issue u (hfree u)) hidle.fetch hidle.dispatch with ⟨hempty, hdont⟩
        refine absurd ?_ hdone
        rw [isSimulationDone, if_pos (hb1.stopped hdont)]
        exact decide_eq_true hempty

/-- The loop ends, as long as nobody who leaves without the bus writes a
    register. -/
theorem terminates (trace : Trace) (simInsn : Nat) (hnl : NoLostWriter trace simInsn) :
    ∃ n, Returned trace simInsn n := by
  -- The measure is compared at the starts of two cycles, six stages apart.
  have hreach := Run.reaches_of_measure (step trace simInsn)
    (fun c => ∃ n, c = runTomasulo trace simInsn n ∧ c.stage = .cdbToRetire)
    (fun c => c.stage = .returned) (measure simInsn) (fun c hc => by
      rcases hc with ⟨n, rfl, hs⟩
      refine ⟨6, ?_⟩
      rw [← runTomasulo_add]
      exact (cycle_progress trace simInsn n hnl hs).imp id
        fun hp => ⟨⟨n + 6, rfl, hp.1⟩, hp.2⟩)
  rcases hreach (runTomasulo trace simInsn 0) ⟨0, rfl, rfl⟩ with ⟨k, hk⟩
  refine ⟨k, ?_⟩
  rw [← runTomasulo_add, Nat.zero_add] at hk
  exact hk

/-- On every trace of an instruction set whose writers broadcast, the loop
    ends, with every queue, station, unit and the bus empty. -/
theorem no_deadlock (trace : Trace) (simInsn : Nat) (hwb : trace.WritersBroadcast) :
    ∃ n, Returned trace simInsn n ∧ (runTomasulo trace simInsn n).state.Empty := by
  rcases terminates trace simInsn (noLostWriter_of_writersBroadcast trace simInsn hwb)
    with ⟨n, hn⟩
  exact ⟨n, hn, (returned_empty trace simInsn n hn).1⟩

theorem no_deadlock_chain :
    ∃ n, Returned chain 3 n ∧ (runTomasulo chain 3 n).state.Empty :=
  no_deadlock chain 3 (by decide +kernel)

end Tomasulo

end MicroArch
