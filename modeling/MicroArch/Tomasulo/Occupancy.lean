import MicroArch.Tomasulo.Queue

/-!
# Who Is Where

The structural invariant of the pipeline: which instructions the stations,
the units and the bus can hold.

An integer instruction may sit in a unit after it has left its station. That
is what the double placement of `issueToExecute` leaves behind: the first
broadcast clears the station and one slot, and a second slot still holds the
instruction. So nothing ties an integer slot to a station. The single
floating-point slot is different: its occupant is always still in a station,
and `Occupancy` keeps that.

The bus is free whenever `executeToCDB` runs, since `cdbToRetire` ran just
before, which is why a broadcast never overwrites one that was not retired.

## Main definitions

* `Occupancy`: What each part of the pipeline may hold.
* `Leaves`: The instruction leaves its station in this `executeToCDB`.

## Theorems

* `CDBEffect.held`: Stations lose exactly the instructions that leave.
* `occupancy_step`: Every stage preserves the occupancy invariant.
* `occupancy_runTomasulo`: It holds in every configuration of a run.
* `bus_free`: The bus is free when `executeToCDB` runs.
-/

namespace MicroArch

namespace Tomasulo

variable {trace : Trace} {cc simInsn : Nat} {s s' : State} {winner : Option (FuSlot × Nat)}

/-- What the stations, the units and the bus may hold. -/
structure Occupancy (trace : Trace) (s : State) : Prop where
  queue : QueueInv trace s
  reservINT : ∀ p, Slots.Holds s.reservINT p → trace.IntClass p ∧ p < s.front
  reservFP : ∀ p, Slots.Holds s.reservFP p → trace.FPClass p ∧ p < s.front
  fuINT : ∀ i p, s.unit (.int i) = some p → trace.IntClass p ∧ p < s.front
  fuFP : ∀ i p, s.unit (.fp i) = some p → Slots.Holds s.reservFP p
  bus : ∀ p, s.commonDataBus = some p → trace.InStation p ∧ p < s.front ∧ ¬ s.Held p

theorem Occupancy.held (h : Occupancy trace s) {p : Nat} (hp : s.Held p) :
    trace.InStation p ∧ p < s.front := by
  rw [inStation_iff]
  rcases hp with hp | hp
  · exact ⟨Or.inl (h.reservINT p hp).1, (h.reservINT p hp).2⟩
  · exact ⟨Or.inr (h.reservFP p hp).1, (h.reservFP p hp).2⟩

theorem Occupancy.unit (h : Occupancy trace s) {u : FuSlot} {p : Nat} (hp : s.unit u = some p) :
    trace.InStation p ∧ p < s.front := by
  rcases u with i | i
  · rw [inStation_iff]
    exact ⟨Or.inl (h.fuINT i p hp).1, (h.fuINT i p hp).2⟩
  · exact h.held (Or.inr (h.fuFP i p hp))

theorem occupancy_initial (trace : Trace) : Occupancy trace State.initial where
  queue := ⟨[], fifo_initial trace⟩
  reservINT p hp := by
    rcases hp with ⟨i, hi⟩
    exact absurd hi (by simp only [State.initial, reduceCtorEq, not_false_eq_true])
  reservFP p hp := by
    rcases hp with ⟨i, hi⟩
    exact absurd hi (by simp only [State.initial, reduceCtorEq, not_false_eq_true])
  fuINT i p hp := absurd hp (by simp only [State.unit, State.initial, reduceCtorEq,
    not_false_eq_true])
  fuFP i p hp := absurd hp (by simp only [State.unit, State.initial, reduceCtorEq,
    not_false_eq_true])
  bus p hp := absurd hp (by simp only [State.initial, reduceCtorEq, not_false_eq_true])

/-- The instruction leaves its station: a finished store, or the winner of
    the bus. -/
def Leaves (trace : Trace) (cc : Nat) (s : State) (winner : Option (FuSlot × Nat)) (p : Nat) :
    Prop :=
  (∃ u, FinishedStore trace cc s u p) ∨ ∃ u, winner = some (u, p)

/-- What leaves was in a unit, and had been there for the unit's latency. -/
theorem CDBEffect.leaves_unit (e : CDBEffect trace cc s s' winner) {p : Nat}
    (hp : Leaves trace cc s winner p) :
    ∃ u, s.unit u = some p ∧ s.finished cc u p = true := by
  -- Both ways of leaving start from a finished occupant of a unit.
  rcases hp with ⟨u, hst⟩ | ⟨u, hw⟩
  · exact ⟨u, hst.1, hst.2.1⟩
  · rcases e.oldest u p hw with ⟨hwr, -⟩
    exact ⟨u, hwr.1, hwr.2.1⟩

theorem CDBEffect.holdsFP (e : CDBEffect trace cc s s' winner) (p : Nat) :
    Slots.Holds s'.reservFP p ↔ Slots.Holds s.reservFP p ∧ ∀ i, winner ≠ some (.fp i, p) := by
  constructor
  · intro hcase
    rcases hcase with ⟨j, hj⟩
    rw [e.reservFP] at hj
    exact ⟨⟨j, hj.1⟩, hj.2⟩
  · intro hcase
    rcases hcase with ⟨⟨j, hj⟩, hw⟩
    exact ⟨j, (e.reservFP j p).mpr ⟨hj, hw⟩⟩

theorem CDBEffect.holdsINT (e : CDBEffect trace cc s s' winner) (p : Nat) :
    Slots.Holds s'.reservINT p ↔ Slots.Holds s.reservINT p ∧
      (∀ u, ¬ FinishedStore trace cc s u p) ∧ ∀ i, winner ≠ some (.int i, p) := by
  constructor
  · intro hcase
    rcases hcase with ⟨j, hj⟩
    rw [e.reservINT] at hj
    exact ⟨⟨j, hj.1⟩, hj.2⟩
  · intro hcase
    rcases hcase with ⟨⟨j, hj⟩, hw⟩
    exact ⟨j, (e.reservINT j p).mpr ⟨hj, hw⟩⟩

/-- The stations lose exactly the instructions that leave. Units and stations
    of one class hold instructions of that class, so it does not matter that
    only one class of stations is searched. -/
theorem CDBEffect.held (e : CDBEffect trace cc s s' winner) (h : Occupancy trace s) (p : Nat) :
    s'.Held p ↔ s.Held p ∧ ¬ Leaves trace cc s winner p := by
  unfold State.Held Leaves
  rw [e.holdsFP, e.holdsINT]
  simp only [not_or, not_exists]
  constructor
  · intro hcase
    rcases hcase with ⟨hp, hst, hw⟩ | ⟨hp, hw⟩
    · refine ⟨Or.inl hp, hst, fun u hu => ?_⟩
      rcases u with i | i
      · exact hw i hu
      · -- a floating-point winner is not in an integer station
        have hfp := h.fuFP i p (e.oldest _ p hu).1.1
        exact not_fpClass_of_intClass (h.reservINT p hp).1 (h.reservFP p hfp).1
    · refine ⟨Or.inr hp, fun u hu => ?_, fun u hu => ?_⟩
      · rcases hu.2.2.1 with ⟨i, rfl⟩
        exact not_fpClass_of_intClass (h.fuINT i p hu.1).1 (h.reservFP p hp).1
      · rcases u with i | i
        · exact not_fpClass_of_intClass (h.fuINT i p (e.oldest _ p hu).1.1).1 (h.reservFP p hp).1
        · exact hw i hu
  · intro hcase
    rcases hcase with ⟨hp | hp, hst, hw⟩
    · exact Or.inl ⟨hp, hst, fun i => hw (.int i)⟩
    · exact Or.inr ⟨hp, fun i => hw (.fp i)⟩

/-- The queue is out of reach of `executeToCDB`. -/
theorem CDBEffect.front (e : CDBEffect trace cc s s' winner) : s'.front = s.front := by
  rw [e.frame]
  rfl

theorem occupancy_retire (h : Occupancy trace s) : Occupancy trace (cdbToRetire s) := by
  have hfront : (cdbToRetire s).front = s.front := by
    rw [cdbToRetire_frame]
    rfl
  have hres : (cdbToRetire s).reservINT = s.reservINT ∧ (cdbToRetire s).reservFP = s.reservFP := by
    rw [cdbToRetire_frame]
    exact ⟨rfl, rfl⟩
  refine ⟨?_, ?_, ?_, ?_, ?_, ?_⟩
  · rcases h.queue with ⟨removed, hfifo⟩
    refine ⟨removed, hfifo.congr ?_ ?_ ?_⟩ <;> rw [cdbToRetire_frame]
  · rw [hfront, hres.1]
    exact h.reservINT
  · rw [hfront, hres.2]
    exact h.reservFP
  · intro i p hp
    rw [cdbToRetire_unit] at hp
    rw [hfront]
    exact h.fuINT i p hp
  · intro i p hp
    rw [cdbToRetire_unit] at hp
    rw [hres.2]
    exact h.fuFP i p hp
  · intro p hp
    rw [cdbToRetire_commonDataBus] at hp
    exact absurd hp (by simp only [reduceCtorEq, not_false_eq_true])

theorem occupancy_execute (e : CDBEffect trace cc s s' winner) (h : Occupancy trace s) :
    Occupancy trace s' := by
  refine ⟨?_, fun p hp => ?_, fun p hp => ?_, fun i p hp => ?_, fun i p hp => ?_, fun p hp => ?_⟩
  · rcases h.queue with ⟨removed, hfifo⟩
    refine ⟨removed, hfifo.congr ?_ ?_ ?_⟩ <;> rw [e.frame]
  · rw [e.front]
    exact h.reservINT p ((e.holdsINT p).mp hp).1
  · rw [e.front]
    exact h.reservFP p ((e.holdsFP p).mp hp).1
  · rw [e.unit] at hp
    rw [e.front]
    exact h.fuINT i p hp.1
  · rw [e.unit] at hp
    refine (e.holdsFP p).mpr ⟨h.fuFP i p hp.1, fun j => ?_⟩
    -- there is one floating-point slot, so the winner would have left it
    rw [Subsingleton.elim j i]
    exact hp.2.2
  · rw [e.front, e.held h]
    rw [e.bus] at hp
    -- With a winner the bus holds it, without one it holds what it held.
    rcases hw : winner with _ | ⟨u, q⟩
    · rw [hw] at hp
      rcases h.bus p hp with ⟨hin, hlt, hnot⟩
      exact ⟨hin, hlt, fun hheld => hnot hheld.1⟩
    · rw [hw] at hp
      simp only [Option.map_some, Option.some_or, Option.some.injEq] at hp
      rcases h.unit (e.oldest u q hw).1.1 with ⟨hin, hlt⟩
      rw [← hp]
      refine ⟨hin, hlt, fun hheld => hheld.2 (Or.inr ⟨u, ?_⟩)⟩
      rfl

/-- Who a free slot takes: a ready instruction of the stations that feed it. -/
theorem candidate_facts {u : FuSlot} {p : Nat} (hp : s.candidate trace u = some p) :
    s.HeldFor u p ∧ s.ready p = true := by
  rcases u with i | i
  · rcases oldestReady_eq_some _ p hp with ⟨hheld, hready, -⟩
    exact ⟨hheld, hready⟩
  · rcases oldestReady_eq_some _ p hp with ⟨hheld, hready, -⟩
    exact ⟨hheld, hready⟩

theorem held_of_heldFor {u : FuSlot} {p : Nat} (h : s.HeldFor u p) : s.Held p := by
  rcases u with i | i
  · exact Or.inl h
  · exact Or.inr h

theorem issueToExecute_held (s : State) (p : Nat) :
    (issueToExecute trace cc s).Held p ↔ s.Held p := by
  rw [issueToExecute_frame]
  rfl

theorem occupancy_issue (h : Occupancy trace s) :
    Occupancy trace (issueToExecute trace cc s) := by
  have hfront : (issueToExecute trace cc s).front = s.front := by
    rw [issueToExecute_frame]
    rfl
  have hres : (issueToExecute trace cc s).reservINT = s.reservINT ∧
      (issueToExecute trace cc s).reservFP = s.reservFP := by
    rw [issueToExecute_frame]
    exact ⟨rfl, rfl⟩
  refine ⟨?_, ?_, ?_, fun i p hp => ?_, fun i p hp => ?_, fun p hp => ?_⟩
  · rcases h.queue with ⟨removed, hfifo⟩
    refine ⟨removed, hfifo.congr ?_ ?_ ?_⟩ <;> rw [issueToExecute_frame]
  · rw [hfront, hres.1]
    exact h.reservINT
  · rw [hfront, hres.2]
    exact h.reservFP
  · rw [issueToExecute_unit, Option.or_eq_some_iff] at hp
    rw [hfront]
    -- The occupant was there before, or is a candidate from a station.
    rcases hp with hp | ⟨-, hp⟩
    · exact h.fuINT i p hp
    · exact h.reservINT p (candidate_facts hp).1
  · rw [issueToExecute_unit, Option.or_eq_some_iff] at hp
    rw [hres.2]
    rcases hp with hp | ⟨-, hp⟩
    · exact h.fuFP i p hp
    · exact (candidate_facts hp).1
  · rw [hfront, issueToExecute_held]
    rw [show (issueToExecute trace cc s).commonDataBus = s.commonDataBus by
      rw [issueToExecute_frame]] at hp
    exact h.bus p hp

theorem occupancy_fetch (heff : FetchEffect trace cc s s') (h : Occupancy trace s) :
    Occupancy trace s' := by
  -- Fetching may move the front past traps, but past no instruction of a station.
  have hfront : ∀ p, trace.InStation p → (p < s'.front ↔ p < s.front) :=
    fun p hp => fetch_front h.queue heff hp.1
  have hINT : s'.reservINT = s.reservINT := by rw [heff.frame]
  have hFP : s'.reservFP = s.reservFP := by rw [heff.frame]
  have hunit : ∀ u, s'.unit u = s.unit u := by
    intro u
    rw [heff.frame]
    rcases u <;> rfl
  have hheld : ∀ p, s'.Held p ↔ s.Held p := by
    intro p
    rw [State.Held, State.Held, hINT, hFP]
  refine ⟨?_, fun p hp => ?_, fun p hp => ?_, fun i p hp => ?_, fun i p hp => ?_, fun p hp => ?_⟩
  · rcases h.queue with ⟨removed, hfifo⟩
    exact ⟨removed, fifo_fetch heff hfifo⟩
  · rw [hINT] at hp
    have hs := h.reservINT p hp
    exact ⟨hs.1, (hfront p (h.held (Or.inl hp)).1).mpr hs.2⟩
  · rw [hFP] at hp
    have hs := h.reservFP p hp
    exact ⟨hs.1, (hfront p (h.held (Or.inr hp)).1).mpr hs.2⟩
  · rw [hunit] at hp
    have hs := h.fuINT i p hp
    exact ⟨hs.1, (hfront p (h.unit hp).1).mpr hs.2⟩
  · rw [hunit] at hp
    rw [hFP]
    exact h.fuFP i p hp
  · rw [show s'.commonDataBus = s.commonDataBus by rw [heff.frame]] at hp
    rcases h.bus p hp with ⟨hin, hlt, hnot⟩
    rw [hheld]
    exact ⟨hin, (hfront p hin).mpr hlt, hnot⟩

/-- The state after `dispatchToIssue` put the head in a station. -/
theorem occupancy_enter {head : Nat} {t : State} (h : Occupancy trace s)
    (hq : s.instrQueue 0 = some head) (ht : Entered trace head s t) :
    Occupancy trace (shiftQueue (rename trace cc head t)) := by
  rcases head_facts h.queue hq with ⟨hhead, hfetched, htrap⟩
  have hframe := entered_frame ht
  have hfront : ∀ p, trace.InStation p →
      (p < (shiftQueue (rename trace cc head t)).front ↔ p < s.front ∨ p = head) := by
    intro p hp
    refine dispatch_front h.queue hq ?_ ?_ ?_ hp.1 <;> rw [rename_frame, hframe]
  have hunit : ∀ u, (shiftQueue (rename trace cc head t)).unit u = s.unit u := by
    intro u
    rw [shiftQueue_frame, rename_frame, hframe]
    rcases u <;> rfl
  -- Whoever is in a station now was there before, or is the head.
  have hINT : ∀ p, Slots.Holds t.reservINT p → trace.IntClass p ∧ (p < s.front ∨ p = head) := by
    intro p hp
    rcases ht with ⟨hint, i, hi, rfl⟩ | ⟨-, -, i, -, rfl⟩
    · rcases (Slots.holds_update _ _ _ _ hi).mp hp with hp | rfl
      · exact ⟨(h.reservINT p hp).1, Or.inl (h.reservINT p hp).2⟩
      · exact ⟨⟨htrap, hint⟩, Or.inr rfl⟩
    · exact ⟨(h.reservINT p hp).1, Or.inl (h.reservINT p hp).2⟩
  have hFP : ∀ p, Slots.Holds t.reservFP p → trace.FPClass p ∧ (p < s.front ∨ p = head) := by
    intro p hp
    rcases ht with ⟨-, i, -, rfl⟩ | ⟨hint, hfp, i, hi, rfl⟩
    · exact ⟨(h.reservFP p hp).1, Or.inl (h.reservFP p hp).2⟩
    · rcases (Slots.holds_update _ _ _ _ hi).mp hp with hp | rfl
      · exact ⟨(h.reservFP p hp).1, Or.inl (h.reservFP p hp).2⟩
      · exact ⟨⟨htrap, hint, hfp⟩, Or.inr rfl⟩
  refine ⟨?_, fun p hp => ?_, fun p hp => ?_, fun i p hp => ?_, fun i p hp => ?_, fun p hp => ?_⟩
  · rcases h.queue with ⟨removed, hfifo⟩
    refine ⟨_, fifo_shift hfifo hq ?_ ?_ ?_⟩ <;> rw [rename_frame, hframe]
  · rcases hINT p hp with ⟨hc, hlt⟩
    exact ⟨hc, (hfront p ((inStation_iff trace p).mpr (Or.inl hc))).mpr hlt⟩
  · rcases hFP p hp with ⟨hc, hlt⟩
    exact ⟨hc, (hfront p ((inStation_iff trace p).mpr (Or.inr hc))).mpr hlt⟩
  · rw [hunit] at hp
    exact ⟨(h.fuINT i p hp).1, (hfront p (h.unit hp).1).mpr (Or.inl (h.fuINT i p hp).2)⟩
  · rw [hunit] at hp
    rcases ht with ⟨-, j, -, rfl⟩ | ⟨-, -, j, hj, rfl⟩
    · exact h.fuFP i p hp
    · exact (Slots.holds_update _ _ _ _ hj).mpr (Or.inl (h.fuFP i p hp))
  -- The instruction on the bus lies before the front, so it is not the head.
  · have hbus : (shiftQueue (rename trace cc head t)).commonDataBus = s.commonDataBus := by
      rw [shiftQueue_frame, rename_frame, hframe]
    rw [hbus] at hp
    rcases h.bus p hp with ⟨hin, hlt, hnot⟩
    refine ⟨hin, (hfront p hin).mpr (Or.inl hlt), fun hheld => ?_⟩
    rcases (entered_held ht p).mp hheld with hheld | rfl
    · exact hnot hheld
    · omega

/-- The state after `dispatchToIssue` evicted the head. -/
theorem occupancy_evict {head : Nat} (h : Occupancy trace s) (hq : s.instrQueue 0 = some head) :
    Occupancy trace (shiftQueue s) := by
  -- What lies before the front still does after it has moved.
  have hfront : ∀ p, trace.InStation p → p < s.front → p < (shiftQueue s).front :=
    fun p hp hlt => (dispatch_front h.queue hq rfl rfl rfl hp.1).mpr (Or.inl hlt)
  refine ⟨?_, fun p hp => ?_, fun p hp => ?_, fun i p hp => ?_, h.fuFP, fun p hp => ?_⟩
  · rcases h.queue with ⟨removed, hfifo⟩
    exact ⟨_, fifo_shift hfifo hq rfl rfl rfl⟩
  · exact ⟨(h.reservINT p hp).1, hfront p (h.held (Or.inl hp)).1 (h.reservINT p hp).2⟩
  · exact ⟨(h.reservFP p hp).1, hfront p (h.held (Or.inr hp)).1 (h.reservFP p hp).2⟩
  · exact ⟨(h.fuINT i p hp).1, hfront p (h.unit (u := .int i) hp).1 (h.fuINT i p hp).2⟩
  · rcases h.bus p hp with ⟨hin, hlt, hnot⟩
    exact ⟨hin, hfront p hin hlt, hnot⟩

theorem occupancy_dispatch (heff : DispatchEffect trace cc s s') (h : Occupancy trace s) :
    Occupancy trace s' := by
  cases heff with
  | empty => exact h
  | full => exact h
  | enter head t hq ht => exact occupancy_enter h hq ht
  | evict head hq => exact occupancy_evict h hq

/-- The end test only stops fetching. -/
theorem isSimulationDone_frame (simInsn : Nat) (s : State) :
    (isSimulationDone simInsn s).2
      = { s with dontFetch := (isSimulationDone simInsn s).2.dontFetch } := by
  unfold isSimulationDone
  by_cases hn : s.fetchIndex ≥ simInsn
  · rw [if_pos hn]
  · rw [if_neg hn]

theorem occupancy_done (h : Occupancy trace s) :
    Occupancy trace (isSimulationDone simInsn s).2 := by
  rw [isSimulationDone_frame]
  rcases h.queue with ⟨removed, hfifo⟩
  exact ⟨⟨removed, hfifo.congr rfl rfl rfl⟩, h.reservINT, h.reservFP, h.fuINT, h.fuFP, h.bus⟩

theorem occupancy_step (c : Config) (h : Occupancy trace c.state) :
    Occupancy trace (step trace simInsn c).state := by
  unfold step
  cases hs : c.stage with
  | cdbToRetire => exact occupancy_retire h
  | executeToCDB =>
      rcases executeToCDB_effect trace c.cycle c.state with ⟨winner, e⟩
      exact occupancy_execute e h
  | issueToExecute => exact occupancy_issue h
  | fetchToDispatch => exact occupancy_fetch (fetchToDispatch_effect _ _ _) h
  | dispatchToIssue => exact occupancy_dispatch (dispatchToIssue_effect _ _ _) h
  | isSimulationDone => exact occupancy_done h
  | returned => exact h

theorem occupancy_runTomasulo (trace : Trace) (simInsn n : Nat) :
    Occupancy trace (runTomasulo trace simInsn n).state :=
  Run.runFor_invariant _ (fun c => Occupancy trace c.state) _ (occupancy_initial trace)
    (fun c h => occupancy_step c h) n

/-- `executeToCDB` always finds the bus free. -/
theorem bus_free (trace : Trace) (simInsn n : Nat)
    (h : (runTomasulo trace simInsn n).stage = .executeToCDB) :
    (runTomasulo trace simInsn n).state.commonDataBus = none := by
  cases n with
  | zero => rfl
  | succ n =>
      rw [runTomasulo_succ] at h ⊢
      generalize runTomasulo trace simInsn n = c at h
      unfold step at h ⊢
      cases hs : c.stage with
      | cdbToRetire => exact cdbToRetire_commonDataBus c.state
      | isSimulationDone =>
          rw [hs] at h
          simp only at h
          by_cases hd : (isSimulationDone simInsn c.state).1 = true
          · rw [if_pos hd] at h
            exact absurd h (by decide)
          · rw [if_neg hd] at h
            exact absurd h (by decide)
      | _ =>
          rw [hs] at h
          simp only [hs, reduceCtorEq] at h

end Tomasulo

end MicroArch
