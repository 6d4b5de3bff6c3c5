import MicroArch.Library.Latest
import MicroArch.Tomasulo.Occupancy

/-!
# Register Renaming

What the map table and the `Q` pointers say about program order.

The reference is `Trace.producer`: the youngest instruction below a position
that goes through a station and has the register among its outputs. The map
table tracks it at the dispatch front, and a `Q` pointer captured for an
instruction names the producer as of that instruction. Neither ever names
anything else. What remains is when they are `NULL`, and `Dataflow` says it
is only after the producer has been on the bus; it takes the instructions
already sent as a parameter, because that is a fact about the run and not
about the state.

That a pointer does not dangle is a second invariant, `Awaited`. It needs that
whoever leaves its station without the bus writes no register: such a producer
would never be retired, and whoever waits for it would wait forever.

## Main definitions

* `Trace.StationWriter`: Writes the register, through a station.
* `Trace.producer`: The reference the map table is compared with.
* `Dataflow`: The pointers name producers, and are cleared by the bus only.
* `Captured`: What dispatching an instruction to a station does.
* `Awaited`: What a pointer names is still in a station or on the bus.

## Theorems

* `captured_enter`: The description of a capture holds.
* `dataflow_step`: Every stage preserves the renaming invariant.
* `awaited_step`: Every stage preserves that pointers do not dangle.
-/

namespace MicroArch

namespace Tomasulo

open Latest

variable {trace : Trace} {cc simInsn : Nat} {s s' : State} {winner : Option (FuSlot × Nat)}

/-- The instruction goes through a station and has `r` among its outputs. -/
def Trace.StationWriter (trace : Trace) (r : Fin MD_TOTAL_REGS) (p : Nat) : Prop :=
  trace.InStation p ∧ trace.Writes r p

instance (trace : Trace) (r : Fin MD_TOTAL_REGS) : DecidablePred (trace.StationWriter r) :=
  fun _ => inferInstanceAs (Decidable (_ ∧ _))

/-- The youngest instruction before position `n` that goes through a station
    and writes `r`. -/
def Trace.producer (trace : Trace) (r : Fin MD_TOTAL_REGS) (n : Nat) : Option Nat :=
  latest (trace.StationWriter r) n

theorem producer_lt {r : Fin MD_TOTAL_REGS} {n p : Nat} (h : trace.producer r n = some p) :
    p < n ∧ trace.StationWriter r p := by
  rcases (latest_eq_some n p).mp h with ⟨hlt, hp, -⟩
  exact ⟨hlt, hp⟩

/-- The pointers of the pipeline name producers. A pointer that was cleared
    names one that has been sent. -/
structure Dataflow (trace : Trace) (sent : Nat → Prop) (s : State) : Prop where
  mapTable : ∀ r p, s.mapTable r = some p → trace.producer r s.front = some p
  mapTable_none : ∀ r p, s.mapTable r = none → trace.producer r s.front = some p → sent p
  waits : ∀ p j q, s.Held p → s.Q p j = some q →
    ∃ r, (trace.instr p).rIn j = some r ∧ trace.producer r p = some q
  arrived : ∀ p j r q, s.Held p → (trace.instr p).rIn j = some r → s.Q p j = none →
    trace.producer r p = some q → sent q

theorem dataflow_initial (trace : Trace) (sent : Nat → Prop) :
    Dataflow trace sent State.initial where
  mapTable r p h := absurd h (by simp only [State.initial, reduceCtorEq, not_false_eq_true])
  mapTable_none r p _ h := absurd (producer_lt h).1 (Nat.not_lt_zero p)
  waits p j q _ h := absurd h (by simp only [State.initial, reduceCtorEq, not_false_eq_true])
  arrived p j r q h := by
    rcases h with ⟨i, hi⟩ | ⟨i, hi⟩
    · exact absurd hi (by simp only [State.initial, reduceCtorEq, not_false_eq_true])
    · exact absurd hi (by simp only [State.initial, reduceCtorEq, not_false_eq_true])

theorem Dataflow.mono {sent sent' : Nat → Prop} (h : Dataflow trace sent s)
    (hsent : ∀ p, sent p → sent' p) : Dataflow trace sent' s where
  mapTable := h.mapTable
  mapTable_none r p hm hp := hsent p (h.mapTable_none r p hm hp)
  waits := h.waits
  arrived p j r q hp hr hq hprod := hsent q (h.arrived p j r q hp hr hq hprod)

/-- A stage that adds nobody to the stations, touches no pointer and does not
    move the producers at the front. -/
theorem Dataflow.congr {sent : Nat → Prop} (h : Dataflow trace sent s)
    (hmap : s'.mapTable = s.mapTable) (hQ : s'.Q = s.Q)
    (hfront : ∀ r, trace.producer r s'.front = trace.producer r s.front)
    (hheld : ∀ p, s'.Held p → s.Held p) : Dataflow trace sent s' where
  mapTable r p hm := by
    rw [hfront]
    rw [hmap] at hm
    exact h.mapTable r p hm
  mapTable_none r p hm hp := by
    rw [hfront] at hp
    rw [hmap] at hm
    exact h.mapTable_none r p hm hp
  waits p j q hp hq := by
    rw [hQ] at hq
    exact h.waits p j q (hheld p hp) hq
  arrived p j r q hp hr hq hprod := by
    rw [hQ] at hq
    exact h.arrived p j r q (hheld p hp) hr hq hprod

/-- Retiring clears pointers to the bus only, and what is on the bus has been
    sent. -/
theorem dataflow_retire {sent : Nat → Prop} (h : Dataflow trace sent s)
    (hbus : ∀ p, s.commonDataBus = some p → sent p) : Dataflow trace sent (cdbToRetire s) := by
  have hfront : (cdbToRetire s).front = s.front := by
    rw [cdbToRetire_frame]
    rfl
  refine ⟨fun r p hm => ?_, fun r p hm hp => ?_, fun p j q hp hq => ?_,
    fun p j r q hp hr hq hprod => ?_⟩
  · rw [cdbToRetire_mapTable] at hm
    rw [hfront]
    by_cases hb : s.mapTable r = s.commonDataBus
    · rw [if_pos hb] at hm
      exact absurd hm (by simp only [reduceCtorEq, not_false_eq_true])
    · rw [if_neg hb] at hm
      exact h.mapTable r p hm
  · rw [hfront] at hp
    rcases hx : s.mapTable r with _ | x
    · exact h.mapTable_none r p hx hp
    · -- the entry was cleared now, so it named the instruction on the bus
      have hprod := h.mapTable r x hx
      rw [hp, Option.some.injEq] at hprod
      rw [cdbToRetire_mapTable, hx] at hm
      by_cases hb : some x = s.commonDataBus
      · rw [hprod]
        exact hbus x hb.symm
      · rw [if_neg hb] at hm
        exact absurd hm (by simp only [reduceCtorEq, not_false_eq_true])
  · rw [cdbToRetire_held] at hp
    rw [cdbToRetire_Q] at hq
    by_cases hb : s.Held p ∧ s.Q p j = s.commonDataBus
    · rw [if_pos hb] at hq
      exact absurd hq (by simp only [reduceCtorEq, not_false_eq_true])
    · rw [if_neg hb] at hq
      exact h.waits p j q hp hq
  · rw [cdbToRetire_held] at hp
    rcases hx : s.Q p j with _ | x
    · exact h.arrived p j r q hp hr hx hprod
    · -- the pointer was cleared now, so it named the instruction on the bus
      rcases h.waits p j x hp hx with ⟨r', hr', hprod'⟩
      rw [hr, Option.some.injEq] at hr'
      rw [← hr', hprod, Option.some.injEq] at hprod'
      rw [cdbToRetire_Q, hx] at hq
      by_cases hb : s.Held p ∧ some x = s.commonDataBus
      · rw [hprod']
        exact hbus x hb.2.symm
      · rw [if_neg hb] at hq
        exact absurd hq (by simp only [reduceCtorEq, not_false_eq_true])

theorem dataflow_execute {sent : Nat → Prop} (e : CDBEffect trace cc s s' winner)
    (ho : Occupancy trace s) (h : Dataflow trace sent s) : Dataflow trace sent s' := by
  refine h.congr ?_ ?_ (fun r => ?_) fun p hp => ((e.held ho p).mp hp).1
  · rw [e.frame]
  · rw [e.frame]
  · rw [e.front]

theorem dataflow_issue {sent : Nat → Prop} (h : Dataflow trace sent s) :
    Dataflow trace sent (issueToExecute trace cc s) := by
  refine h.congr ?_ ?_ (fun r => ?_) fun p hp => (issueToExecute_held s p).mp hp
  · rw [issueToExecute_frame]
  · rw [issueToExecute_frame]
  · rw [issueToExecute_frame]
    rfl

/-- Fetching can move the front over traps, which write through no station. -/
theorem dataflow_fetch {sent : Nat → Prop} (heff : FetchEffect trace cc s s')
    (ho : Occupancy trace s) (h : Dataflow trace sent s) : Dataflow trace sent s' := by
  refine h.congr ?_ ?_ (fun r => ?_) fun p hp => ?_
  · rw [heff.frame]
  · rw [heff.frame]
  · exact latest_congr fun p hp => fetch_front ho.queue heff hp.1.1
  · rw [heff.frame] at hp
    exact hp

theorem dataflow_done {sent : Nat → Prop} (h : Dataflow trace sent s) :
    Dataflow trace sent (isSimulationDone simInsn s).2 := by
  rw [isSimulationDone_frame]
  exact h.congr rfl rfl (fun _ => rfl) fun _ hp => hp

/-! ### Capturing producers -/

theorem rename_mapTable (trace : Trace) (cc head : Nat) (t : State) (r : Fin MD_TOTAL_REGS) :
    (rename trace cc head t).mapTable r
      = if trace.Writes r head then some head else t.mapTable r := by
  have hprod : ∀ (o : Reg) (m : Fin MD_TOTAL_REGS → Option Nat),
      produce head o m r = if o = some r then some head else m r := by
    intro o m
    rcases o with _ | x
    · rfl
    · simp only [produce, Function.update_apply, Option.some.injEq, @eq_comm _ r x]
  simp only [rename, hprod]
  -- The second output is written last, so it is looked at first.
  by_cases h1 : (trace.instr head).rOut 1 = some r
  · rw [if_pos h1, if_pos ⟨1, h1⟩]
  · rw [if_neg h1]
    by_cases h0 : (trace.instr head).rOut 0 = some r
    · rw [if_pos h0, if_pos ⟨0, h0⟩]
    · rw [if_neg h0, if_neg]
      intro hcase
      rcases hcase with ⟨o, ho⟩
      match o, ho with
      | 0, ho => exact h0 ho
      | 1, ho => exact h1 ho

/-- The head captures the producers of its inputs before it becomes one. -/
theorem rename_Q (trace : Trace) (cc head : Nat) (t : State) (p : Nat) (j : Fin 3) :
    (rename trace cc head t).Q p j
      = if p = head then ((trace.instr head).rIn j).bind t.mapTable else t.Q p j := by
  simp only [rename, Function.update_apply]
  by_cases hp : p = head
  · rw [if_pos hp, if_pos hp]
    rcases (trace.instr head).rIn j <;> rfl
  · rw [if_neg hp, if_neg hp]

/-- What putting the head in a station does to the pointers and the front. -/
structure Captured (trace : Trace) (head : Nat) (s s' : State) : Prop where
  inStation : trace.InStation head
  front : s.front = head
  held : ∀ p, s'.Held p ↔ s.Held p ∨ p = head
  mapTable : ∀ r, s'.mapTable r = if trace.Writes r head then some head else s.mapTable r
  Q : ∀ p j, s'.Q p j
    = if p = head then ((trace.instr head).rIn j).bind s.mapTable else s.Q p j
  bus : s'.commonDataBus = s.commonDataBus
  producer : ∀ r, trace.producer r s'.front
    = if trace.Writes r head then some head else trace.producer r s.front

theorem captured_enter (cc : Nat) {head : Nat} {t : State} (ho : Occupancy trace s)
    (hq : s.instrQueue 0 = some head) (ht : Entered trace head s t) :
    Captured trace head s (shiftQueue (rename trace cc head t)) := by
  rcases head_facts ho.queue hq with ⟨hhead, -, htrap⟩
  have hframe := entered_frame ht
  have hin : trace.InStation head := by
    rcases ht with ⟨hint, -⟩ | ⟨-, hfp, -⟩
    · exact ⟨htrap, Or.inl hint⟩
    · exact ⟨htrap, Or.inr hfp⟩
  have hmap : t.mapTable = s.mapTable := by rw [hframe]
  refine ⟨hin, hhead, fun p => entered_held ht p, fun r => ?_, fun p j => ?_, ?_, fun r => ?_⟩
  · rw [shiftQueue_frame, ← hmap]
    exact rename_mapTable trace cc head t r
  · rw [shiftQueue_frame, ← hmap]
    refine (rename_Q trace cc head t p j).trans ?_
    rw [hframe]
  · rw [shiftQueue_frame, rename_frame, hframe]
  · -- the instructions below the new front are those below the old one and the head
    have hsucc : trace.producer r (shiftQueue (rename trace cc head t)).front
        = trace.producer r (head + 1) := by
      refine latest_congr fun p hp => ?_
      rw [dispatch_front ho.queue hq (by rw [rename_frame, hframe])
        (by rw [rename_frame, hframe]) (by rw [rename_frame, hframe]) hp.1.1, hhead]
      omega
    rw [hsucc, hhead]
    by_cases hw : trace.Writes r head
    · rw [if_pos hw]
      exact latest_succ_pos ⟨hin, hw⟩
    · rw [if_neg hw]
      exact latest_succ_neg fun h => hw h.2

theorem dataflow_capture {sent : Nat → Prop} {head : Nat} (c : Captured trace head s s')
    (ho : Occupancy trace s) (h : Dataflow trace sent s) : Dataflow trace sent s' := by
  -- whoever was held before the head entered is not the head
  have hne : ∀ p, s.Held p → p ≠ head := by
    intro p hp hph
    have hlt := (ho.held hp).2
    rw [c.front] at hlt
    omega
  refine ⟨fun r p hm => ?_, fun r p hm hp => ?_, fun p j q hp hq => ?_,
    fun p j r q hp hr hq hprod => ?_⟩
  -- An output of the head now names the head, the latest writer below the new front.
  · rw [c.mapTable] at hm
    rw [c.producer]
    by_cases hw : trace.Writes r head
    · rw [if_pos hw] at hm ⊢
      exact hm
    · rw [if_neg hw] at hm ⊢
      exact h.mapTable r p hm
  · rw [c.mapTable] at hm
    rw [c.producer] at hp
    by_cases hw : trace.Writes r head
    · rw [if_pos hw] at hm
      exact absurd hm (by simp only [reduceCtorEq, not_false_eq_true])
    · rw [if_neg hw] at hm hp
      exact h.mapTable_none r p hm hp
  · rw [c.Q] at hq
    rcases (c.held p).mp hp with hp | rfl
    · rw [if_neg (hne p hp)] at hq
      exact h.waits p j q hp hq
    · rw [if_pos rfl] at hq
      -- The head copies the map table, which names the producers at the old front.
      rcases Option.bind_eq_some_iff.mp hq with ⟨r, hr, hm⟩
      have hprod := h.mapTable r q hm
      rw [c.front] at hprod
      exact ⟨r, hr, hprod⟩
  · rw [c.Q] at hq
    rcases (c.held p).mp hp with hp | rfl
    · rw [if_neg (hne p hp)] at hq
      exact h.arrived p j r q hp hr hq hprod
    · rw [if_pos rfl, hr, Option.bind_some] at hq
      rw [← c.front] at hprod
      exact h.mapTable_none r q hq hprod

/-- Evicting the head moves the front past an instruction without a station. -/
theorem evict_producer {head : Nat} (ho : Occupancy trace s) (hq : s.instrQueue 0 = some head)
    (hint : usesIntFU (trace.instr head).op = false)
    (hfp : usesFPFU (trace.instr head).op = false) (r : Fin MD_TOTAL_REGS) :
    trace.producer r (shiftQueue s).front = trace.producer r s.front := by
  refine latest_congr fun p hp => ?_
  rw [dispatch_front ho.queue hq rfl rfl rfl hp.1.1]
  refine ⟨?_, Or.inl⟩
  -- The evicted instruction has no station, so it is no producer.
  intro hcase
  rcases hcase with hlt | rfl
  · exact hlt
  · rcases hp.1.2 with h | h
    · rw [hint] at h
      exact absurd h Bool.false_ne_true
    · rw [hfp] at h
      exact absurd h Bool.false_ne_true

theorem dataflow_dispatch {sent : Nat → Prop} (heff : DispatchEffect trace cc s s')
    (ho : Occupancy trace s) (h : Dataflow trace sent s) : Dataflow trace sent s' := by
  cases heff with
  | empty => exact h
  | full => exact h
  | enter head t hq ht => exact dataflow_capture (captured_enter _ ho hq ht) ho h
  | evict head hq hint hfp =>
      exact h.congr rfl rfl (evict_producer ho hq hint hfp) fun _ hp => hp

/-- Every stage preserves the invariant, as long as what is on the bus when
    it is retired has been sent. -/
theorem dataflow_step {sent : Nat → Prop} (c : Config) (ho : Occupancy trace c.state)
    (h : Dataflow trace sent c.state)
    (hbus : c.stage = .cdbToRetire → ∀ p, c.state.commonDataBus = some p → sent p) :
    Dataflow trace sent (step trace simInsn c).state := by
  unfold step
  cases hs : c.stage with
  | cdbToRetire => exact dataflow_retire h (hbus hs)
  | executeToCDB =>
      rcases executeToCDB_effect trace c.cycle c.state with ⟨winner, e⟩
      exact dataflow_execute e ho h
  | issueToExecute => exact dataflow_issue h
  | fetchToDispatch => exact dataflow_fetch (fetchToDispatch_effect _ _ _) ho h
  | dispatchToIssue => exact dataflow_dispatch (dispatchToIssue_effect _ _ _) ho h
  | isSimulationDone => exact dataflow_done h
  | returned => exact h

/-! ### Waiting for someone -/

/-- What a pointer names is still in a station or on the bus. -/
structure Awaited (s : State) : Prop where
  mapTable : ∀ r q, s.mapTable r = some q → s.Held q ∨ s.commonDataBus = some q
  waits : ∀ p j q, s.Held p → s.Q p j = some q → s.Held q ∨ s.commonDataBus = some q

theorem awaited_initial : Awaited State.initial where
  mapTable r q h := absurd h (by simp only [State.initial, reduceCtorEq, not_false_eq_true])
  waits p j q _ h := absurd h (by simp only [State.initial, reduceCtorEq, not_false_eq_true])

/-- A stage that touches neither pointers, stations nor the bus. -/
theorem Awaited.congr (h : Awaited s) (hmap : s'.mapTable = s.mapTable) (hQ : s'.Q = s.Q)
    (hheld : ∀ p, s'.Held p ↔ s.Held p) (hbus : s'.commonDataBus = s.commonDataBus) :
    Awaited s' where
  mapTable r q hm := by
    rw [hmap] at hm
    rw [hheld, hbus]
    exact h.mapTable r q hm
  waits p j q hp hq := by
    rw [hQ] at hq
    rw [hheld, hbus]
    exact h.waits p j q ((hheld p).mp hp) hq

theorem awaited_retire (h : Awaited s) : Awaited (cdbToRetire s) := by
  refine ⟨fun r q hm => ?_, fun p j q hp hq => ?_⟩
  · rw [cdbToRetire_mapTable] at hm
    rw [cdbToRetire_held]
    -- A pointer that is left does not name the instruction on the bus.
    by_cases hb : s.mapTable r = s.commonDataBus
    · rw [if_pos hb] at hm
      exact absurd hm (by simp only [reduceCtorEq, not_false_eq_true])
    · rw [if_neg hb] at hm
      rcases h.mapTable r q hm with hheld | hbus
      · exact Or.inl hheld
      · exact absurd (hm.trans hbus.symm) hb
  · rw [cdbToRetire_held] at hp
    rw [cdbToRetire_Q] at hq
    rw [cdbToRetire_held]
    by_cases hb : s.Held p ∧ s.Q p j = s.commonDataBus
    · rw [if_pos hb] at hq
      exact absurd hq (by simp only [reduceCtorEq, not_false_eq_true])
    · rw [if_neg hb] at hq
      rcases h.waits p j q hp hq with hheld | hbus
      · exact Or.inl hheld
      · exact absurd ⟨hp, hq.trans hbus.symm⟩ hb

/-- An instruction somebody waits for writes a register. If those that leave
    without the bus write none, it leaves for the bus. -/
theorem awaited_execute {sent : Nat → Prop}
    (hstore : ∀ u q r, FinishedStore trace cc s u q → ¬ trace.Writes r q)
    (e : CDBEffect trace cc s s' winner) (ho : Occupancy trace s) (hd : Dataflow trace sent s)
    (hfree : s.commonDataBus = none) (h : Awaited s) : Awaited s' := by
  have hstay : ∀ r q, trace.StationWriter r q → s.Held q ∨ s.commonDataBus = some q →
      s'.Held q ∨ s'.commonDataBus = some q := by
    intro r q hw hq
    rcases hq with hq | hq
    -- Whoever leaves the stations is on the bus now, or writes nothing.
    · by_cases hl : Leaves trace cc s winner q
      · rcases hl with ⟨u, hst⟩ | ⟨u, hwin⟩
        · exact absurd hw.2 (hstore u q r hst)
        · right
          rw [e.bus, hwin]
          rfl
      · exact Or.inl ((e.held ho q).mpr ⟨hq, hl⟩)
    · rw [hfree] at hq
      exact absurd hq (by simp only [reduceCtorEq, not_false_eq_true])
  have hmap : s'.mapTable = s.mapTable := by rw [e.frame]
  have hQ : s'.Q = s.Q := by rw [e.frame]
  refine ⟨fun r q hm => ?_, fun p j q hp hq => ?_⟩
  · rw [hmap] at hm
    exact hstay r q (producer_lt (hd.mapTable r q hm)).2 (h.mapTable r q hm)
  · rw [hQ] at hq
    have hheld := ((e.held ho p).mp hp).1
    rcases hd.waits p j q hheld hq with ⟨r, -, hprod⟩
    exact hstay r q (producer_lt hprod).2 (h.waits p j q hheld hq)

theorem awaited_capture {head : Nat} (c : Captured trace head s s') (h : Awaited s) :
    Awaited s' := by
  have hkeep : ∀ q, s.Held q ∨ s.commonDataBus = some q →
      s'.Held q ∨ s'.commonDataBus = some q := by
    intro q hq
    rw [c.bus, c.held]
    exact hq.imp_left Or.inl
  refine ⟨fun r q hm => ?_, fun p j q hp hq => ?_⟩
  · rw [c.mapTable] at hm
    -- A new entry names the head, which is in a station now.
    by_cases hw : trace.Writes r head
    · rw [if_pos hw, Option.some.injEq] at hm
      exact Or.inl ((c.held q).mpr (Or.inr hm.symm))
    · rw [if_neg hw] at hm
      exact hkeep q (h.mapTable r q hm)
  · rw [c.Q] at hq
    by_cases hph : p = head
    · rw [if_pos hph] at hq
      rcases Option.bind_eq_some_iff.mp hq with ⟨r, -, hm⟩
      exact hkeep q (h.mapTable r q hm)
    · rw [if_neg hph] at hq
      rcases (c.held p).mp hp with hp | hp
      · exact hkeep q (h.waits p j q hp hq)
      · exact absurd hp hph

theorem awaited_step {sent : Nat → Prop} (c : Config)
    (hstore : c.stage = .executeToCDB →
      ∀ u q r, FinishedStore trace c.cycle c.state u q → ¬ trace.Writes r q)
    (ho : Occupancy trace c.state) (hd : Dataflow trace sent c.state)
    (hfree : c.stage = .executeToCDB → c.state.commonDataBus = none) (h : Awaited c.state) :
    Awaited (step trace simInsn c).state := by
  unfold step
  cases hs : c.stage with
  | cdbToRetire => exact awaited_retire h
  | executeToCDB =>
      rcases executeToCDB_effect trace c.cycle c.state with ⟨winner, e⟩
      exact awaited_execute (hstore hs) e ho hd (hfree hs) h
  | issueToExecute =>
      refine h.congr ?_ ?_ (issueToExecute_held c.state) ?_ <;> rw [issueToExecute_frame]
  | fetchToDispatch =>
      have hf := (fetchToDispatch_effect trace c.cycle c.state).frame
      refine h.congr ?_ ?_ (fun p => ?_) ?_ <;> rw [hf]
      rfl
  | dispatchToIssue =>
      have heff := dispatchToIssue_effect trace c.cycle c.state
      simp only
      generalize dispatchToIssue trace c.cycle c.state = s' at heff
      cases heff with
      | empty => exact h
      | full => exact h
      | enter head t hq ht => exact awaited_capture (captured_enter _ ho hq ht) h
      | evict => exact h.congr rfl rfl (fun _ => Iff.rfl) rfl
  | isSimulationDone =>
      have hf := isSimulationDone_frame simInsn c.state
      simp only
      refine h.congr ?_ ?_ (fun p => ?_) ?_ <;> rw [hf]
      rfl
  | returned => exact h

end Tomasulo

end MicroArch
