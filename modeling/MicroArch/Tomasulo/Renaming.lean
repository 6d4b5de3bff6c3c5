import MicroArch.Tomasulo.Dataflow

/-!
# Renaming Along a Run

The renaming invariants of every configuration of a run, and what they say
about the order instructions start in.

`Dataflow` leaves open which instructions have been sent. Along a run these
are the ones broadcast in an earlier cycle, `SentBefore`. A broadcast happens
one stage before the rest of its cycle and is retired at the start of the
next one, so the cycle number alone does not order the two; `busClock` is the
cycle from which on the occupant of the bus counts as sent.

That pointers do not dangle rests on the instruction set, where every
instruction with an output either writes the bus or needs no station. What a
run needs of it is `NoLostWriter`, which also holds of runs in which nothing
ever leaves a station without the bus.

The map table names producers that go through stations. It does not name the
last writer of a register in general: `JAL` and `JALR` write one and are
dropped from the queue without touching the map table, and an older writer
still in flight is captured in their place. `captures_mostRecent_iff` says
that this is the only way a capture goes wrong.

## Main definitions

* `SentBefore`: The instruction has been on the bus in an earlier cycle.
* `YoungestStationed`: The youngest earlier writer of a register that has
  entered a station.
* `NoLostWriter`: Nobody who leaves without the bus writes a register.
* `Grounded`: No pointer dangles and none points forward.
* `CapturesMostRecent`: A capture names the most recent writer or nothing.

## Theorems

* `dataflow_runTomasulo`, `awaited_runTomasulo`: The invariants of a run.
* `enters_of_lt_front`: What the front has passed has entered a station.
* `raw_dependences_respected`: No instruction starts before the producers of
  its inputs have been broadcast.
* `no_dangling_waits`: Pointers name older writers that are still in flight.
* `captures_iff_stationed`: When the captures of one step are right.
* `captures_mostRecent_iff`: When all captures of a run are right.
-/

namespace MicroArch

namespace Tomasulo

open Latest

variable {trace : Trace} {simInsn : Nat}

/-- The instruction has been put on the bus in a cycle before `t`. -/
def SentBefore (trace : Trace) (simInsn t p : Nat) : Prop :=
  ∃ m, BroadcastAt trace simInsn m p ∧ (runTomasulo trace simInsn m).cycle < t

/-- The cycle from which on the occupant of the bus has been sent: the next
    one while the stages after `executeToCDB` run. -/
def Config.busClock (c : Config) : Nat :=
  match c.stage with
  | .issueToExecute | .fetchToDispatch | .dispatchToIssue => c.cycle + 1
  | _ => c.cycle

/-- The stages other than the two that work on the bus leave it alone. -/
theorem step_bus (trace : Trace) (simInsn : Nat) (c : Config) (hr : c.stage ≠ .cdbToRetire)
    (he : c.stage ≠ .executeToCDB) :
    (step trace simInsn c).state.commonDataBus = c.state.commonDataBus ∧
      (step trace simInsn c).busClock = c.busClock := by
  unfold step Config.busClock
  cases hs : c.stage with
  | cdbToRetire => exact absurd hs hr
  | executeToCDB => exact absurd hs he
  | issueToExecute =>
      refine ⟨?_, rfl⟩
      simp only
      rw [issueToExecute_frame]
  | fetchToDispatch =>
      refine ⟨?_, rfl⟩
      simp only
      rw [(fetchToDispatch_effect trace c.cycle c.state).frame]
  | dispatchToIssue =>
      refine ⟨?_, rfl⟩
      have heff := dispatchToIssue_effect trace c.cycle c.state
      simp only
      generalize dispatchToIssue trace c.cycle c.state = s' at heff
      cases heff with
      | empty => rfl
      | full => rfl
      | enter head t hq ht => rw [shiftQueue_frame, rename_frame, entered_frame ht]
      | evict => rfl
  | isSimulationDone =>
      have hf := isSimulationDone_frame simInsn c.state
      simp only
      refine ⟨by rw [hf], ?_⟩
      -- Whether the loop ends or goes on, the next stage reads the same clock.
      by_cases hd : (isSimulationDone simInsn c.state).1 = true
      · simp only [hd, if_true]
      · simp only [hd]
        rfl
  | returned => exact ⟨rfl, by simp only [hs]⟩

/-- What is on the bus has been broadcast, and is sent by the time the bus
    is read. -/
theorem bus_sent (trace : Trace) (simInsn n : Nat) (p : Nat)
    (hp : (runTomasulo trace simInsn n).state.commonDataBus = some p) :
    SentBefore trace simInsn (runTomasulo trace simInsn n).busClock p := by
  -- By induction on the run: the bus was filled by the last `executeToCDB`.
  induction n with
  | zero => exact absurd hp (by simp only [runTomasulo, Run.runFor_zero, Config.initial,
      State.initial, reduceCtorEq, not_false_eq_true])
  | succ n ih =>
      by_cases hr : (runTomasulo trace simInsn n).stage = .cdbToRetire
      · -- the bus has just been freed
        rw [runTomasulo_succ, step, hr] at hp
        simp only [cdbToRetire_commonDataBus, reduceCtorEq] at hp
      · by_cases he : (runTomasulo trace simInsn n).stage = .executeToCDB
        · refine ⟨n, ⟨he, hp⟩, ?_⟩
          rw [runTomasulo_succ, step, he]
          exact Nat.lt_succ_self _
        · rcases step_bus trace simInsn _ hr he with ⟨hbus, hclock⟩
          rw [runTomasulo_succ, hbus] at hp
          rw [runTomasulo_succ, hclock]
          exact ih hp

theorem dataflow_runTomasulo (trace : Trace) (simInsn n : Nat) :
    Dataflow trace (SentBefore trace simInsn (runTomasulo trace simInsn n).cycle)
      (runTomasulo trace simInsn n).state := by
  induction n with
  | zero => exact dataflow_initial trace _
  | succ n ih =>
      have hbus : (runTomasulo trace simInsn n).stage = .cdbToRetire →
          ∀ p, (runTomasulo trace simInsn n).state.commonDataBus = some p →
            SentBefore trace simInsn (runTomasulo trace simInsn n).cycle p := by
        intro hs p hp
        have hsent := bus_sent trace simInsn n p hp
        rw [Config.busClock, hs] at hsent
        exact hsent
      rw [runTomasulo_succ]
      -- What has been sent stays sent, so the invariant may move to the later cycle.
      refine (dataflow_step _ (occupancy_runTomasulo trace simInsn n) ih hbus).mono
        fun p ⟨m, hm, hlt⟩ => ⟨m, hm, ?_⟩
      exact Nat.lt_of_lt_of_le hlt (cycle_mono trace simInsn n (n + 1) (Nat.le_succ n))

/-- Nobody who leaves a station without the bus writes a register. -/
def NoLostWriter (trace : Trace) (simInsn : Nat) : Prop :=
  ∀ n u q r, (runTomasulo trace simInsn n).stage = .executeToCDB →
    FinishedStore trace (runTomasulo trace simInsn n).cycle (runTomasulo trace simInsn n).state
      u q → ¬ trace.Writes r q

theorem noLostWriter_of_writersBroadcast (trace : Trace) (simInsn : Nat)
    (hwb : trace.WritersBroadcast) : NoLostWriter trace simInsn := by
  intro n u q r _ hst hw
  have hin := ((occupancy_runTomasulo trace simInsn n).unit hst.1).1
  -- A store would have to write the bus, and it does not.
  have hcdb := hwb q hin ⟨r, hw⟩
  rw [hst.2.2.2] at hcdb
  exact absurd hcdb Bool.false_ne_true

theorem awaited_runTomasulo (trace : Trace) (simInsn n : Nat) (hnl : NoLostWriter trace simInsn) :
    Awaited (runTomasulo trace simInsn n).state := by
  induction n with
  | zero => exact awaited_initial
  | succ n ih =>
      exact awaited_step _ (fun hs u q r => hnl n u q r hs) (occupancy_runTomasulo trace simInsn n)
        (dataflow_runTomasulo trace simInsn n) (bus_free trace simInsn n) ih

/-! ### Entering and starting -/

/-- Only the head of the queue enters a station, and it captures. -/
theorem captured_of_enters {n c : Nat} (h : EntersAt trace simInsn n c) :
    Captured trace c (runTomasulo trace simInsn n).state
      (runTomasulo trace simInsn (n + 1)).state := by
  rcases h with ⟨hs, hnot, hheld⟩
  have ho := occupancy_runTomasulo trace simInsn n
  have heff := dispatchToIssue_effect trace (runTomasulo trace simInsn n).cycle
    (runTomasulo trace simInsn n).state
  have hstep : (runTomasulo trace simInsn (n + 1)).state
      = dispatchToIssue trace (runTomasulo trace simInsn n).cycle
        (runTomasulo trace simInsn n).state := by
    rw [runTomasulo_succ, step, hs]
  rw [hstep] at hheld ⊢
  -- Three of the four ways leave the stations as they are.
  generalize dispatchToIssue trace _ _ = s' at heff hheld
  cases heff with
  | empty => exact absurd hheld hnot
  | full => exact absurd hheld hnot
  | enter head t hq ht =>
      have hcap := captured_enter (runTomasulo trace simInsn n).cycle ho hq ht
      rcases (hcap.held c).mp hheld with hold | rfl
      · exact absurd hold hnot
      · exact hcap
  | evict => exact absurd hheld hnot

/-- The stages other than the two that work on the queue do not move the
    front. -/
theorem step_front (c : Config) (hf : c.stage ≠ .fetchToDispatch)
    (hd : c.stage ≠ .dispatchToIssue) : (step trace simInsn c).state.front = c.state.front := by
  rcases step_queue trace simInsn c hf hd with ⟨hq, -, hfi⟩
  rw [State.front, State.front, hq, hfi]

/-- The front only passes an instruction that goes through a station when it
    enters one. -/
theorem lt_front_succ {p : Nat} (hp : trace.InStation p) (n : Nat)
    (hlt : p < (runTomasulo trace simInsn (n + 1)).state.front) :
    p < (runTomasulo trace simInsn n).state.front ∨ EntersAt trace simInsn n p := by
  have ho := occupancy_runTomasulo trace simInsn n
  by_cases hf : (runTomasulo trace simInsn n).stage = .fetchToDispatch
  -- Fetching passes traps only.
  · have heff := fetchToDispatch_effect trace (runTomasulo trace simInsn n).cycle
      (runTomasulo trace simInsn n).state
    rw [runTomasulo_succ, step, hf] at hlt
    exact Or.inl ((fetch_front ho.queue heff hp.1).mp hlt)
  · by_cases hd : (runTomasulo trace simInsn n).stage = .dispatchToIssue
    · have heff := dispatchToIssue_effect trace (runTomasulo trace simInsn n).cycle
        (runTomasulo trace simInsn n).state
      have hstep : (runTomasulo trace simInsn (n + 1)).state
          = dispatchToIssue trace (runTomasulo trace simInsn n).cycle
            (runTomasulo trace simInsn n).state := by
        rw [runTomasulo_succ, step, hd]
      unfold EntersAt
      rw [hstep] at hlt ⊢
      generalize dispatchToIssue trace _ _ = s' at heff hlt ⊢
      cases heff with
      | empty => exact Or.inl hlt
      | full => exact Or.inl hlt
      | enter head t hq ht =>
          have hcap := captured_enter (runTomasulo trace simInsn n).cycle ho hq ht
          rcases (dispatch_front ho.queue hq (by rw [rename_frame, entered_frame ht])
            (by rw [rename_frame, entered_frame ht])
            (by rw [rename_frame, entered_frame ht]) hp.1).mp hlt with h | rfl
          -- The head is the one instruction the front can pass.
          · exact Or.inl h
          · refine Or.inr ⟨hd, fun hheld => ?_, (hcap.held p).mpr (Or.inr rfl)⟩
            have hbefore := (ho.held hheld).2
            rw [hcap.front] at hbefore
            omega
      | evict head hq hint hfp =>
          rcases (dispatch_front ho.queue hq rfl rfl rfl hp.1).mp hlt with h | rfl
          · exact Or.inl h
          · rcases hp.2 with h | h
            · rw [hint] at h
              exact absurd h Bool.false_ne_true
            · rw [hfp] at h
              exact absurd h Bool.false_ne_true
    · rw [runTomasulo_succ, step_front _ hf hd] at hlt
      exact Or.inl hlt

/-- Whatever goes through a station and has been passed by the front has
    entered one. -/
theorem enters_of_lt_front {p : Nat} (hp : trace.InStation p) (n : Nat)
    (hlt : p < (runTomasulo trace simInsn n).state.front) :
    ∃ m, m < n ∧ EntersAt trace simInsn m p := by
  -- By induction on the run: the front starts at zero.
  induction n with
  | zero => exact absurd hlt (Nat.not_lt_zero p)
  | succ n ih =>
      rcases lt_front_succ hp n hlt with h | h
      · rcases ih h with ⟨m, hm, hent⟩
        exact ⟨m, Nat.lt_succ_of_lt hm, hent⟩
      · exact ⟨n, Nat.lt_succ_self n, h⟩

/-- Only the oldest ready instruction of its stations is started. -/
theorem candidate_of_starts {n p : Nat} {u : FuSlot} (h : StartsAt trace simInsn n u p) :
    (runTomasulo trace simInsn n).state.candidate trace u = some p := by
  rcases h with ⟨hs, hfree, hp⟩
  rw [runTomasulo_succ, step, hs] at hp
  simp only at hp
  rw [issueToExecute_unit, hfree, Option.none_or] at hp
  exact hp

/-! ### Dependences -/

/-- `p` is the youngest instruction before `c` that has entered a station and
    writes `r`. -/
structure YoungestStationed (trace : Trace) (simInsn : Nat) (r : Fin MD_TOTAL_REGS)
    (c p : Nat) : Prop where
  earlier : p < c
  entered : Stationed trace simInsn p
  writes : trace.Writes r p
  youngest : ∀ q, p < q → q < c → Stationed trace simInsn q → ¬ trace.Writes r q

/-- An instruction placed in a functional unit has had the producer of each
    of its inputs on the bus in an earlier cycle. -/
theorem raw_dependences_respected (trace : Trace) (simInsn n : Nat) (u : FuSlot) (c p : Nat)
    (j : Fin 3) (r : Fin MD_TOTAL_REGS) (hstart : StartsAt trace simInsn n u c)
    (hr : (trace.instr c).rIn j = some r) (hp : YoungestStationed trace simInsn r c p) :
    ∃ m, BroadcastAt trace simInsn m p ∧
      (runTomasulo trace simInsn m).cycle < (runTomasulo trace simInsn n).cycle := by
  have ho := occupancy_runTomasulo trace simInsn n
  rcases candidate_facts (candidate_of_starts hstart) with ⟨hfor, hready⟩
  have hheld := held_of_heldFor hfor
  -- It was ready, so the pointer of this input has been cleared.
  have hnull : (runTomasulo trace simInsn n).state.Q c j = none := by
    simp only [State.ready, Bool.and_eq_true, Option.isNone_iff_eq_none] at hready
    match j with
    | 0 => exact hready.1.1
    | 1 => exact hready.1.2
    | 2 => exact hready.2
  -- The youngest writer that entered a station is the producer of the input.
  have hprod : trace.producer r c = some p := by
    rcases hp.entered with ⟨m, hm⟩
    refine (latest_eq_some c p).mpr ⟨hp.earlier, ⟨(captured_of_enters hm).inStation, hp.writes⟩, ?_⟩
    intro q hpq hqc hq
    -- everything before an instruction in a station has been passed by the front
    have hfront : q < (runTomasulo trace simInsn n).state.front := by
      have hc := (ho.held hheld).2
      omega
    rcases enters_of_lt_front hq.1 n hfront with ⟨m', -, hm'⟩
    exact hp.youngest q hpq hqc ⟨m', hm'⟩ hq.2
  -- An input with a producer but no pointer has arrived.
  exact (dataflow_runTomasulo trace simInsn n).arrived c j r p hheld hr hnull hprod

/-- Two additions, the second of which reads what the first writes. -/
def chain : Trace := simMain [ADD 2 1 1, ADD 3 2 2]

/-- The second addition starts in cycle eight, after the first was broadcast. -/
theorem raw_dependences_respected_chain :
    ∃ m, BroadcastAt chain 3 m 1 ∧
      (runTomasulo chain 3 m).cycle < (runTomasulo chain 3 44).cycle :=
  raw_dependences_respected chain 3 44 (.int 0) 2 1 0 2
    ⟨by decide +kernel, by decide +kernel, by decide +kernel⟩ (by decide +kernel)
    { earlier := by decide
      entered := ⟨10, by decide +kernel, by decide +kernel, by decide +kernel⟩
      writes := by decide +kernel
      youngest := fun q h1 h2 => by omega }

/-- No pointer of the state dangles and none points forward. -/
structure Grounded (trace : Trace) (s : State) : Prop where
  mapTable : ∀ r q, s.mapTable r = some q →
    trace.Writes r q ∧ (s.Held q ∨ s.commonDataBus = some q)
  waits : ∀ p j q, s.Held p → s.Q p j = some q →
    (∃ r, (trace.instr p).rIn j = some r ∧ trace.Writes r q) ∧
      (s.Held q ∨ s.commonDataBus = some q)
  older : ∀ p j q, s.Held p → s.Q p j = some q →
    (trace.instr q).index < (trace.instr p).index

/-- In every configuration of a run the map table and the `Q` pointers name
    writers of the register that are still in a station or on the bus, and
    nobody waits for a younger instruction. -/
theorem no_dangling_waits (trace : Trace) (simInsn n : Nat) (hwb : trace.WritersBroadcast) :
    Grounded trace (runTomasulo trace simInsn n).state := by
  have hd := dataflow_runTomasulo trace simInsn n
  have ha := awaited_runTomasulo trace simInsn n
    (noLostWriter_of_writersBroadcast trace simInsn hwb)
  refine ⟨fun r q hm => ⟨?_, ha.mapTable r q hm⟩, fun p j q hp hq => ⟨?_, ha.waits p j q hp hq⟩,
    fun p j q hp hq => ?_⟩
  · exact (producer_lt (hd.mapTable r q hm)).2.2
  · rcases hd.waits p j q hp hq with ⟨r, hr, hprod⟩
    exact ⟨r, hr, (producer_lt hprod).2.2⟩
  -- Producers come earlier in the trace, and indices follow positions.
  · rcases hd.waits p j q hp hq with ⟨r, -, hprod⟩
    have hin := ((occupancy_runTomasulo trace simInsn n).held hp).1
    exact instr_index_lt trace q p (producer_lt hprod).1 (op_ne_zero_of_inStation hin)

/-- The second addition of the chain waits for the first. -/
theorem no_dangling_waits_chain :
    (runTomasulo chain 3 17).state.Q 2 0 = some 1 ∧
      Grounded chain (runTomasulo chain 3 17).state :=
  ⟨by decide +kernel, no_dangling_waits chain 3 17 (by decide +kernel)⟩

/-! ### Writers that bypass the stations -/

/-- The captures of a step name the most recent writer of the register, of
    any kind, or nothing. -/
def CapturesMostRecent (trace : Trace) (simInsn n : Nat) : Prop :=
  ∀ c j r q, EntersAt trace simInsn n c → (trace.instr c).rIn j = some r →
    (runTomasulo trace simInsn (n + 1)).state.Q c j = some q →
    latest (trace.Writes r) c = some q

/-- When the map table has an entry for an input of the instruction that
    enters, the most recent writer of that register goes through a station. -/
def WriterStationed (trace : Trace) (simInsn n : Nat) : Prop :=
  ∀ c j r w, EntersAt trace simInsn n c → (trace.instr c).rIn j = some r →
    (runTomasulo trace simInsn n).state.mapTable r ≠ none →
    latest (trace.Writes r) c = some w → trace.InStation w

/-- A capture reads the map table, which names the producer at the front. -/
theorem captured_value {n c : Nat} {j : Fin 3} {r : Fin MD_TOTAL_REGS}
    (hent : EntersAt trace simInsn n c) (hr : (trace.instr c).rIn j = some r) :
    (runTomasulo trace simInsn (n + 1)).state.Q c j
      = (runTomasulo trace simInsn n).state.mapTable r := by
  rw [(captured_of_enters hent).Q, if_pos rfl, hr, Option.bind_some]

theorem mapTable_producer {n c q : Nat} {r : Fin MD_TOTAL_REGS}
    (hent : EntersAt trace simInsn n c)
    (hm : (runTomasulo trace simInsn n).state.mapTable r = some q) :
    trace.producer r c = some q := by
  have hprod := (dataflow_runTomasulo trace simInsn n).mapTable r q hm
  rw [(captured_of_enters hent).front] at hprod
  exact hprod

theorem captures_iff_stationed (trace : Trace) (simInsn n : Nat) :
    CapturesMostRecent trace simInsn n ↔ WriterStationed trace simInsn n := by
  constructor
  · intro h c j r w hent hr hm hw
    rcases hq : (runTomasulo trace simInsn n).state.mapTable r with _ | q
    · exact absurd hq hm
    · -- the capture was right, so the most recent writer is the producer
      have hlast := h c j r q hent hr ((captured_value hent hr).trans hq)
      rw [hw, Option.some.injEq] at hlast
      rw [hlast]
      exact (producer_lt (mapTable_producer hent hq)).2.1
  · intro h c j r q hent hr hq
    rw [captured_value hent hr] at hq
    have hprod := mapTable_producer hent hq
    rcases hw : latest (trace.Writes r) c with _ | w
    · rcases producer_lt hprod with ⟨hlt, hwr⟩
      exact absurd hwr.2 ((latest_eq_none c).mp hw q hlt)
    · have hin := h c j r w hent hr (by rw [hq]; exact Option.some_ne_none q) hw
      -- The most recent writer goes through a station, so it is the producer.
      have hwprod : trace.producer r c = some w :=
        latest_of_subset (fun _ hx => hx.2) hw ⟨hin, ((latest_eq_some c w).mp hw).2.1⟩
      rw [← hwprod, hprod]

/-- Up to any point of a run, all captures name the most recent writer of
    their register or nothing if and only if the most recent writer of every
    register that was read while in the map table goes through a station. -/
theorem captures_mostRecent_iff (trace : Trace) (simInsn bound : Nat) :
    (∀ n, n < bound → CapturesMostRecent trace simInsn n) ↔
      ∀ n, n < bound → WriterStationed trace simInsn n := by
  constructor
  · exact fun h n hn => (captures_iff_stationed trace simInsn n).mp (h n hn)
  · exact fun h n hn => (captures_iff_stationed trace simInsn n).mpr (h n hn)

/-- A load into the link register, a call that overwrites it, and a use. -/
def linkRegister : Trace := simMain [LW 31 29, JAL, ADD 2 31 31, SYSCALL]

/-- The addition captures the load, although the call wrote the register
    after it. -/
theorem link_register_captured : ¬ ∀ n, CapturesMostRecent linkRegister 4 n := by
  intro h
  have hcap := h 22 3 0 31 1 ⟨by decide +kernel, by decide +kernel, by decide +kernel⟩
    (by decide +kernel) (by decide +kernel)
  exact absurd hcap (by decide +kernel)

end Tomasulo

end MicroArch
