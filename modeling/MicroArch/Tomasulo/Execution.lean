import MicroArch.Tomasulo.Progress
import MicroArch.Tomasulo.Timing

/-!
# How Often Instructions Execute

What a whole run does with an instruction: how often it is placed in a unit
and broadcast, and which instructions it reads at all.

There is one floating-point slot, and its occupant stays in its station until
it takes the bus. An instruction that is placed there is `Settled` from then
on: it is in that slot, or it has left everything. So a floating-point
instruction is placed once and broadcast once in every run.

Integer instructions are different. `issueToExecute` searches the stations
anew for every free slot and an instruction that was placed is still in its
station, so the first integer instruction that starts fills both slots. From
then on it is broadcast twice, the second time after the slot could have been
used by another.

The loop stops reading at `sim_num_insn` entries, counted from the zeroed
entry at position zero, so the last instruction of a program is never read.

## Main definitions

* `Gone`: The instruction has left stations and units.
* `ExactlyOnce`: Slots are not shared, and everybody starts and broadcasts once.
* `AllExecuted`: Everything a program executed has gone through the pipeline.

## Theorems

* `started_of_unit`, `executed_of_gone`: Where an instruction is shows what
  happened to it.
* `gone_mono`, `settled_mono`: Having left is final.
* `first_start_shared`: The first integer instruction fills both slots.
* `exactlyOnce_iff`: Execution is exactly once without integer instructions.
* `last_instruction_left_out`: The last executed instruction is never read.
-/

namespace MicroArch

namespace Tomasulo

variable {trace : Trace} {simInsn : Nat} {s : State}

/-! ### What happened to an instruction -/

theorem step_unit (c : Config) (he : c.stage ≠ .executeToCDB) (hi : c.stage ≠ .issueToExecute)
    (u : FuSlot) : (step trace simInsn c).state.unit u = c.state.unit u := by
  unfold step
  cases hs : c.stage with
  | cdbToRetire => exact cdbToRetire_unit c.state u
  | executeToCDB => exact absurd hs he
  | issueToExecute => exact absurd hs hi
  | fetchToDispatch =>
      simp only
      rw [(fetchToDispatch_effect trace c.cycle c.state).frame]
      rcases u <;> rfl
  | dispatchToIssue =>
      have heff := dispatchToIssue_effect trace c.cycle c.state
      simp only
      generalize dispatchToIssue trace c.cycle c.state = s' at heff
      cases heff with
      | empty => rfl
      | full => rfl
      | enter head t hq ht =>
          rw [shiftQueue_frame, rename_frame, entered_frame ht]
          rcases u <;> rfl
      | evict => rcases u <;> rfl
  | isSimulationDone =>
      simp only
      rw [isSimulationDone_frame]
      rcases u <;> rfl
  | returned => rfl

theorem step_held (c : Config) (he : c.stage ≠ .executeToCDB) (hd : c.stage ≠ .dispatchToIssue)
    (p : Nat) : (step trace simInsn c).state.Held p ↔ c.state.Held p := by
  unfold step
  cases hs : c.stage with
  | cdbToRetire => exact cdbToRetire_held c.state p
  | executeToCDB => exact absurd hs he
  | issueToExecute => exact issueToExecute_held c.state p
  | fetchToDispatch =>
      simp only
      rw [(fetchToDispatch_effect trace c.cycle c.state).frame]
      rfl
  | dispatchToIssue => exact absurd hs hd
  | isSimulationDone =>
      simp only
      rw [isSimulationDone_frame]
      rfl
  | returned => exact Iff.rfl

/-- The state after an `executeToCDB` of the run. -/
theorem execute_of_stage {n : Nat} (hs : (runTomasulo trace simInsn n).stage = .executeToCDB) :
    ∃ winner, CDBEffect trace (runTomasulo trace simInsn n).cycle
      (runTomasulo trace simInsn n).state (runTomasulo trace simInsn (n + 1)).state winner := by
  rw [runTomasulo_succ, step, hs]
  exact executeToCDB_effect trace _ _

/-- The bus is free when it is taken, so a broadcast names the winner. -/
theorem winner_of_broadcast {n p : Nat} {winner : Option (FuSlot × Nat)}
    (e : CDBEffect trace (runTomasulo trace simInsn n).cycle (runTomasulo trace simInsn n).state
      (runTomasulo trace simInsn (n + 1)).state winner) (hb : BroadcastAt trace simInsn n p) :
    ∃ u, winner = some (u, p) := by
  rcases hb with ⟨hs, hbus⟩
  -- What is on the bus afterwards was put there now.
  rw [e.bus, bus_free trace simInsn n hs, Option.or_none] at hbus
  rcases Option.map_eq_some_iff.mp hbus with ⟨⟨u, q⟩, hw, rfl⟩
  exact ⟨u, hw⟩

/-- Whoever is in a slot was started there. -/
theorem started_of_unit {u : FuSlot} {p : Nat} (n : Nat)
    (hp : (runTomasulo trace simInsn n).state.unit u = some p) :
    ∃ m, m < n ∧ StartsAt trace simInsn m u p := by
  -- By induction on the run, back to the step that filled the slot.
  induction n with
  | zero =>
      rcases u with i | i
      · exact absurd hp (by simp only [State.unit, runTomasulo, Run.runFor_zero, Config.initial,
          State.initial, reduceCtorEq, not_false_eq_true])
      · exact absurd hp (by simp only [State.unit, runTomasulo, Run.runFor_zero, Config.initial,
          State.initial, reduceCtorEq, not_false_eq_true])
  | succ n ih =>
      have hold : (runTomasulo trace simInsn n).state.unit u = some p →
          ∃ m, m < n + 1 ∧ StartsAt trace simInsn m u p := by
        intro h
        rcases ih h with ⟨m, hm, hst⟩
        exact ⟨m, Nat.lt_succ_of_lt hm, hst⟩
      by_cases he : (runTomasulo trace simInsn n).stage = .executeToCDB
      · rcases execute_of_stage he with ⟨winner, e⟩
        exact hold ((e.unit u p).mp hp).1
      · by_cases hi : (runTomasulo trace simInsn n).stage = .issueToExecute
        · rcases hu : (runTomasulo trace simInsn n).state.unit u with _ | q
          · exact ⟨n, Nat.lt_succ_self n, hi, hu, hp⟩
          · -- an occupied slot keeps its occupant
            have hkeep : (runTomasulo trace simInsn (n + 1)).state.unit u = some q := by
              rw [runTomasulo_succ, step, hi]
              simp only
              rw [issueToExecute_unit, hu, Option.some_or]
            rw [hp] at hkeep
            exact hold (hu.trans hkeep.symm)
        · rw [runTomasulo_succ, step_unit _ he hi] at hp
          exact hold hp

/-- An instruction in a station is taken out by `executeToCDB` only. -/
theorem leaves_of_not_held {n p : Nat} (hheld : (runTomasulo trace simInsn n).state.Held p)
    (hnot : ¬ (runTomasulo trace simInsn (n + 1)).state.Held p) :
    (runTomasulo trace simInsn n).stage = .executeToCDB ∧
      ∃ winner, CDBEffect trace (runTomasulo trace simInsn n).cycle
        (runTomasulo trace simInsn n).state (runTomasulo trace simInsn (n + 1)).state winner ∧
        Leaves trace (runTomasulo trace simInsn n).cycle (runTomasulo trace simInsn n).state
          winner p := by
  -- The stations are changed by two stages, and dispatch only adds.
  by_cases he : (runTomasulo trace simInsn n).stage = .executeToCDB
  · rcases execute_of_stage he with ⟨winner, e⟩
    refine ⟨he, winner, e, ?_⟩
    by_contra hl
    exact hnot ((e.held (occupancy_runTomasulo trace simInsn n) p).mpr ⟨hheld, hl⟩)
  · by_cases hd : (runTomasulo trace simInsn n).stage = .dispatchToIssue
    · have heff := dispatchToIssue_effect trace (runTomasulo trace simInsn n).cycle
        (runTomasulo trace simInsn n).state
      rw [runTomasulo_succ, step, hd] at hnot
      simp only at hnot
      generalize dispatchToIssue trace _ _ = s' at heff hnot
      cases heff with
      | empty => exact absurd hheld hnot
      | full => exact absurd hheld hnot
      | enter head t hq ht => exact absurd ((entered_held ht p).mpr (Or.inl hheld)) hnot
      | evict => exact absurd hheld hnot
    · rw [runTomasulo_succ, step_held _ he hd] at hnot
      exact absurd hheld hnot

/-- An instruction that has left its station was started, and was broadcast
    if it writes the bus. -/
theorem executed_of_left {p : Nat} (hin : trace.InStation p) (n : Nat)
    (hlt : p < (runTomasulo trace simInsn n).state.front)
    (hnot : ¬ (runTomasulo trace simInsn n).state.Held p) :
    (∃ m u, StartsAt trace simInsn m u p) ∧
      (writesCDB (trace.instr p).op = true → ∃ m, BroadcastAt trace simInsn m p) := by
  -- By induction on the run, back to the step in which it left its station.
  induction n with
  | zero => exact absurd hlt (Nat.not_lt_zero p)
  | succ n ih =>
      by_cases hheld : (runTomasulo trace simInsn n).state.Held p
      · rcases leaves_of_not_held hheld hnot with ⟨hs, winner, e, hl⟩
        rcases e.leaves_unit hl with ⟨u, hu, -⟩
        rcases started_of_unit n hu with ⟨m, -, hst⟩
        refine ⟨⟨m, u, hst⟩, fun hw => ⟨n, hs, ?_⟩⟩
        -- It left as a store, which writes no bus, or as the winner.
        rcases hl with ⟨v, hstore⟩ | ⟨v, hwin⟩
        · rw [hstore.2.2.2] at hw
          exact absurd hw Bool.false_ne_true
        · rw [e.bus, hwin]
          rfl
      · rcases lt_front_succ hin n hlt with hold | hent
        · exact ih hold hheld
        · exact absurd hent.2.2 hnot

/-! ### Having left is final -/

/-- The instruction has been dispatched and is in no station and no unit. -/
structure Gone (s : State) (p : Nat) : Prop where
  dispatched : p < s.front
  station : ¬ s.Held p
  units : ∀ u, s.unit u ≠ some p

/-- An instruction that was dispatched does not enter a station again. -/
theorem not_held_succ {n p : Nat} (hlt : p < (runTomasulo trace simInsn n).state.front)
    (hnot : ¬ (runTomasulo trace simInsn n).state.Held p) :
    ¬ (runTomasulo trace simInsn (n + 1)).state.Held p := by
  intro hheld
  by_cases he : (runTomasulo trace simInsn n).stage = .executeToCDB
  · rcases execute_of_stage he with ⟨winner, e⟩
    exact hnot ((e.held (occupancy_runTomasulo trace simInsn n) p).mp hheld).1
  · by_cases hd : (runTomasulo trace simInsn n).stage = .dispatchToIssue
    -- Only the head enters a station, and the head is not before the front.
    · have hfront := (captured_of_enters ⟨hd, hnot, hheld⟩).front
      omega
    · rw [runTomasulo_succ, step_held _ he hd] at hheld
      exact hnot hheld

theorem gone_succ {n p : Nat} (hin : trace.InStation p)
    (h : Gone (runTomasulo trace simInsn n).state p) :
    Gone (runTomasulo trace simInsn (n + 1)).state p := by
  refine ⟨lt_front_mono hin (Nat.le_succ n) h.dispatched, not_held_succ h.dispatched h.station,
    fun u hu => ?_⟩
  by_cases he : (runTomasulo trace simInsn n).stage = .executeToCDB
  · rcases execute_of_stage he with ⟨winner, e⟩
    exact h.units u ((e.unit u p).mp hu).1
  · by_cases hi : (runTomasulo trace simInsn n).stage = .issueToExecute
    · rw [runTomasulo_succ, step, hi] at hu
      simp only at hu
      rw [issueToExecute_unit, Option.or_eq_some_iff] at hu
      -- A slot is filled from the stations, and it is in none.
      rcases hu with hu | ⟨-, hu⟩
      · exact h.units u hu
      · exact h.station (held_of_heldFor (candidate_facts hu).1)
    · rw [runTomasulo_succ, step_unit _ he hi] at hu
      exact h.units u hu

theorem gone_mono {m n p : Nat} (hin : trace.InStation p) (hmn : m ≤ n)
    (h : Gone (runTomasulo trace simInsn m).state p) :
    Gone (runTomasulo trace simInsn n).state p := by
  induction n, hmn using Nat.le_induction with
  | base => exact h
  | succ n _ ih => exact gone_succ hin ih

/-! ### Floating-point instructions -/

/-- A floating-point instruction only ever is in the floating-point slot. -/
theorem unit_of_fpClass (ho : Occupancy trace s) {u : FuSlot} {p : Nat} (hp : trace.FPClass p)
    (hu : s.unit u = some p) : u = .fp 0 := by
  rcases u with i | i
  · exact absurd hp (not_fpClass_of_intClass (ho.fuINT i p hu).1)
  · rw [Subsingleton.elim i 0]

/-- A floating-point instruction that takes the bus leaves its only slot. -/
theorem gone_of_broadcast {n p : Nat} (hp : trace.FPClass p)
    (hb : BroadcastAt trace simInsn n p) : Gone (runTomasulo trace simInsn (n + 1)).state p := by
  have ho := occupancy_runTomasulo trace simInsn n
  rcases execute_of_stage hb.1 with ⟨winner, e⟩
  rcases winner_of_broadcast e hb with ⟨u, hw⟩
  have hu := (e.oldest u p hw).1.1
  rcases ho.unit hu with ⟨hin, hlt⟩
  refine ⟨lt_front_mono hin (Nat.le_succ n) hlt, fun hheld => ?_, fun v hv => ?_⟩
  · exact ((e.held ho p).mp hheld).2 (Or.inr ⟨u, hw⟩)
  · rcases (e.unit v p).mp hv with ⟨hv, -, hne⟩
    rw [unit_of_fpClass ho hp hv, ← unit_of_fpClass ho hp hu] at hne
    exact hne hw

/-- Placed in the floating-point slot, or gone. -/
def Settled (s : State) (p : Nat) : Prop := s.unit (.fp 0) = some p ∨ Gone s p

theorem settled_succ {n p : Nat} (hp : trace.FPClass p)
    (h : Settled (runTomasulo trace simInsn n).state p) :
    Settled (runTomasulo trace simInsn (n + 1)).state p := by
  have hin : trace.InStation p := (inStation_iff trace p).mpr (Or.inr hp)
  rcases h with hu | hgone
  · by_cases he : (runTomasulo trace simInsn n).stage = .executeToCDB
    · rcases execute_of_stage he with ⟨winner, e⟩
      -- It leaves its slot when it wins the bus, and not before.
      by_cases hw : winner = some (.fp 0, p)
      · right
        refine gone_of_broadcast hp ⟨he, ?_⟩
        rw [e.bus, hw]
        rfl
      · left
        refine (e.unit _ p).mpr ⟨hu, ?_, hw⟩
        intro hcase
        rcases hcase with ⟨-, -, ⟨i, hi⟩, -⟩
        exact absurd hi (by simp only [reduceCtorEq, not_false_eq_true])
    · left
      by_cases hi : (runTomasulo trace simInsn n).stage = .issueToExecute
      · rw [runTomasulo_succ, step, hi]
        simp only
        rw [issueToExecute_unit, hu, Option.some_or]
      · rw [runTomasulo_succ, step_unit _ he hi]
        exact hu
  · exact Or.inr (gone_succ hin hgone)

theorem settled_mono {m n p : Nat} (hp : trace.FPClass p) (hmn : m ≤ n)
    (h : Settled (runTomasulo trace simInsn m).state p) :
    Settled (runTomasulo trace simInsn n).state p := by
  induction n, hmn using Nat.le_induction with
  | base => exact h
  | succ n _ ih => exact settled_succ hp ih

/-- A floating-point instruction that has been started is not started again. -/
theorem fp_not_restarted {m n p : Nat} {u v : FuSlot} (hp : trace.FPClass p) (hmn : m < n)
    (hm : StartsAt trace simInsn m u p) : ¬ StartsAt trace simInsn n v p := by
  intro hn
  have hu := unit_of_fpClass (occupancy_runTomasulo trace simInsn (m + 1)) hp hm.2.2
  have hv := unit_of_fpClass (occupancy_runTomasulo trace simInsn (n + 1)) hp hn.2.2
  have hset : Settled (runTomasulo trace simInsn (m + 1)).state p := by
    left
    rw [← hu]
    exact hm.2.2
  -- The slot is occupied by it, or it is in no station to be started from.
  rcases settled_mono hp hmn hset with hslot | hgone
  · have hfree := hn.2.1
    rw [hv, hslot] at hfree
    exact absurd hfree (by simp only [reduceCtorEq, not_false_eq_true])
  · exact hgone.station (held_of_heldFor (candidate_facts (candidate_of_starts hn)).1)

/-- A floating-point instruction that has been broadcast is not broadcast
    again. -/
theorem fp_not_rebroadcast {m n p : Nat} (hp : trace.FPClass p) (hmn : m < n)
    (hm : BroadcastAt trace simInsn m p) : ¬ BroadcastAt trace simInsn n p := by
  intro hn
  have hin : trace.InStation p := (inStation_iff trace p).mpr (Or.inr hp)
  have hgone := gone_mono hin hmn (gone_of_broadcast hp hm)
  rcases execute_of_stage hn.1 with ⟨winner, e⟩
  rcases winner_of_broadcast e hn with ⟨u, hw⟩
  exact hgone.units u (e.oldest u p hw).1.1

/-! ### Integer instructions -/

/-- The first integer instruction that starts fills both slots: both are free,
    and the search for each finds the same instruction. -/
theorem first_start_shared {n p : Nat} {i : Fin FU_INT_SIZE}
    (hst : StartsAt trace simInsn n (.int i) p)
    (hfirst : ∀ m, m < n → ∀ j q, ¬ StartsAt trace simInsn m (.int j) q) (j : Fin FU_INT_SIZE) :
    (runTomasulo trace simInsn (n + 1)).state.unit (.int j) = some p := by
  have hcand := candidate_of_starts hst
  -- No integer instruction has started before, so this slot is free too.
  have hfree : (runTomasulo trace simInsn n).state.unit (.int j) = none := by
    rcases hj : (runTomasulo trace simInsn n).state.unit (.int j) with _ | q
    · rfl
    · rcases started_of_unit n hj with ⟨m, hm, hq⟩
      exact absurd hq (hfirst m hm j q)
  rw [runTomasulo_succ, step, hst.1]
  simp only
  rw [issueToExecute_unit, hfree, Option.none_or]
  exact hcand

/-- An integer instruction only ever is in an integer slot. -/
theorem unit_of_intClass (ho : Occupancy trace s) {u : FuSlot} {p : Nat} (hp : trace.IntClass p)
    (hu : s.unit u = some p) : ∃ i, u = .int i := by
  rcases u with i | i
  · exact ⟨i, rfl⟩
  · exact absurd (ho.reservFP p (ho.fuFP i p hu)).1 (not_fpClass_of_intClass hp)

/-- Without integer instructions in units, nobody leaves without the bus. -/
theorem noLostWriter_of_no_int
    (h : ∀ n i p, (runTomasulo trace simInsn n).state.unit (.int i) ≠ some p) :
    NoLostWriter trace simInsn := by
  rintro n u q r - ⟨hu, -, ⟨i, rfl⟩, -⟩
  exact absurd hu (h n i q)

/-! ### What is read -/

theorem fetchIndex_mono (trace : Trace) (simInsn : Nat) {m n : Nat} (hmn : m ≤ n) :
    (runTomasulo trace simInsn m).state.fetchIndex
      ≤ (runTomasulo trace simInsn n).state.fetchIndex := by
  induction n, hmn using Nat.le_induction with
  | base => exact Nat.le_refl _
  | succ n _ ih =>
      rw [runTomasulo_succ]
      rcases step_fetchIndex trace simInsn (runTomasulo trace simInsn n) with h | ⟨-, h⟩ <;> omega

theorem lt_of_fetched {p : Nat} (h : Fetched trace simInsn p) : p < max simInsn 1 := by
  rcases h with ⟨m, -, -, hm⟩
  have hbound := (fetchBound_runTomasulo trace simInsn (m + 1)).atMost
  omega

/-- The first cycle reads the first entry. -/
theorem first_fetch (trace : Trace) (simInsn : Nat) :
    (runTomasulo trace simInsn 4).state.fetchIndex = 1 := by
  have hs : (runTomasulo trace simInsn 3).stage = .fetchToDispatch := rfl
  have hf : (runTomasulo trace simInsn 3).state.fetchIndex = 0 := rfl
  have hq : (runTomasulo trace simInsn 3).state.instrQueueSize = 0 := rfl
  have hd : (runTomasulo trace simInsn 3).state.dontFetch = false := rfl
  have heff := fetchToDispatch_effect trace (runTomasulo trace simInsn 3).cycle
    (runTomasulo trace simInsn 3).state
  rw [runTomasulo_succ, step, hs]
  simp only
  -- The first three stages find an empty pipeline.
  generalize (runTomasulo trace simInsn 3).state = s at *
  generalize fetchToDispatch trace _ s = s' at heff ⊢
  cases heff with
  | idle h =>
      rcases h with h | h
      · rw [hq] at h
        exact absurd h (by decide)
      · rw [hd] at h
        exact absurd h Bool.false_ne_true
  | trap => exact congrArg (· + 1) hf
  | queue => exact congrArg (· + 1) hf

/-- The loop ends with exactly `sim_num_insn` entries read, or one. -/
theorem fetchIndex_returned {n : Nat} (hret : Returned trace simInsn n) :
    (runTomasulo trace simInsn n).state.fetchIndex = max simInsn 1 := by
  have hle := (fetchBound_runTomasulo trace simInsn n).atMost
  have hge := (returned_empty trace simInsn n hret).2.1
  -- The end test is the sixth stage, so the first entry has been read.
  have h4 : 4 ≤ n := by
    by_contra hlt
    have hsmall : n = 0 ∨ n = 1 ∨ n = 2 ∨ n = 3 := by omega
    rcases hsmall with rfl | rfl | rfl | rfl <;> exact absurd hret (fun h => Stage.noConfusion h)
  have hone := fetchIndex_mono trace simInsn h4
  rw [first_fetch] at hone
  omega

/-- When the loop ends, whatever was read and needs a unit has left
    everything. -/
theorem gone_of_returned {n p : Nat} (hret : Returned trace simInsn n)
    (hlt : p < max simInsn 1) : Gone (runTomasulo trace simInsn n).state p := by
  rcases returned_empty trace simInsn n hret with ⟨⟨hq, hINT, hFP, hfuINT, hfuFP, -⟩, -⟩
  refine ⟨?_, ?_, fun u hu => ?_⟩
  · rw [State.front, hq 0, Option.getD_none, fetchIndex_returned hret]
    exact hlt
  · intro hcase
    rcases hcase with ⟨i, hi⟩ | ⟨i, hi⟩
    · rw [hINT i] at hi
      exact absurd hi (by simp only [reduceCtorEq, not_false_eq_true])
    · rw [hFP i] at hi
      exact absurd hi (by simp only [reduceCtorEq, not_false_eq_true])
  · rcases u with i | i
    · rw [State.unit, hfuINT i] at hu
      exact absurd hu (by simp only [reduceCtorEq, not_false_eq_true])
    · rw [State.unit, hfuFP i] at hu
      exact absurd hu (by simp only [reduceCtorEq, not_false_eq_true])

/-- In a run that ends, every instruction that was read and needs a unit was
    started, and broadcast if it writes the bus. -/
theorem executed_of_returned {n p : Nat} (hret : Returned trace simInsn n)
    (hin : trace.InStation p) (hlt : p < max simInsn 1) :
    (∃ m u, StartsAt trace simInsn m u p) ∧
      (writesCDB (trace.instr p).op = true → ∃ m, BroadcastAt trace simInsn m p) := by
  have hgone := gone_of_returned hret hlt
  exact executed_of_left hin n hgone.dispatched hgone.station

/-! ### Exactly once -/

/-- Nobody is in two slots, and everybody that needs a unit is placed in one
    once, and broadcast once if it writes the bus. -/
structure ExactlyOnce (trace : Trace) (simInsn : Nat) : Prop where
  unshared : ∀ n u v p, (runTomasulo trace simInsn n).state.unit u = some p →
    (runTomasulo trace simInsn n).state.unit v = some p → u = v
  started : ∀ p, Fetched trace simInsn p → trace.InStation p →
    ∃! e : Nat × FuSlot, StartsAt trace simInsn e.1 e.2 p
  broadcast : ∀ p, Fetched trace simInsn p → trace.InStation p →
    writesCDB (trace.instr p).op = true → ∃! m, BroadcastAt trace simInsn m p

/-- Without integer instructions, execution is exactly once. -/
theorem exactlyOnce_of_no_int (h : ∀ p, p < max simInsn 1 → ¬ trace.IntClass p) :
    ExactlyOnce trace simInsn := by
  have hfp : ∀ p, Fetched trace simInsn p → trace.InStation p → trace.FPClass p := by
    intro p hf hin
    rcases (inStation_iff trace p).mp hin with hint | hfp
    · exact absurd hint (h p (lt_of_fetched hf))
    · exact hfp
  -- What is in a unit was read, so the integer slots stay empty.
  have hnoint : ∀ n i p, (runTomasulo trace simInsn n).state.unit (.int i) ≠ some p := by
    intro n i p hp
    have ho := occupancy_runTomasulo trace simInsn n
    rcases ho.fuINT i p hp with ⟨hint, hlt⟩
    have hfront := front_le_fetchIndex ho.queue
    have hbound := (fetchBound_runTomasulo trace simInsn n).atMost
    exact h p (by omega) hint
  rcases terminates trace simInsn (noLostWriter_of_no_int hnoint) with ⟨ret, hret⟩
  refine ⟨fun n u v p hu hv => ?_, fun p hf hin => ?_, fun p hf hin hw => ?_⟩
  · rcases u with i | i
    · exact absurd hu (hnoint n i p)
    · rcases v with j | j
      · exact absurd hv (hnoint n j p)
      · rw [Subsingleton.elim i j]
  · rcases executed_of_returned hret hin (lt_of_fetched hf) with ⟨⟨m, u, hst⟩, -⟩
    refine ⟨(m, u), hst, fun e he => ?_⟩
    have hp := hfp p hf hin
    have hu := unit_of_fpClass (occupancy_runTomasulo trace simInsn (m + 1)) hp hst.2.2
    have hv := unit_of_fpClass (occupancy_runTomasulo trace simInsn (e.1 + 1)) hp he.2.2
    -- Of two starts one would come first, and nothing is started again.
    rcases Nat.lt_trichotomy e.1 m with hlt | heq | hlt
    · exact absurd hst (fp_not_restarted hp hlt he)
    · exact Prod.ext heq (hv.trans hu.symm)
    · exact absurd he (fp_not_restarted hp hlt hst)
  · rcases (executed_of_returned hret hin (lt_of_fetched hf)).2 hw with ⟨m, hm⟩
    refine ⟨m, hm, fun k hk => ?_⟩
    have hp := hfp p hf hin
    rcases Nat.lt_trichotomy k m with hlt | heq | hlt
    · exact absurd hm (fp_not_rebroadcast hp hlt hk)
    · exact heq
    · exact absurd hk (fp_not_rebroadcast hp hlt hm)

/-- A run that reads an integer instruction starts one. -/
theorem int_starts {p : Nat} (hlt : p < max simInsn 1) (hint : trace.IntClass p) :
    ∃ n i q, StartsAt trace simInsn n (.int i) q := by
  by_contra hnone
  have hnoint : ∀ n i q, (runTomasulo trace simInsn n).state.unit (.int i) ≠ some q := by
    intro n i q hq
    rcases started_of_unit n hq with ⟨m, -, hm⟩
    exact hnone ⟨m, i, q, hm⟩
  -- then the run ends, with the instruction executed after all
  rcases terminates trace simInsn (noLostWriter_of_no_int hnoint) with ⟨ret, hret⟩
  have hin : trace.InStation p := (inStation_iff trace p).mpr (Or.inl hint)
  rcases executed_of_returned hret hin hlt with ⟨⟨m, u, hst⟩, -⟩
  rcases unit_of_intClass (occupancy_runTomasulo trace simInsn (m + 1)) hint hst.2.2
    with ⟨i, rfl⟩
  exact hnone ⟨m, i, p, hst⟩

/-- Execution is exactly once if and only if the run reads no instruction
    that uses the integer units. -/
theorem exactlyOnce_iff (trace : Trace) (simInsn : Nat) :
    ExactlyOnce trace simInsn ↔ ∀ p, p < max simInsn 1 → ¬ trace.IntClass p := by
  refine ⟨fun h p hlt hint => ?_, exactlyOnce_of_no_int⟩
  have hex : ∃ n, ∃ i q, StartsAt trace simInsn n (.int i) q := int_starts hlt hint
  classical
  -- The earliest start of an integer instruction fills both slots.
  have hmin : ∀ m, m < Nat.find hex → ∀ j q, ¬ StartsAt trace simInsn m (.int j) q :=
    fun m hm j q hst => Nat.find_min hex hm ⟨j, q, hst⟩
  rcases Nat.find_spec hex with ⟨i, q, hst⟩
  have h0 := first_start_shared hst hmin 0
  have h1 := first_start_shared hst hmin 1
  exact absurd (h.unshared _ _ _ q h0 h1) (by decide)

/-- The first addition of the chain is in both integer slots in cycle three. -/
theorem chain_not_exactlyOnce : ¬ ExactlyOnce chain 3 := by
  intro h
  have hshared := h.unshared 15 (.int 0) (.int 1) 1 (by decide +kernel) (by decide +kernel)
  exact absurd hshared (by decide)

/-! ### The last instruction -/

/-- When the loop has ended after `n` stages, all executed instructions have
    been read in order, and those that need a unit have gone through the
    pipeline. -/
structure AllExecuted (insns : List Executed) (n : Nat) : Prop where
  read : (fetchedSoFar (simMain insns) insns.length n).filter (1 ≤ ·)
    = (List.range insns.length).map (· + 1)
  issued : ∀ p, 1 ≤ p → p ≤ insns.length → (simMain insns).InStation p →
    Stationed (simMain insns) insns.length p
  started : ∀ p, 1 ≤ p → p ≤ insns.length → (simMain insns).InStation p →
    ∃ m u, StartsAt (simMain insns) insns.length m u p
  left : ∀ p, 1 ≤ p → p ≤ insns.length → (simMain insns).InStation p →
    writesCDB ((simMain insns).instr p).op = false →
    Gone (runTomasulo (simMain insns) insns.length n).state p
  broadcast : ∀ p, 1 ≤ p → p ≤ insns.length → (simMain insns).InStation p →
    writesCDB ((simMain insns).instr p).op = true →
    ∃ m, BroadcastAt (simMain insns) insns.length m p

/-- However a nonempty program ends, its last instruction has not been read. -/
theorem last_instruction_left_out (e : Executed) (insns : List Executed) :
    (∀ n, Returned (simMain (e :: insns)) (e :: insns).length n →
      ¬ AllExecuted (e :: insns) n) ∧
    ((simMain (e :: insns)).WritersBroadcast →
      ∃ n, Returned (simMain (e :: insns)) (e :: insns).length n) := by
  refine ⟨fun n hret hall => ?_, fun hwb => ?_⟩
  -- To have read all instructions is to have read the last position.
  · have hlast : (e :: insns).length ∈
        (fetchedSoFar (simMain (e :: insns)) (e :: insns).length n).filter (1 ≤ ·) := by
      rw [hall.read]
      exact List.mem_map.mpr ⟨insns.length, List.mem_range.mpr (Nat.lt_succ_self _), rfl⟩
    have hread := List.mem_of_mem_filter hlast
    rw [fetchedSoFar_eq, List.mem_range, fetchIndex_returned hret, List.length_cons] at hread
    omega
  · exact terminates _ _ (noLostWriter_of_writersBroadcast _ _ hwb)

/-- A program of one addition ends without the addition. -/
theorem last_instruction_left_out_single :
    ∃ n, Returned (simMain [ADD 2 1 1]) 1 n ∧ ¬ AllExecuted [ADD 2 1 1] n := by
  rcases last_instruction_left_out (ADD 2 1 1) [] with ⟨hnot, hends⟩
  rcases hends (by decide +kernel) with ⟨n, hn⟩
  exact ⟨n, hn, hnot n hn⟩

/-- It returns after the first cycle, having read the zeroed entry. -/
theorem single_not_executed :
    ¬ ∀ n, Returned (simMain [ADD 2 1 1]) 1 n → AllExecuted [ADD 2 1 1] n := by
  intro h
  have hall := h 6 (by unfold Returned; decide +kernel)
  exact absurd hall.read (by decide +kernel)

end Tomasulo

end MicroArch
