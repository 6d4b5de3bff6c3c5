import MicroArch.Tomasulo.Execution

/-!
# How Long a Run Takes

The cycle count that `runTomasulo` returns, between two linear functions of
the number of instructions.

The loop cannot return before it has read every entry, and it reads one in a
cycle. For the other direction each instruction is given an amount of time
when the run begins, and takes some of it along wherever it goes: out of the
trace, through the queue and a station, and into a unit, where it is used up
while the instruction executes. `State.potential` is the time that is left.
Every stage that does something uses up some of it, and so does the passing
of a cycle in which none does.

An integer instruction may be started in both slots. When it leaves its
station from one of them, the other is left with a copy nobody has paid for.
So a station of this class has the time for both. The stamp of an instruction
that is started again is overwritten, and the slot that had it before starts
from the beginning; the second start pays for that.

## Main definitions

* `intWeight`, `fpWeight`: The time of a slot.
* `State.potential`: The time that is left.

## Theorems

* `potential_execute`, `potential_issue`, `potential_fetch`,
  `potential_dispatch`: A stage uses up some of it or does nothing.
* `potential_succ_lt`: So does time, while something executes.
* `cycle_uses`: A cycle uses up some of it or ends the loop.
* `cycle_lower`, `cycle_upper`: The bounds for the cycles of a run.
* `returns_within`: What `runTomasulo` returns.
-/

namespace MicroArch

namespace Tomasulo

variable {trace : Trace} {cc simInsn bound : Nat} {s s' : State} {winner : Option (FuSlot × Nat)}

/-! ### The time that is left -/

/-- The time of an integer slot. One that is free has the time to execute an
    instruction, and to do so again in the other slot. One whose occupant has
    left its station has to give that time back. -/
def intWeight (cc : Nat) (s : State) (i : Fin FU_INT_SIZE) : Nat :=
  match s.unit (.int i) with
  | none => 9
  | some p => needs cc s (.int i) + if Slots.Holds s.reservINT p then 0 else 10

/-- The time of a floating-point slot. -/
def fpWeight (cc : Nat) (s : State) (i : Fin FU_FP_SIZE) : Nat :=
  match s.unit (.fp i) with
  | none => 10
  | some _ => needs cc s (.fp i)

/-- The time of the integer stations and slots. -/
def State.intTime (cc : Nat) (s : State) : Nat :=
  21 * Slots.occupied s.reservINT + ∑ i, intWeight cc s i

/-- The time of the floating-point stations and slots. -/
def State.fpTime (cc : Nat) (s : State) : Nat :=
  11 * Slots.occupied s.reservFP + ∑ i, fpWeight cc s i

/-- The time that is left when `bound` entries are to be read. -/
def State.potential (bound cc : Nat) (s : State) : Nat :=
  23 * (bound - s.fetchIndex) + 22 * s.instrQueueSize.toNat + s.intTime cc + s.fpTime cc

theorem intWeight_free {i : Fin FU_INT_SIZE} (h : s.unit (.int i) = none) :
    intWeight cc s i = 9 := by
  rw [intWeight, h]

theorem intWeight_busy {i : Fin FU_INT_SIZE} {p : Nat} (h : s.unit (.int i) = some p) :
    intWeight cc s i = s.tomExecuteCycle p + FU_INT_LATENCY - cc
      + if Slots.Holds s.reservINT p then 0 else 10 := by
  rw [intWeight, h]
  dsimp only
  rw [needs, h]
  rfl

theorem fpWeight_free {i : Fin FU_FP_SIZE} (h : s.unit (.fp i) = none) :
    fpWeight cc s i = 10 := by
  rw [fpWeight, h]

theorem fpWeight_busy {i : Fin FU_FP_SIZE} {p : Nat} (h : s.unit (.fp i) = some p) :
    fpWeight cc s i = s.tomExecuteCycle p + FU_FP_LATENCY - cc := by
  rw [fpWeight, h]
  dsimp only
  rw [needs, h]
  rfl

/-- Both times only depend on who is held and executing since when. -/
theorem intWeight_congr {i : Fin FU_INT_SIZE} (hunit : s'.unit (.int i) = s.unit (.int i))
    (hres : ∀ p, s.unit (.int i) = some p →
      (Slots.Holds s'.reservINT p ↔ Slots.Holds s.reservINT p))
    (hstamp : ∀ p, s.unit (.int i) = some p → s'.tomExecuteCycle p = s.tomExecuteCycle p) :
    intWeight cc s' i = intWeight cc s i := by
  rcases hp : s.unit (.int i) with _ | p
  · rw [intWeight_free hp, intWeight_free (hunit.trans hp)]
  · rw [intWeight_busy hp, intWeight_busy (hunit.trans hp), hstamp p hp]
    simp only [hres p hp]

theorem fpWeight_congr {i : Fin FU_FP_SIZE} (hunit : s'.unit (.fp i) = s.unit (.fp i))
    (hstamp : ∀ p, s.unit (.fp i) = some p → s'.tomExecuteCycle p = s.tomExecuteCycle p) :
    fpWeight cc s' i = fpWeight cc s i := by
  rcases hp : s.unit (.fp i) with _ | p
  · rw [fpWeight_free hp, fpWeight_free (hunit.trans hp)]
  · rw [fpWeight_busy hp, fpWeight_busy (hunit.trans hp), hstamp p hp]

theorem potential_congr (hf : s'.fetchIndex = s.fetchIndex)
    (hq : s'.instrQueueSize = s.instrQueueSize) (hint : s'.reservINT = s.reservINT)
    (hfp : s'.reservFP = s.reservFP) (hunit : ∀ u, s'.unit u = s.unit u)
    (hstamp : s'.tomExecuteCycle = s.tomExecuteCycle) :
    s'.potential bound cc = s.potential bound cc := by
  have hintTime : s'.intTime cc = s.intTime cc := by
    rw [State.intTime, State.intTime, hint]
    exact congrArg _ (Finset.sum_congr rfl fun i _ => intWeight_congr (hunit _)
      (fun p _ => by rw [hint]) fun p _ => by rw [hstamp])
  have hfpTime : s'.fpTime cc = s.fpTime cc := by
    rw [State.fpTime, State.fpTime, hfp]
    exact congrArg _ (Finset.sum_congr rfl fun i _ => fpWeight_congr (hunit _)
      fun p _ => by rw [hstamp])
  rw [State.potential, State.potential, hf, hq, hintTime, hfpTime]

/-! ### Execution -/

/-- The occupant of the slot leaves. -/
def Vacates (trace : Trace) (cc : Nat) (s : State) (winner : Option (FuSlot × Nat)) (u : FuSlot)
    (p : Nat) : Prop :=
  FinishedStore trace cc s u p ∨ winner = some (u, p)

theorem CDBEffect.vacates_unit (e : CDBEffect trace cc s s' winner) {u : FuSlot} {p : Nat}
    (h : Vacates trace cc s winner u p) : s.unit u = some p ∧ s.finished cc u p = true := by
  rcases h with h | h
  · exact ⟨h.1, h.2.1⟩
  · exact ⟨(e.oldest u p h).1.1, (e.oldest u p h).1.2.1⟩

/-- A slot that is vacated is free, and any other one is as it was. -/
theorem CDBEffect.unit_vacated (e : CDBEffect trace cc s s' winner) {u : FuSlot} {p : Nat}
    (h : Vacates trace cc s winner u p) : s'.unit u = none := by
  have hu := (e.vacates_unit h).1
  by_contra hne
  rcases Option.ne_none_iff_exists'.mp hne with ⟨q, hq⟩
  rcases (e.unit u q).mp hq with ⟨hq', hst, hw⟩
  rw [hu, Option.some.injEq] at hq'
  subst hq'
  rcases h with h | h
  · exact hst h
  · exact hw h

theorem CDBEffect.unit_kept (e : CDBEffect trace cc s s' winner) {u : FuSlot}
    (h : ∀ p, ¬ Vacates trace cc s winner u p) : s'.unit u = s.unit u := by
  ext p
  rw [e.unit]
  refine ⟨fun hp => hp.1, fun hp => ⟨hp, fun hst => h p (Or.inl hst), fun hw => h p (Or.inr hw)⟩⟩

theorem CDBEffect.executeCycle (e : CDBEffect trace cc s s' winner) :
    s'.tomExecuteCycle = s.tomExecuteCycle := by
  rw [e.frame]

/-- Who is in an integer station and leaves it does so from an integer slot. -/
theorem CDBEffect.vacates_int (e : CDBEffect trace cc s s' winner) {j : Fin RESERV_INT_SIZE}
    {p : Nat} (hj : s.reservINT j = some p) (hj' : s'.reservINT j ≠ some p) :
    ∃ i, Vacates trace cc s winner (.int i) p := by
  by_contra hnone
  refine hj' ((e.reservINT j p).mpr ⟨hj, fun u hu => ?_, fun i hw => hnone ⟨i, Or.inr hw⟩⟩)
  rcases hu.2.2.1 with ⟨i, rfl⟩
  exact hnone ⟨i, Or.inl hu⟩

/-- At worst the slot is left with a copy. -/
theorem intWeight_execute_le (e : CDBEffect trace cc s s' winner) (i : Fin FU_INT_SIZE) :
    intWeight cc s' i ≤ intWeight cc s i + 10 := by
  by_cases hvacates : ∃ p, Vacates trace cc s winner (.int i) p
  · rcases hvacates with ⟨p, hp⟩
    rw [intWeight_free (e.unit_vacated hp)]
    omega
  · -- A slot that nobody leaves has the weight it had, unless its station was freed.
    have hunit := e.unit_kept fun p hp => hvacates ⟨p, hp⟩
    rcases hp : s.unit (.int i) with _ | p
    · rw [intWeight_free hp, intWeight_free (hunit.trans hp)]
      omega
    · rw [intWeight_busy hp, intWeight_busy (hunit.trans hp), e.executeCycle]
      split_ifs <;> omega

theorem intTime_execute (e : CDBEffect trace cc s s' winner) :
    s'.intTime cc ≤ s.intTime cc ∧
      ((∃ i p, Vacates trace cc s winner (.int i) p) → s'.intTime cc < s.intTime cc) := by
  unfold State.intTime
  by_cases hheld : ∃ i p, Vacates trace cc s winner (.int i) p ∧ Slots.Holds s.reservINT p
  · -- A station is freed, and it pays for whatever happens to both slots.
    rcases hheld with ⟨i, p, hp, j, hj⟩
    have hfreed : s'.reservINT j ≠ some p := by
      intro hj'
      rcases (e.reservINT j p).mp hj' with ⟨-, hst, hw⟩
      exact hp.elim (hst _) (hw i)
    have hlt := Slots.occupied_lt (fun j q hq => ((e.reservINT j q).mp hq).1) hj hfreed
    have hsum : ∑ i, intWeight cc s' i ≤ ∑ i, intWeight cc s i + 20 := by
      rw [Fin.sum_univ_two, Fin.sum_univ_two]
      have h0 := intWeight_execute_le e 0
      have h1 := intWeight_execute_le e 1
      omega
    omega
  · -- Only copies leave, and they have the time that the free slot gets.
    have hres : s'.reservINT = s.reservINT := by
      ext j p
      refine ⟨fun h => ((e.reservINT j p).mp h).1, fun h => ?_⟩
      by_contra hne
      rcases e.vacates_int h hne with ⟨i, hp⟩
      exact hheld ⟨i, p, hp, j, h⟩
    have hfree : ∀ i p, Vacates trace cc s winner (.int i) p →
        intWeight cc s' i < intWeight cc s i := by
      intro i p hp
      have hnot : ¬ Slots.Holds s.reservINT p := fun h => hheld ⟨i, p, hp, h⟩
      rw [intWeight_free (e.unit_vacated hp), intWeight_busy (e.vacates_unit hp).1, if_neg hnot]
      omega
    have hle : ∀ i, intWeight cc s' i ≤ intWeight cc s i := by
      intro i
      by_cases hvacates : ∃ p, Vacates trace cc s winner (.int i) p
      · rcases hvacates with ⟨p, hp⟩
        exact (hfree i p hp).le
      · refine (intWeight_congr (e.unit_kept fun p hp => hvacates ⟨p, hp⟩)
          (fun p _ => by rw [hres]) fun p _ => by rw [e.executeCycle]).le
    rw [hres]
    refine ⟨Nat.add_le_add_left (Finset.sum_le_sum fun i _ => hle i) _, ?_⟩
    rintro ⟨i, p, hp⟩
    exact Nat.add_lt_add_left
      (Finset.sum_lt_sum (fun i _ => hle i) ⟨i, Finset.mem_univ i, hfree i p hp⟩) _

/-- The occupant of the floating-point slot leaves it together with its
    station. -/
theorem fpTime_execute (e : CDBEffect trace cc s s' winner) (ho : Occupancy trace s) :
    s'.fpTime cc ≤ s.fpTime cc ∧
      ((∃ i p, Vacates trace cc s winner (.fp i) p) → s'.fpTime cc < s.fpTime cc) := by
  unfold State.fpTime
  -- Stores do not execute on the floating-point unit, so who leaves it is the winner.
  by_cases hvacates : ∃ i p, Vacates trace cc s winner (.fp i) p
  · rcases hvacates with ⟨i, p, hp⟩
    have hwinner : winner = some (.fp i, p) := by
      rcases hp with hst | hw
      · rcases hst.2.2.1 with ⟨j, hj⟩
        exact absurd hj (fun h => FuSlot.noConfusion h)
      · exact hw
    rcases ho.fuFP i p (e.vacates_unit hp).1 with ⟨j, hj⟩
    have hfreed : s'.reservFP j ≠ some p := fun hj' => ((e.reservFP j p).mp hj').2 i hwinner
    have hlt := Slots.occupied_lt (fun j q hq => ((e.reservFP j q).mp hq).1) hj hfreed
    have hsum : ∑ i, fpWeight cc s' i ≤ 10 := by
      rw [Fin.sum_univ_one, Subsingleton.elim 0 i, fpWeight_free (e.unit_vacated hp)]
    omega
  · have hres : s'.reservFP = s.reservFP := by
      ext j p
      rw [e.reservFP]
      exact ⟨fun h => h.1, fun h => ⟨h, fun i hw => hvacates ⟨i, p, Or.inr hw⟩⟩⟩
    have hsame : ∀ i, fpWeight cc s' i = fpWeight cc s i := fun i =>
      fpWeight_congr (e.unit_kept fun p hp => hvacates ⟨i, p, hp⟩) fun p _ => by rw [e.executeCycle]
    rw [hres, Finset.sum_congr rfl fun i _ => hsame i]
    exact ⟨le_rfl, fun h => absurd h hvacates⟩

theorem potential_execute (bound : Nat) (e : CDBEffect trace cc s s' winner)
    (ho : Occupancy trace s) :
    s'.potential bound cc < s.potential bound cc ∨
      (s' = s ∧ ∀ u p, s.unit u = some p → s.finished cc u p = false) := by
  -- Whenever anyone leaves, a unit or a station is freed, and its time is more than the rest
  -- can gain.
  by_cases hnone : ∀ p, ¬ Leaves trace cc s winner p
  · exact Or.inr (execute_idle e hnone)
  · left
    have hint := intTime_execute e
    have hfp := fpTime_execute e ho
    have hfetch : s'.fetchIndex = s.fetchIndex := by rw [e.frame]
    have hqueue : s'.instrQueueSize = s.instrQueueSize := by rw [e.frame]
    have hvacates : ∃ u p, Vacates trace cc s winner u p := by
      rcases not_forall_not.mp hnone with ⟨p, ⟨u, hu⟩ | ⟨u, hu⟩⟩
      · exact ⟨u, p, Or.inl hu⟩
      · exact ⟨u, p, Or.inr hu⟩
    unfold State.potential
    rw [hfetch, hqueue]
    -- Either kind of unit pays for itself, and the other one does not gain.
    rcases hvacates with ⟨i | i, p, hp⟩
    · have hlt := hint.2 ⟨i, p, hp⟩
      omega
    · have hlt := hfp.2 ⟨i, p, hp⟩
      omega

/-! ### Starting -/

/-- A stamp is only overwritten by a free slot of the same class. -/
theorem stamp_int (ho : Occupancy trace s) {i : Fin FU_INT_SIZE} {p : Nat}
    (hp : s.unit (.int i) = some p)
    (hnone : ∀ j, s.unit (.int j) = none → s.candidate trace (.int j) = none) :
    (issueToExecute trace cc s).tomExecuteCycle p = s.tomExecuteCycle p := by
  rw [issueToExecute_tomExecuteCycle, if_neg]
  rintro ⟨u, hfree, hc⟩
  rcases u with j | j
  · exact absurd ((hnone j hfree).symm.trans hc) (by simp only [reduceCtorEq, not_false_eq_true])
  · exact absurd (ho.reservFP p (candidate_facts hc).1).1
      (not_fpClass_of_intClass (ho.fuINT i p hp).1)

theorem stamp_fp (ho : Occupancy trace s) {i : Fin FU_FP_SIZE} {p : Nat}
    (hp : s.unit (.fp i) = some p) :
    (issueToExecute trace cc s).tomExecuteCycle p = s.tomExecuteCycle p := by
  rw [issueToExecute_tomExecuteCycle, if_neg]
  rintro ⟨u, hfree, hc⟩
  rcases u with j | j
  · exact absurd (ho.reservFP p (ho.fuFP i p hp)).1
      (not_fpClass_of_intClass (ho.reservINT p (candidate_facts hc).1).1)
  · rw [Subsingleton.elim j i, hp] at hfree
    exact absurd hfree (by simp only [reduceCtorEq, not_false_eq_true])

/-- What a slot starts it has the time for. -/
theorem unit_started (cc : Nat) {u : FuSlot} {p : Nat} (hfree : s.unit u = none)
    (hc : s.candidate trace u = some p) :
    (issueToExecute trace cc s).unit u = some p ∧
      (issueToExecute trace cc s).tomExecuteCycle p = cc := by
  refine ⟨?_, ?_⟩
  · rw [issueToExecute_unit, hfree, Option.none_or, hc]
  · rw [issueToExecute_tomExecuteCycle, if_pos ⟨u, hfree, hc⟩]

theorem unit_busy {u : FuSlot} {p : Nat} (hp : s.unit u = some p) :
    (issueToExecute trace cc s).unit u = some p := by
  rw [issueToExecute_unit, hp, Option.some_or]

theorem unit_idle {u : FuSlot} (hfree : s.unit u = none) (hc : s.candidate trace u = none) :
    (issueToExecute trace cc s).unit u = none := by
  rw [issueToExecute_unit, hfree, hc, Option.none_or]

theorem reserv_issue : (issueToExecute trace cc s).reservINT = s.reservINT ∧
    (issueToExecute trace cc s).reservFP = s.reservFP := by
  rw [issueToExecute_frame]
  exact ⟨rfl, rfl⟩

theorem intWeight_start (cc : Nat) {i : Fin FU_INT_SIZE} {p : Nat}
    (hfree : s.unit (.int i) = none) (hc : s.candidate trace (.int i) = some p) :
    intWeight cc (issueToExecute trace cc s) i + 5 = intWeight cc s i := by
  have hstarted := unit_started cc hfree hc
  have hheld : Slots.Holds s.reservINT p := (candidate_facts hc).1
  have hlatency : FU_INT_LATENCY = 4 := rfl
  rw [intWeight_free hfree, intWeight_busy hstarted.1, hstarted.2, reserv_issue.1, if_pos hheld]
  omega

/-- At worst the occupant starts again. -/
theorem intWeight_issue_le (trace : Trace) (cc : Nat) (s : State) (i : Fin FU_INT_SIZE) :
    intWeight cc (issueToExecute trace cc s) i ≤ intWeight cc s i + 4 := by
  rcases hp : s.unit (.int i) with _ | p
  · rcases hc : s.candidate trace (.int i) with _ | q
    · rw [intWeight_free hp, intWeight_free (unit_idle hp hc)]
      omega
    · have hstart := intWeight_start cc hp hc
      omega
  · have hlatency : FU_INT_LATENCY = 4 := rfl
    rw [intWeight_busy hp, intWeight_busy (unit_busy hp), reserv_issue.1,
      issueToExecute_tomExecuteCycle]
    split_ifs <;> omega

theorem intTime_issue (cc : Nat) (ho : Occupancy trace s) :
    (issueToExecute trace cc s).intTime cc ≤ s.intTime cc ∧
      ((∃ i, s.unit (.int i) = none ∧ s.candidate trace (.int i) ≠ none) →
        (issueToExecute trace cc s).intTime cc < s.intTime cc) := by
  unfold State.intTime
  rw [reserv_issue.1, Fin.sum_univ_two, Fin.sum_univ_two]
  by_cases hstart : ∃ i, s.unit (.int i) = none ∧ s.candidate trace (.int i) ≠ none
  · -- What one slot starts pays for the occupant of the other one.
    have h0 := intWeight_issue_le trace cc s 0
    have h1 := intWeight_issue_le trace cc s 1
    rcases hstart with ⟨i, hfree, hc⟩
    rcases Option.ne_none_iff_exists'.mp hc with ⟨p, hp⟩
    have hstarted := intWeight_start cc hfree hp
    match i with
    | 0 => omega
    | 1 => omega
  · have hnone : ∀ j, s.unit (.int j) = none → s.candidate trace (.int j) = none := by
      intro j hfree
      by_contra hc
      exact hstart ⟨j, hfree, hc⟩
    have hsame : ∀ i, intWeight cc (issueToExecute trace cc s) i = intWeight cc s i := by
      intro i
      refine intWeight_congr ?_ (fun p _ => by rw [reserv_issue.1]) fun p hp => ?_
      swap
      · exact stamp_int ho hp hnone
      rcases hp : s.unit (.int i) with _ | p
      · exact unit_idle hp (hnone i hp)
      · exact unit_busy hp
    rw [hsame, hsame]
    exact ⟨le_rfl, fun h => absurd h hstart⟩

theorem fpTime_issue (cc : Nat) (ho : Occupancy trace s) :
    (issueToExecute trace cc s).fpTime cc ≤ s.fpTime cc ∧
      ((∃ i, s.unit (.fp i) = none ∧ s.candidate trace (.fp i) ≠ none) →
        (issueToExecute trace cc s).fpTime cc < s.fpTime cc) := by
  unfold State.fpTime
  rw [reserv_issue.2, Fin.sum_univ_one, Fin.sum_univ_one]
  -- With one slot the unit is either busy, or free and gets the candidate.
  rcases hp : s.unit (.fp 0) with _ | p
  · rcases hc : s.candidate trace (.fp 0) with _ | q
    · rw [fpWeight_free hp, fpWeight_free (unit_idle hp hc)]
      refine ⟨le_rfl, fun h => ?_⟩
      rcases h with ⟨i, -, hne⟩
      rw [Subsingleton.elim i 0] at hne
      exact absurd hc hne
    · have hstarted := unit_started cc hp hc
      have hlatency : FU_FP_LATENCY = 9 := rfl
      rw [fpWeight_free hp, fpWeight_busy hstarted.1, hstarted.2]
      omega
  · rw [fpWeight_busy hp, fpWeight_busy (unit_busy hp), stamp_fp ho hp]
    refine ⟨le_rfl, fun h => ?_⟩
    rcases h with ⟨i, hfree, -⟩
    rw [Subsingleton.elim i 0, hp] at hfree
    exact absurd hfree (by simp only [reduceCtorEq, not_false_eq_true])

theorem potential_issue (bound : Nat) (ho : Occupancy trace s) :
    (issueToExecute trace cc s).potential bound cc < s.potential bound cc ∨
      (issueToExecute trace cc s = s ∧
        ∀ u, s.unit u = none → s.candidate trace u = none) := by
  by_cases hidle : ∀ u, s.unit u = none → s.candidate trace u = none
  · exact Or.inr ⟨issue_idle hidle, hidle⟩
  · left
    have hint := intTime_issue cc ho
    have hfp := fpTime_issue cc ho
    have hfetch : (issueToExecute trace cc s).fetchIndex = s.fetchIndex := by
      rw [issueToExecute_frame]
    have hqueue : (issueToExecute trace cc s).instrQueueSize = s.instrQueueSize := by
      rw [issueToExecute_frame]
    unfold State.potential
    rw [hfetch, hqueue]
    simp only [not_forall] at hidle
    rcases hidle with ⟨i | i, hfree, hc⟩
    · have hlt := hint.2 ⟨i, hfree, hc⟩
      omega
    · have hlt := hfp.2 ⟨i, hfree, hc⟩
      omega

/-! ### Fetching and dispatching -/

theorem potential_fetch (bound : Nat) (heff : FetchEffect trace cc s s')
    (hbound : s.dontFetch = false → s.fetchIndex < bound) :
    s'.potential bound cc < s.potential bound cc ∨
      (s' = s ∧ (s.instrQueueSize = INSTR_QUEUE_SIZE ∨ s.dontFetch = true)) := by
  cases heff with
  | idle h => exact Or.inr ⟨rfl, h⟩
  | trap hsize hfetch htrap =>
      -- A trap is passed without entering the queue, so the bound drops and the queue is kept.
      left
      have hlt := hbound hfetch
      change 23 * (bound - (s.fetchIndex + 1)) + 22 * s.instrQueueSize.toNat + s.intTime cc
        + s.fpTime cc < 23 * (bound - s.fetchIndex) + 22 * s.instrQueueSize.toNat + s.intTime cc
        + s.fpTime cc
      omega
  | queue hsize hfetch htrap =>
      -- An entry costs one of those to come and adds one to the queue, which is worth less.
      left
      have hlt := hbound hfetch
      change 23 * (bound - (s.fetchIndex + 1)) + 22 * (s.instrQueueSize + 1).toNat + s.intTime cc
        + s.fpTime cc < 23 * (bound - s.fetchIndex) + 22 * s.instrQueueSize.toNat + s.intTime cc
        + s.fpTime cc
      omega

/-- A station that is filled gets its time from the queue. -/
theorem time_entered (cc : Nat) {head : Nat} {t : State} (ht : Entered trace head s t) :
    t.intTime cc + t.fpTime cc ≤ s.intTime cc + s.fpTime cc + 21 := by
  rcases ht with ⟨-, j, hj, ht⟩ | ⟨-, -, j, hj, ht⟩
  · have hres : t.reservINT = Function.update s.reservINT j (some head) := by rw [ht]
    have hstamp : t.tomExecuteCycle = s.tomExecuteCycle := by rw [ht]
    have hfp : t.fpTime cc = s.fpTime cc := by
      rw [ht]
      rfl
    have hunit : ∀ i, t.unit (.int i) = s.unit (.int i) := by
      intro i
      rw [ht]
      rfl
    -- A copy that is held again has not lost anything.
    have hweight : ∀ i, intWeight cc t i ≤ intWeight cc s i := by
      intro i
      rcases hp : s.unit (.int i) with _ | p
      · rw [intWeight_free hp, intWeight_free ((hunit i).trans hp)]
      · rw [intWeight_busy hp, intWeight_busy ((hunit i).trans hp), hstamp, hres]
        refine Nat.add_le_add_left ?_ _
        by_cases hheld : Slots.Holds s.reservINT p
        · rw [if_pos hheld, if_pos ((Slots.holds_update _ _ _ _ hj).mpr (Or.inl hheld))]
        · rw [if_neg hheld]
          split_ifs <;> omega
    have hsum := Finset.sum_le_sum fun i (_ : i ∈ Finset.univ) => hweight i
    have hle := Slots.occupied_update_le s.reservINT j head
    unfold State.intTime
    rw [hfp, hres]
    omega
  · have hres : t.reservFP = Function.update s.reservFP j (some head) := by rw [ht]
    have hint : t.intTime cc = s.intTime cc := by
      rw [ht]
      rfl
    have hweight : ∀ i, fpWeight cc t i = fpWeight cc s i := by
      intro i
      rw [ht]
      rfl
    have hsum : ∑ i, fpWeight cc t i = ∑ i, fpWeight cc s i :=
      Finset.sum_congr rfl fun i _ => hweight i
    have hle := Slots.occupied_update_le s.reservFP j head
    unfold State.fpTime
    rw [hint, hres, hsum]
    omega

theorem potential_dispatch (bound : Nat) (heff : DispatchEffect trace cc s s')
    (ho : Occupancy trace s) :
    s'.potential bound cc < s.potential bound cc ∨
      (s' = s ∧ (s.instrQueue 0 = none ∨ ∃ head, StationsFull trace head s)) := by
  cases heff with
  | empty hq => exact Or.inr ⟨rfl, Or.inl hq⟩
  | full head hq hfull => exact Or.inr ⟨rfl, Or.inr ⟨head, hfull⟩⟩
  -- Leaving the queue gives one entry, which is worth more than a station and its unit.
  | enter head t hq ht =>
      left
      have hpos := queueSize_pos ho.queue hq
      have htime := time_entered cc ht
      have hframe := entered_frame ht
      have hfetch : t.fetchIndex = s.fetchIndex := by rw [hframe]
      have hsize : t.instrQueueSize = s.instrQueueSize := by rw [hframe]
      change 23 * (bound - t.fetchIndex) + 22 * (t.instrQueueSize - 1).toNat + t.intTime cc
        + t.fpTime cc < s.potential bound cc
      unfold State.potential
      rw [hfetch, hsize]
      omega
  | evict head hq =>
      -- A branch that leaves without a station gives the whole entry.
      left
      have hpos := queueSize_pos ho.queue hq
      change 23 * (bound - s.fetchIndex) + 22 * (s.instrQueueSize - 1).toNat + s.intTime cc
        + s.fpTime cc < s.potential bound cc
      unfold State.potential
      omega

/-! ### Time -/

theorem potential_retire (bound : Nat) (s : State) :
    (cdbToRetire s).potential bound cc = s.potential bound cc := by
  refine potential_congr ?_ ?_ ?_ ?_ (cdbToRetire_unit s) ?_ <;> rw [cdbToRetire_frame]

theorem potential_done (bound : Nat) (s : State) :
    (isSimulationDone simInsn s).2.potential bound cc = s.potential bound cc := by
  refine potential_congr ?_ ?_ ?_ ?_ (fun u => ?_) ?_ <;> rw [isSimulationDone_frame]
  rcases u <;> rfl

/-- A cycle passes for whoever executes. -/
theorem intWeight_succ_le (cc : Nat) (s : State) (i : Fin FU_INT_SIZE) :
    intWeight (cc + 1) s i ≤ intWeight cc s i := by
  rcases hp : s.unit (.int i) with _ | p
  · rw [intWeight_free hp, intWeight_free hp]
  · rw [intWeight_busy hp, intWeight_busy hp]
    omega

theorem fpWeight_succ_le (cc : Nat) (s : State) (i : Fin FU_FP_SIZE) :
    fpWeight (cc + 1) s i ≤ fpWeight cc s i := by
  rcases hp : s.unit (.fp i) with _ | p
  · rw [fpWeight_free hp, fpWeight_free hp]
  · rw [fpWeight_busy hp, fpWeight_busy hp]
    omega

theorem potential_succ_le (bound : Nat) (s : State) :
    s.potential bound (cc + 1) ≤ s.potential bound cc := by
  have hint := Finset.sum_le_sum fun i (_ : i ∈ Finset.univ) => intWeight_succ_le cc s i
  have hfp := Finset.sum_le_sum fun i (_ : i ∈ Finset.univ) => fpWeight_succ_le cc s i
  unfold State.potential State.intTime State.fpTime
  omega

/-- It is used up by whoever has not finished. -/
theorem intWeight_succ_lt {i : Fin FU_INT_SIZE} {p : Nat} (hp : s.unit (.int i) = some p)
    (hrun : s.finished cc (.int i) p = false) : intWeight (cc + 1) s i < intWeight cc s i := by
  rw [intWeight_busy hp, intWeight_busy hp]
  have hleft : cc < s.tomExecuteCycle p + FU_INT_LATENCY := not_le.mp (of_decide_eq_false hrun)
  omega

theorem fpWeight_succ_lt {i : Fin FU_FP_SIZE} {p : Nat} (hp : s.unit (.fp i) = some p)
    (hrun : s.finished cc (.fp i) p = false) : fpWeight (cc + 1) s i < fpWeight cc s i := by
  rw [fpWeight_busy hp, fpWeight_busy hp]
  have hleft : cc < s.tomExecuteCycle p + FU_FP_LATENCY := not_le.mp (of_decide_eq_false hrun)
  omega

theorem potential_succ_lt (bound : Nat) {u : FuSlot} (hbusy : s.unit u ≠ none)
    (hrun : ∀ u p, s.unit u = some p → s.finished cc u p = false) :
    s.potential bound (cc + 1) < s.potential bound cc := by
  rcases Option.ne_none_iff_exists'.mp hbusy with ⟨p, hp⟩
  have hint := Finset.sum_le_sum fun i (_ : i ∈ Finset.univ) => intWeight_succ_le cc s i
  have hfp := Finset.sum_le_sum fun i (_ : i ∈ Finset.univ) => fpWeight_succ_le cc s i
  unfold State.potential State.intTime State.fpTime
  -- Some unit is busy and not finished, so its time to run goes down by one.
  rcases u with i | i
  · have hlt := Finset.sum_lt_sum (fun i _ => intWeight_succ_le cc s i)
      ⟨i, Finset.mem_univ i, intWeight_succ_lt hp (hrun _ p hp)⟩
    omega
  · have hlt := Finset.sum_lt_sum (fun i _ => fpWeight_succ_le cc s i)
      ⟨i, Finset.mem_univ i, fpWeight_succ_lt hp (hrun _ p hp)⟩
    omega

/-! ### Cycles -/

/-- A cycle after retirement uses up some of the time, or it finds nothing to
    do and leaves the state as it is. -/
theorem cycle_potential (bound : Nat) {s₁ s₂ s₃ s₄ s₅ : State}
    (hexec : s₂.potential bound cc < s₁.potential bound cc ∨
      (s₂ = s₁ ∧ ∀ u p, s₁.unit u = some p → s₁.finished cc u p = false))
    (hissue : s₃.potential bound cc < s₂.potential bound cc ∨
      (s₃ = s₂ ∧ ∀ u, s₂.unit u = none → s₂.candidate trace u = none))
    (hfetch : s₄.potential bound cc < s₃.potential bound cc ∨
      (s₄ = s₃ ∧ (s₃.instrQueueSize = INSTR_QUEUE_SIZE ∨ s₃.dontFetch = true)))
    (hdispatch : s₅.potential bound cc < s₄.potential bound cc ∨
      (s₅ = s₄ ∧ (s₄.instrQueue 0 = none ∨ ∃ head, StationsFull trace head s₄))) :
    s₅.potential bound cc < s₁.potential bound cc ∨ (s₅ = s₁ ∧ Idle trace cc s₁) := by
  have le_of_step : ∀ {s t : State} {P : Prop},
      t.potential bound cc < s.potential bound cc ∨ (t = s ∧ P) →
        t.potential bound cc ≤ s.potential bound cc := by
    intro s t P h
    rcases h with h | ⟨rfl, -⟩
    · exact h.le
    · exact le_rfl
  -- Each stage uses up some or is idle; the first that is not decides.
  have h5 := le_of_step hdispatch
  have h4 := h5.trans (le_of_step hfetch)
  have h3 := h4.trans (le_of_step hissue)
  rcases hexec with hexec | ⟨rfl, hrun⟩
  · exact Or.inl (h3.trans_lt hexec)
  · rcases hissue with hissue | ⟨rfl, hstuck⟩
    · exact Or.inl (h4.trans_lt hissue)
    · rcases hfetch with hfetch | ⟨rfl, hnofetch⟩
      · exact Or.inl (h5.trans_lt hfetch)
      · rcases hdispatch with hdispatch | ⟨rfl, hnodispatch⟩
        · exact Or.inl hdispatch
        · exact Or.inr ⟨rfl, hrun, hstuck, hnofetch, hnodispatch⟩

/-- A cycle ends the loop or uses up some of the time. -/
theorem cycle_uses (trace : Trace) (simInsn n : Nat) (hnl : NoLostWriter trace simInsn)
    (h : (runTomasulo trace simInsn n).stage = .cdbToRetire) :
    (runTomasulo trace simInsn (n + 6)).cycle = (runTomasulo trace simInsn n).cycle + 1 ∧
    (Returned trace simInsn (n + 6) ∨
      ((runTomasulo trace simInsn (n + 6)).stage = .cdbToRetire ∧
        (runTomasulo trace simInsn (n + 6)).state.potential (max simInsn 1)
            (runTomasulo trace simInsn (n + 6)).cycle
          < (runTomasulo trace simInsn n).state.potential (max simInsn 1)
            (runTomasulo trace simInsn n).cycle)) := by
  rcases cycle_stages trace simInsn n h with ⟨h1, h2, h3, h4, -, h6⟩
  -- Each stage has the invariants of the configuration it starts from.
  have ho1 := occupancy_runTomasulo trace simInsn (n + 1)
  have ho2 := occupancy_runTomasulo trace simInsn (n + 2)
  have hd1 := dataflow_runTomasulo trace simInsn (n + 1)
  have ha1 := awaited_runTomasulo trace simInsn (n + 1) hnl
  have hb1 := fetchBound_runTomasulo trace simInsn (n + 1)
  have hb3 := fetchBound_runTomasulo trace simInsn (n + 3)
  have ho4 := occupancy_runTomasulo trace simInsn (n + 4)
  rw [h1] at ho1 hd1 ha1 hb1
  rw [h2] at ho2
  rw [h3] at hb3
  rw [h4] at ho4
  unfold Returned
  rw [h6]
  generalize (runTomasulo trace simInsn n).cycle = cc at *
  generalize (runTomasulo trace simInsn n).state = s at *
  rcases executeToCDB_effect trace cc (cdbToRetire s) with ⟨winner, e⟩
  have hcycle := cycle_potential (max simInsn 1) (potential_execute (max simInsn 1) e ho1)
    (potential_issue (max simInsn 1) ho2)
    (potential_fetch (max simInsn 1) (fetchToDispatch_effect trace cc _)
      (hb3.below (fun h => Stage.noConfusion h) (fun h => Stage.noConfusion h)))
    (potential_dispatch (max simInsn 1) (dispatchToIssue_effect trace cc _) ho4)
  generalize dispatchToIssue trace cc _ = s₅ at hcycle ⊢
  refine ⟨rfl, ?_⟩
  by_cases hdone : (isSimulationDone simInsn s₅).1 = true
  · left
    rw [if_pos hdone]
  · right
    rw [if_neg hdone]
    refine ⟨rfl, ?_⟩
    simp only
    rw [potential_done]
    rw [potential_retire] at hcycle
    rcases hcycle with hdrop | ⟨rfl, hidle⟩
    · exact (potential_succ_le _ s₅).trans_lt hdrop
    · rw [← potential_retire _ s]
      by_cases hbusy : ∃ u, (cdbToRetire s).unit u ≠ none
      · rcases hbusy with ⟨u, hu⟩
        exact potential_succ_lt _ hu hidle.execute
      · -- nobody is executing either, so the end test would have succeeded
        have hfree : ∀ u, (cdbToRetire s).unit u = none := not_exists_not.mp hbusy
        rcases empty_of_stuck ho1 hd1 ha1 (cdbToRetire_commonDataBus s) hfree
          (fun u => hidle.issue u (hfree u)) hidle.fetch hidle.dispatch with ⟨hempty, hdont⟩
        refine absurd ?_ hdone
        rw [isSimulationDone, if_pos (hb1.stopped hdont)]
        exact decide_eq_true hempty

/-- At first there is nothing but the entries to read and five free slots. -/
theorem potential_initial (bound cc : Nat) :
    State.initial.potential bound cc = 23 * bound + 28 := by
  have hint : State.initial.intTime cc = 18 := rfl
  have hfp : State.initial.fpTime cc = 10 := rfl
  have hsize : State.initial.instrQueueSize.toNat = 0 := rfl
  have hfetch : State.initial.fetchIndex = 0 := rfl
  unfold State.potential
  omega

/-- What the cycles have used and what is left is at most what there was. -/
theorem cycle_upper (trace : Trace) (simInsn k : Nat) (hnl : NoLostWriter trace simInsn) :
    (Returned trace simInsn (6 * k) ∧
      (runTomasulo trace simInsn (6 * k)).cycle ≤ 23 * max simInsn 1 + 30) ∨
    ((runTomasulo trace simInsn (6 * k)).stage = .cdbToRetire ∧
      (runTomasulo trace simInsn (6 * k)).cycle
          + (runTomasulo trace simInsn (6 * k)).state.potential (max simInsn 1)
            (runTomasulo trace simInsn (6 * k)).cycle
        ≤ 23 * max simInsn 1 + 29) := by
  induction k with
  | zero =>
      refine Or.inr ⟨rfl, ?_⟩
      change 1 + State.initial.potential (max simInsn 1) 1 ≤ _
      rw [potential_initial]
      omega
  | succ k ih =>
      rw [Nat.mul_succ]
      rcases ih with ⟨hret, hle⟩ | ⟨hs, hle⟩
      · -- a loop that has ended stays as it is
        have hsame := returned_mono trace simInsn _ _ (Nat.le_add_right (6 * k) 6) hret
        left
        unfold Returned
        rw [hsame]
        exact ⟨hret, hle⟩
      · rcases cycle_uses trace simInsn (6 * k) hnl hs with ⟨hcycle, hret | ⟨hs', hlt⟩⟩
        · exact Or.inl ⟨hret, by omega⟩
        · exact Or.inr ⟨hs', by omega⟩

/-- An entry is read at most once in a cycle. -/
theorem cycle_lower (trace : Trace) (simInsn n : Nat) :
    (runTomasulo trace simInsn n).state.fetchIndex + 1 ≤ (runTomasulo trace simInsn n).cycle
      + if (runTomasulo trace simInsn n).stage = .dispatchToIssue then 1 else 0 := by
  induction n with
  | zero => exact Nat.le_refl 1
  | succ n ih =>
      rw [runTomasulo_succ, step_cycle]
      rcases step_fetchIndex trace simInsn (runTomasulo trace simInsn n) with hf | ⟨hs, hf⟩
      -- The entry counts for the cycle only when the cycle ends.
      · rw [hf]
        split_ifs at ih ⊢ <;> omega
      · rw [hf, step_stage, hs, if_pos rfl]
        rw [hs] at ih
        simp only [reduceCtorEq, if_false] at ih ⊢
        omega

/-- On every trace of an instruction set whose writers broadcast, what is
    returned is more than the number of entries that are read, and at most
    linear in it. -/
theorem returns_within (trace : Trace) (simInsn : Nat) (hwb : trace.WritersBroadcast) :
    (∃ n, Returned trace simInsn n) ∧
    ∀ n, Returned trace simInsn n →
      max simInsn 1 < (runTomasulo trace simInsn n).cycle ∧
        (runTomasulo trace simInsn n).cycle ≤ 23 * max simInsn 1 + 30 := by
  have hnl := noLostWriter_of_writersBroadcast trace simInsn hwb
  refine ⟨terminates trace simInsn hnl, fun n hret => ⟨?_, ?_⟩⟩
  · have hlower := cycle_lower trace simInsn n
    rw [fetchIndex_returned hret, hret, if_neg (fun h => Stage.noConfusion h)] at hlower
    exact hlower
  · -- The configuration is the same at the end of the cycle.
    have hsame := returned_mono trace simInsn n (6 * n) (by omega) hret
    have hcycle : (runTomasulo trace simInsn (6 * n)).cycle
        = (runTomasulo trace simInsn n).cycle := by rw [hsame]
    rcases cycle_upper trace simInsn n hnl with ⟨-, hle⟩ | ⟨hs, -⟩
    · exact hcycle ▸ hle
    · rw [hsame, hret] at hs
      exact absurd hs (fun h => Stage.noConfusion h)

theorem returns_within_chain :
    (∃ n, Returned chain 3 n) ∧
    ∀ n, Returned chain 3 n →
      max 3 1 < (runTomasulo chain 3 n).cycle ∧
        (runTomasulo chain 3 n).cycle ≤ 23 * max 3 1 + 30 :=
  returns_within chain 3 (by decide +kernel)

end Tomasulo

end MicroArch
