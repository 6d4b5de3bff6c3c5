import MicroArch.Tomasulo.Machine

/-!
# What a Stage Can Do

One description per stage function of everything it can do to the state, so
that no invariant has to unfold a stage again.

`cdbToRetire` and `issueToExecute` are described by the fields they leave
behind. The description of `issueToExecute` is where its main feature shows:
the stations and the `Q` pointers do not change while the units are filled,
so the scan for each free unit finds the same instruction, and every free
unit of a class takes it.

`executeToCDB` removes instructions from arrays in several places, so it is
described by who is left: `CDBEffect` says, for each array, which occupants
remain, given the instruction that won the bus. `DispatchEffect` and
`FetchEffect` list the ways the remaining two stages can go.

## Main definitions

* `State.Finished`: The occupant of a unit has been there for its latency.
* `FinishedWriter`: A finished instruction that competes for the bus.
* `FinishedStore`: A finished instruction that leaves without the bus.
* `CDBEffect`: What `executeToCDB` does, given the winner.
* `DispatchEffect`: The ways `dispatchToIssue` can go.
* `FetchEffect`: The ways `fetchToDispatch` can go.

## Theorems

* `issueToExecute_unit`: Free slots fill, others stay.
* `issueToExecute_tomExecuteCycle`: Only instructions placed are stamped.
* `executeToCDB_effect`: The description of `executeToCDB` holds.
* `dispatchToIssue_effect`: The description of `dispatchToIssue` holds.
* `fetchToDispatch_effect`: The description of `fetchToDispatch` holds.
-/

namespace MicroArch

namespace Tomasulo

variable {trace : Trace} {cc : Nat} {s s' : State}

/-! ### Retiring from the bus -/

@[simp] theorem cdbToRetire_commonDataBus (s : State) : (cdbToRetire s).commonDataBus = none := by
  unfold cdbToRetire
  rcases s.commonDataBus <;> rfl

theorem cdbToRetire_Q (s : State) (p : Nat) (j : Fin 3) :
    (cdbToRetire s).Q p j
      = if s.Held p ∧ s.Q p j = s.commonDataBus then none else s.Q p j := by
  unfold cdbToRetire
  rcases hb : s.commonDataBus with _ | bus
  -- With a free bus the test compares with null, and clears what is null.
  · by_cases h : s.Held p ∧ s.Q p j = none
    · rw [if_pos h]
      exact h.2
    · rw [if_neg h]
  · rfl

theorem cdbToRetire_mapTable (s : State) (r : Fin MD_TOTAL_REGS) :
    (cdbToRetire s).mapTable r
      = if s.mapTable r = s.commonDataBus then none else s.mapTable r := by
  unfold cdbToRetire
  rcases hb : s.commonDataBus with _ | bus
  · by_cases h : s.mapTable r = none
    · rw [if_pos h]
      exact h
    · rw [if_neg h]
  · rfl

/-- Nothing but the bus, the `Q` pointers and the map table is touched. -/
theorem cdbToRetire_frame (s : State) :
    cdbToRetire s = { s with
      Q := (cdbToRetire s).Q, mapTable := (cdbToRetire s).mapTable, commonDataBus := none } := by
  unfold cdbToRetire
  rcases s.commonDataBus <;> rfl

theorem cdbToRetire_held (s : State) (p : Nat) : (cdbToRetire s).Held p ↔ s.Held p := by
  rw [cdbToRetire_frame]
  rfl

theorem cdbToRetire_unit (s : State) (u : FuSlot) : (cdbToRetire s).unit u = s.unit u := by
  rw [cdbToRetire_frame]
  cases u <;> rfl

/-! ### Starting execution -/

/-- The scan only looks at the `Q` pointers and at its own stations. -/
theorem oldestReady_congr {n : Nat} (s t : State) (reserv : Fin n → Option Nat) (h : s.Q = t.Q) :
    oldestReady trace s reserv = oldestReady trace t reserv := by
  unfold oldestReady
  have hready : s.ready = t.ready := by
    unfold State.ready
    rw [h]
  rw [hready]

/-- Who the scan can find: a ready occupant that no ready occupant precedes. -/
theorem oldestReady_eq_some {n : Nat} (reserv : Fin n → Option Nat) (p : Nat)
    (h : oldestReady trace s reserv = some p) :
    Slots.Holds reserv p ∧ s.ready p = true ∧
      ∀ q, Slots.Holds reserv q → s.ready q = true → trace.age p ≤ trace.age q := by
  have hsound := Slots.scanOldest_sound trace.age s.ready id reserv _ _
    (Slots.start_sound trace.age) (fun i q _ => instr_index_nonneg trace q)
  rcases Option.bind_eq_some_iff.mp h with ⟨i, hfound, hi⟩
  -- The scan reports a slot; its occupant is read back afterwards.
  rcases Slots.Oldest.found_eq_some hsound i hfound with ⟨q, hcand, hmin⟩
  simp only [id_eq, false_or, exists_eq_left] at hcand hmin
  have hqp : q = p := by
    rw [hcand.1, Option.some.injEq] at hi
    exact hi
  rw [← hqp]
  refine ⟨⟨i, hcand.1⟩, hcand.2, fun x ⟨j, hj⟩ hx => hmin j x ⟨hj, hx⟩⟩

/-- When the scan finds nothing, no occupant is ready. -/
theorem oldestReady_eq_none {n : Nat} (reserv : Fin n → Option Nat)
    (h : oldestReady trace s reserv = none) :
    ∀ p, Slots.Holds reserv p → s.ready p = false := by
  have hsound := Slots.scanOldest_sound trace.age s.ready id reserv _ _
    (Slots.start_sound trace.age) (fun i q _ => instr_index_nonneg trace q)
  have hnone : ∀ u p, ¬ (False ∨ ∃ i, id i = u ∧ reserv i = some p ∧ s.ready p = true) := by
    rcases hf : (Slots.scanOldest trace.age s.ready id reserv Slots.Oldest.start).found with _ | i
    · exact Slots.Oldest.found_eq_none hsound hf
    · -- a slot that was found is occupied, so the pointer read from it is not null
      rcases Slots.Oldest.found_eq_some hsound i hf with ⟨q, hcand, -⟩
      simp only [id_eq, false_or, exists_eq_left] at hcand
      rw [oldestReady, hf, Option.bind_some, hcand.1] at h
      exact absurd h (by simp only [reduceCtorEq, not_false_eq_true])
  rintro p ⟨i, hi⟩
  by_contra hready
  exact hnone i p (Or.inr ⟨i, rfl, hi, by simpa only [Bool.not_eq_false] using hready⟩)

@[simp] theorem unit_setUnit (s : State) (u w : FuSlot) (v : Option Nat) :
    (s.setUnit u v).unit w = if w = u then v else s.unit w := by
  rcases u with i | i <;> rcases w with j | j <;>
    simp only [State.setUnit, State.unit, Function.update_apply, reduceCtorEq, if_false,
      FuSlot.int.injEq, FuSlot.fp.injEq]

/-- Writing a slot touches the unit arrays and nothing else. -/
theorem setUnit_frame (s : State) (u : FuSlot) (v : Option Nat) :
    s.setUnit u v = { s with fuINT := (s.setUnit u v).fuINT, fuFP := (s.setUnit u v).fuFP } := by
  rcases u with i | i <;> rfl

/-- Starting touches the units and the execution stamps and nothing else. -/
theorem start_frame (s : State) (u : FuSlot) :
    start trace cc s u = { s with
      fuINT := (start trace cc s u).fuINT
      fuFP := (start trace cc s u).fuFP
      tomExecuteCycle := (start trace cc s u).tomExecuteCycle } := by
  unfold start
  rcases s.unit u with _ | q
  · rcases s.candidate trace u with _ | p
    · rfl
    · simp only
      rw [setUnit_frame]
  · rfl

theorem start_candidate (s : State) (u v : FuSlot) :
    (start trace cc s u).candidate trace v = s.candidate trace v := by
  have hQ : (start trace cc s u).Q = s.Q := by rw [start_frame]
  -- Neither the pointers nor the stations have changed, whichever slot was filled.
  rcases v with i | i
  · simp only [State.candidate]
    rw [oldestReady_congr _ s _ hQ, start_frame]
  · simp only [State.candidate]
    rw [oldestReady_congr _ s _ hQ, start_frame]

theorem start_unit (s : State) (u v : FuSlot) :
    (start trace cc s u).unit v
      = if v = u then (s.unit u).or (s.candidate trace u) else s.unit v := by
  unfold start
  -- A slot that is occupied, or for which nothing is ready, stays as it is.
  rcases hu : s.unit u with _ | q
  · rcases hp : s.candidate trace u with _ | p
    · by_cases hv : v = u
      · rw [if_pos hv, hv]
        exact hu
      · rw [if_neg hv]
    · exact unit_setUnit s u v (some p)
  · by_cases hv : v = u
    · rw [if_pos hv, hv]
      exact hu
    · rw [if_neg hv]

theorem start_tomExecuteCycle (s : State) (u : FuSlot) (p : Nat) :
    (start trace cc s u).tomExecuteCycle p
      = if s.unit u = none ∧ s.candidate trace u = some p then cc else s.tomExecuteCycle p := by
  unfold start
  rcases hi : s.unit u with _ | q
  · rcases hq : s.candidate trace u with _ | q
    · simp only [reduceCtorEq, and_false, if_false]
    · by_cases hpq : q = p
      · simp only [hpq, and_self, if_true, Function.update_self]
      · simp only [Option.some.injEq, hpq, and_false, if_false]
        rw [Function.update_of_ne (fun h => hpq h.symm)]
  · simp only [reduceCtorEq, false_and, if_false]

/-- The stage unrolled: two integer slots, then the floating-point one. -/
theorem issueToExecute_eq (s : State) :
    issueToExecute trace cc s
      = start trace cc (start trace cc (start trace cc s (.int 0)) (.int 1)) (.fp 0) := rfl

theorem issueToExecute_frame (s : State) :
    issueToExecute trace cc s = { s with
      fuINT := (issueToExecute trace cc s).fuINT
      fuFP := (issueToExecute trace cc s).fuFP
      tomExecuteCycle := (issueToExecute trace cc s).tomExecuteCycle } := by
  rw [issueToExecute_eq, start_frame, start_frame (start trace cc s (.int 0)), start_frame s]

/-- Every free slot takes the oldest ready instruction of its stations, the
    same one for both integer slots; an occupied slot keeps its occupant. -/
theorem issueToExecute_unit (s : State) (u : FuSlot) :
    (issueToExecute trace cc s).unit u = (s.unit u).or (s.candidate trace u) := by
  rw [issueToExecute_eq]
  -- Each slot is filled once, and its candidate is the one of the old state.
  simp only [start_unit, start_candidate]
  rcases u with i | i
  · match i with
    | 0 => simp only [reduceCtorEq, if_false, FuSlot.int.injEq, Fin.reduceEq, if_true]
    | 1 => simp only [reduceCtorEq, if_false, FuSlot.int.injEq, Fin.reduceEq, if_true]
  · match i with
    | 0 => simp only [reduceCtorEq, if_false, if_true]

/-- Exactly the instructions placed in a slot are stamped. -/
theorem issueToExecute_tomExecuteCycle (s : State) (p : Nat) :
    (issueToExecute trace cc s).tomExecuteCycle p
      = if ∃ u, s.unit u = none ∧ s.candidate trace u = some p then cc
        else s.tomExecuteCycle p := by
  rw [issueToExecute_eq]
  simp only [start_tomExecuteCycle, start_unit, start_candidate, reduceCtorEq, if_false,
    FuSlot.int.injEq, Fin.reduceEq]
  -- The three slots in the order they are filled; a later stamp is the same cycle.
  by_cases h0 : s.unit (.int 0) = none ∧ s.candidate trace (.int 0) = some p
  · have hex : ∃ u, s.unit u = none ∧ s.candidate trace u = some p := ⟨_, h0⟩
    rw [if_pos hex, if_pos h0, ite_self, ite_self]
  · rw [if_neg h0]
    by_cases h1 : s.unit (.int 1) = none ∧ s.candidate trace (.int 1) = some p
    · have hex : ∃ u, s.unit u = none ∧ s.candidate trace u = some p := ⟨_, h1⟩
      rw [if_pos hex, if_pos h1, ite_self]
    · rw [if_neg h1]
      by_cases h2 : s.unit (.fp 0) = none ∧ s.candidate trace (.fp 0) = some p
      · have hex : ∃ u, s.unit u = none ∧ s.candidate trace u = some p := ⟨_, h2⟩
        rw [if_pos hex, if_pos h2]
      · rw [if_neg h2, if_neg]
        intro hcase
        rcases hcase with ⟨u | u, hu⟩
        · match u, hu with
          | 0, hu => exact h0 hu
          | 1, hu => exact h1 hu
        · match u, hu with
          | 0, hu => exact h2 hu

/-! ### Taking the bus -/

/-- A finished occupant that competes for the bus. Every finished occupant of
    a floating-point slot does. -/
def FinishedWriter (trace : Trace) (cc : Nat) (s : State) (u : FuSlot) (p : Nat) : Prop :=
  s.unit u = some p ∧ s.finished cc u p = true ∧
    ((∃ i, u = .int i) → writesCDB (trace.instr p).op = true)

/-- A finished occupant of an integer slot that leaves without the bus. -/
def FinishedStore (trace : Trace) (cc : Nat) (s : State) (u : FuSlot) (p : Nat) : Prop :=
  s.unit u = some p ∧ s.finished cc u p = true ∧
    (∃ i, u = .int i) ∧ writesCDB (trace.instr p).op = false

theorem not_finishedStore_of_writer {u v : FuSlot} {p : Nat} (h : FinishedWriter trace cc s u p)
    (hu : ∃ i, u = .int i) : ¬ FinishedStore trace cc s v p := by
  intro hcase
  rcases hcase with ⟨-, -, -, hw⟩
  rw [h.2.2 hu] at hw
  exact absurd hw (by simp only [reduceCtorEq, not_false_eq_true])

/-- What the scans have done once they have visited the slots in `seen`:
    finished stores of those slots are gone, and the running minimum accounts
    for the finished writers. -/
structure Scanned (trace : Trace) (cc : Nat) (s : State) (seen : FuSlot → Prop)
    (acc : State × Slots.Oldest FuSlot) : Prop where
  frame : acc.1 = { s with reservINT := acc.1.reservINT, fuINT := acc.1.fuINT }
  unit : ∀ u p, acc.1.unit u = some p ↔
    s.unit u = some p ∧ ¬ (seen u ∧ FinishedStore trace cc s u p)
  reservINT : ∀ j p, acc.1.reservINT j = some p ↔
    s.reservINT j = some p ∧ ∀ u, ¬ (seen u ∧ FinishedStore trace cc s u p)
  oldest : Slots.Oldest.Sound trace.age (fun u p => seen u ∧ FinishedWriter trace cc s u p) acc.2

theorem scanned_start (trace : Trace) (cc : Nat) (s : State) :
    Scanned trace cc s (fun _ => False) (s, Slots.Oldest.start) where
  frame := rfl
  unit u p := by simp only [false_and, not_false_eq_true, and_true]
  reservINT j p := by simp only [false_and, not_false_eq_true, implies_true, and_true]
  oldest := (Slots.start_sound trace.age).congr fun u p => by simp only [false_and]

/-- A slot that holds nothing finished changes nothing when it is visited. -/
theorem Scanned.skip {seen : FuSlot → Prop} {acc : State × Slots.Oldest FuSlot}
    (h : Scanned trace cc s seen acc) (v : FuSlot)
    (hv : ∀ p, s.unit v = some p → s.finished cc v p = false) :
    Scanned trace cc s (fun u => seen u ∨ u = v) acc := by
  have hstore : ∀ p, ¬ FinishedStore trace cc s v p := by
    rintro p ⟨hp, hfin, -⟩
    rw [hv p hp] at hfin
    exact absurd hfin (by simp only [reduceCtorEq, not_false_eq_true])
  have hwriter : ∀ p, ¬ FinishedWriter trace cc s v p := by
    rintro p ⟨hp, hfin, -⟩
    rw [hv p hp] at hfin
    exact absurd hfin (by simp only [reduceCtorEq, not_false_eq_true])
  -- Adding the slot to those seen adds nothing that satisfies either predicate.
  have hsame : ∀ (P : FuSlot → Nat → Prop), (∀ p, ¬ P v p) →
      ∀ u p, ((seen u ∨ u = v) ∧ P u p) ↔ (seen u ∧ P u p) := by
    intro P hP u p
    refine ⟨?_, fun ⟨hu, hp⟩ => ⟨Or.inl hu, hp⟩⟩
    intro hcase
    rcases hcase with ⟨hu | rfl, hp⟩
    · exact ⟨hu, hp⟩
    · exact absurd hp (hP p)
  refine ⟨h.frame, fun u p => ?_, fun j p => ?_, h.oldest.congr fun u p => hsame _ hwriter u p⟩
  · rw [h.unit, hsame _ hstore]
  · rw [h.reservINT]
    simp only [hsame _ hstore]

/-- Visiting a slot with a finished writer offers it to the minimum search. -/
theorem Scanned.writer {seen : FuSlot → Prop} {acc : State × Slots.Oldest FuSlot}
    (h : Scanned trace cc s seen acc) (v : FuSlot) (q : Nat)
    (hq : FinishedWriter trace cc s v q) (hstore : ¬ FinishedStore trace cc s v q) :
    Scanned trace cc s (fun u => seen u ∨ u = v) (acc.1, Slots.offer trace.age v q acc.2) := by
  -- The slot has one occupant, so the writer is the only thing it adds.
  have hval : ∀ p, s.unit v = some p → p = q := by
    intro p hp
    rw [hq.1, Option.some.injEq] at hp
    exact hp.symm
  have hsame : ∀ u p, ((seen u ∨ u = v) ∧ FinishedStore trace cc s u p) ↔
      (seen u ∧ FinishedStore trace cc s u p) := by
    intro u p
    refine ⟨?_, fun ⟨hu, hp⟩ => ⟨Or.inl hu, hp⟩⟩
    intro hcase
    rcases hcase with ⟨hu | rfl, hp⟩
    · exact ⟨hu, hp⟩
    · rw [hval p hp.1] at hp
      exact absurd hp hstore
  refine ⟨h.frame, fun u p => ?_, fun j p => ?_, ?_⟩
  · rw [h.unit, hsame]
  · rw [h.reservINT]
    simp only [hsame]
  · refine (Slots.offer_sound trace.age _ acc.2 v q h.oldest (instr_index_nonneg trace q)).congr
      fun u p => ?_
    constructor
    · intro hcase
      rcases hcase with ⟨hu | rfl, hp⟩
      · exact Or.inl ⟨hu, hp⟩
      · exact Or.inr ⟨rfl, hval p hp.1⟩
    · intro hcase
      rcases hcase with ⟨hu, hp⟩ | ⟨rfl, rfl⟩
      · exact ⟨Or.inl hu, hp⟩
      · exact ⟨Or.inr rfl, hq⟩

/-- Visiting an integer slot with a finished store removes it. -/
theorem Scanned.store {seen : FuSlot → Prop} {acc : State × Slots.Oldest FuSlot}
    (h : Scanned trace cc s seen acc) (i : Fin FU_INT_SIZE) (q : Nat)
    (hq : FinishedStore trace cc s (.int i) q) :
    Scanned trace cc s (fun u => seen u ∨ u = .int i)
      ((acc.1.dropFor (.int i) q).setUnit (.int i) none, acc.2) := by
  have hval : ∀ p, s.unit (.int i) = some p → p = q := by
    intro p hp
    rw [hq.1, Option.some.injEq] at hp
    exact hp.symm
  -- The occupant of this slot is a store, so no writer is added.
  have hwriter : ∀ p, ¬ FinishedWriter trace cc s (.int i) p := by
    intro p hp
    have hw := hp.2.2 ⟨i, rfl⟩
    rw [hval p hp.1, hq.2.2.2] at hw
    exact absurd hw (by simp only [reduceCtorEq, not_false_eq_true])
  refine ⟨?_, fun u p => ?_, fun j p => ?_, h.oldest.congr fun u p => ?_⟩
  · simp only [State.setUnit, State.dropFor]
    rw [h.frame]
  · rw [unit_setUnit]
    by_cases hu : u = .int i
    · rw [if_pos hu, hu]
      refine ⟨fun h => absurd h (by simp only [reduceCtorEq, not_false_eq_true]), ?_⟩
      intro hcase
      rcases hcase with ⟨hp, hn⟩
      rw [hval p hp] at hn
      exact absurd ⟨Or.inr rfl, hq⟩ hn
    · have hunit : (acc.1.dropFor (.int i) q).unit u = acc.1.unit u := by
        rcases u <;> rfl
      rw [if_neg hu, hunit, h.unit]
      simp only [hu, or_false]
  -- The store is dropped from every station that holds it.
  · have hres : ((acc.1.dropFor (.int i) q).setUnit (.int i) none).reservINT
        = Slots.drop q acc.1.reservINT := rfl
    rw [hres, Slots.drop_eq_some, h.reservINT]
    constructor
    · intro hcase
      rcases hcase with ⟨⟨hp, hseen⟩, hne⟩
      refine ⟨hp, fun u hu => ?_⟩
      rcases hu with ⟨hu | rfl, hst⟩
      · exact hseen u ⟨hu, hst⟩
      · exact hne (hval p hst.1)
    · intro hcase
      rcases hcase with ⟨hp, hseen⟩
      refine ⟨⟨hp, fun u hu => hseen u ⟨Or.inl hu.1, hu.2⟩⟩, ?_⟩
      rintro rfl
      exact hseen _ ⟨Or.inr rfl, hq⟩
  · refine ⟨?_, fun ⟨hu, hp⟩ => ⟨Or.inl hu, hp⟩⟩
    intro hcase
    rcases hcase with ⟨hu | rfl, hp⟩
    · exact ⟨hu, hp⟩
    · exact absurd hp (hwriter p)

theorem scanned_finishINT {seen : FuSlot → Prop} {acc : State × Slots.Oldest FuSlot}
    (h : Scanned trace cc s seen acc) (i : Fin FU_INT_SIZE) (hi : ¬ seen (.int i)) :
    Scanned trace cc s (fun u => seen u ∨ u = .int i) (finishINT trace cc acc i) := by
  -- The slot has not been visited, so what it holds is what it held.
  have hunit : ∀ p, acc.1.fuINT i = some p ↔ s.unit (.int i) = some p := by
    intro p
    rw [show acc.1.fuINT i = acc.1.unit (.int i) from rfl, h.unit]
    simp only [hi, false_and, not_false_eq_true, and_true]
  have hfin : ∀ p, acc.1.finished cc (.int i) p = s.finished cc (.int i) p := by
    intro p
    rw [h.frame]
    rfl
  unfold finishINT
  rcases hp : acc.1.fuINT i with _ | p
  · refine h.skip _ fun q hq => ?_
    rw [← hunit, hp] at hq
    exact absurd hq (by simp only [reduceCtorEq, not_false_eq_true])
  · have hsp := (hunit p).mp hp
    simp only [hfin]
    by_cases hf : s.finished cc (.int i) p = true
    · rw [if_pos hf]
      by_cases hw : writesCDB (trace.instr p).op = true
      · rw [if_pos hw]
        have hq : FinishedWriter trace cc s (.int i) p := ⟨hsp, hf, fun _ => hw⟩
        exact h.writer _ _ hq (not_finishedStore_of_writer hq ⟨i, rfl⟩)
      · rw [if_neg hw]
        exact h.store i p ⟨hsp, hf, ⟨i, rfl⟩, by simpa only [Bool.not_eq_true] using hw⟩
    · rw [if_neg hf]
      refine h.skip _ fun q hq => ?_
      rw [hsp, Option.some.injEq] at hq
      rw [← hq]
      simpa only [Bool.not_eq_true] using hf

theorem scanned_finishFP {seen : FuSlot → Prop} {acc : State × Slots.Oldest FuSlot}
    (h : Scanned trace cc s seen acc) (i : Fin FU_FP_SIZE) :
    Scanned trace cc s (fun u => seen u ∨ u = .fp i) (finishFP trace cc acc i) := by
  -- No store is in a floating-point slot, so this loop removes nothing.
  have hstore : ∀ p, ¬ FinishedStore trace cc s (.fp i) p := by
    rintro p ⟨-, -, ⟨j, hj⟩, -⟩
    exact absurd hj (by simp only [reduceCtorEq, not_false_eq_true])
  have hunit : ∀ p, acc.1.fuFP i = some p ↔ s.unit (.fp i) = some p := by
    intro p
    rw [show acc.1.fuFP i = acc.1.unit (.fp i) from rfl, h.unit]
    simp only [hstore, and_false, not_false_eq_true, and_true]
  have hfin : ∀ p, acc.1.finished cc (.fp i) p = s.finished cc (.fp i) p := by
    intro p
    rw [h.frame]
    rfl
  unfold finishFP
  rcases hp : acc.1.fuFP i with _ | p
  · refine h.skip _ fun q hq => ?_
    rw [← hunit, hp] at hq
    exact absurd hq (by simp only [reduceCtorEq, not_false_eq_true])
  · have hsp := (hunit p).mp hp
    simp only [hfin]
    by_cases hf : s.finished cc (.fp i) p = true
    · rw [if_pos hf]
      refine h.writer _ _ ⟨hsp, hf, ?_⟩ (hstore p)
      intro hcase
      rcases hcase with ⟨j, hj⟩
      exact absurd hj (by simp only [reduceCtorEq, not_false_eq_true])
    · rw [if_neg hf]
      refine h.skip _ fun q hq => ?_
      rw [hsp, Option.some.injEq] at hq
      rw [← hq]
      simpa only [Bool.not_eq_true] using hf

/-- The state and the running minimum after both scans. -/
def scan (trace : Trace) (cc : Nat) (s : State) : State × Slots.Oldest FuSlot :=
  (List.finRange FU_FP_SIZE).foldl (finishFP trace cc)
    ((List.finRange FU_INT_SIZE).foldl (finishINT trace cc) (s, Slots.Oldest.start))

theorem scan_scanned (trace : Trace) (cc : Nat) (s : State) :
    Scanned trace cc s (fun _ => True) (scan trace cc s) := by
  have h0 := scanned_finishINT (scanned_start trace cc s) 0 id
  have h1 := scanned_finishINT h0 1 (by simp only [FuSlot.int.injEq, Fin.reduceEq, or_self,
    not_false_eq_true])
  have h2 := scanned_finishFP h1 0
  -- After the three visits every slot has been seen.
  have hall : (fun u : FuSlot => ((False ∨ u = .int 0) ∨ u = .int 1) ∨ u = .fp 0)
      = fun _ => True := by
    funext u
    refine eq_true ?_
    rcases u with i | i
    · match i with
      | 0 => exact Or.inl (Or.inl (Or.inr rfl))
      | 1 => exact Or.inl (Or.inr rfl)
    · match i with
      | 0 => exact Or.inr rfl
  rw [hall] at h2
  exact h2

/-- Everything `executeToCDB` does to a state, given the occupant that won
    the bus, if any. -/
structure CDBEffect (trace : Trace) (cc : Nat) (s s' : State)
    (winner : Option (FuSlot × Nat)) : Prop where
  frame : s' = { s with
    reservINT := s'.reservINT, reservFP := s'.reservFP, fuINT := s'.fuINT, fuFP := s'.fuFP
    commonDataBus := s'.commonDataBus, tomCdbCycle := s'.tomCdbCycle }
  oldest : ∀ u p, winner = some (u, p) → FinishedWriter trace cc s u p ∧
    ∀ v q, FinishedWriter trace cc s v q → trace.age p ≤ trace.age q
  idle : winner = none → ∀ u p, ¬ FinishedWriter trace cc s u p
  bus : s'.commonDataBus = (winner.map Prod.snd).or s.commonDataBus
  stamp : ∀ p, s'.tomCdbCycle p
    = if winner.map Prod.snd = some p then cc else s.tomCdbCycle p
  unit : ∀ u p, s'.unit u = some p ↔
    s.unit u = some p ∧ ¬ FinishedStore trace cc s u p ∧ winner ≠ some (u, p)
  reservINT : ∀ j p, s'.reservINT j = some p ↔ s.reservINT j = some p ∧
    (∀ u, ¬ FinishedStore trace cc s u p) ∧ ∀ i, winner ≠ some (.int i, p)
  reservFP : ∀ j p, s'.reservFP j = some p ↔
    s.reservFP j = some p ∧ ∀ i, winner ≠ some (.fp i, p)

theorem executeToCDB_eq (s : State) :
    executeToCDB trace cc s = match (scan trace cc s).2.found with
      | none => (scan trace cc s).1
      | some station => broadcast cc (scan trace cc s).1 station := rfl

/-- The occupant of a slot goes on the bus and leaves the slot and the
    stations that feed it. -/
theorem broadcast_eq {u : FuSlot} {p : Nat} (hu : s.unit u = some p) :
    broadcast cc s u = { (s.dropFor u p).setUnit u none with
      tomCdbCycle := Function.update s.tomCdbCycle p cc, commonDataBus := some p } := by
  unfold broadcast
  rw [hu]

theorem broadcast_frame {u : FuSlot} {p : Nat} (hu : s.unit u = some p) :
    broadcast cc s u = { s with
      reservINT := (broadcast cc s u).reservINT, reservFP := (broadcast cc s u).reservFP
      fuINT := (broadcast cc s u).fuINT, fuFP := (broadcast cc s u).fuFP
      commonDataBus := some p, tomCdbCycle := Function.update s.tomCdbCycle p cc } := by
  rw [broadcast_eq hu]
  rcases u with i | i <;> rfl

theorem broadcast_unit {u : FuSlot} {p : Nat} (hu : s.unit u = some p) (v : FuSlot) :
    (broadcast cc s u).unit v = if v = u then none else s.unit v := by
  have hdrop : (s.dropFor u p).unit v = s.unit v := by
    rcases u with i | i <;> rcases v with j | j <;> rfl
  rw [broadcast_eq hu, ← hdrop, ← unit_setUnit]
  rcases v with j | j <;> rfl

theorem broadcast_reservINT {u : FuSlot} {p : Nat} (hu : s.unit u = some p)
    (j : Fin RESERV_INT_SIZE) (q : Nat) :
    (broadcast cc s u).reservINT j = some q ↔
      s.reservINT j = some q ∧ ∀ i, some (u, p) ≠ some (.int i, q) := by
  rw [broadcast_eq hu]
  rcases u with i | i
  · rw [show ({ (s.dropFor (.int i) p).setUnit (.int i) none with
      tomCdbCycle := Function.update s.tomCdbCycle p cc
      commonDataBus := some p } : State).reservINT = Slots.drop p s.reservINT from rfl,
      Slots.drop_eq_some]
    simp only [ne_eq, Option.some.injEq, Prod.mk.injEq, FuSlot.int.injEq, not_and]
    refine and_congr_right fun _ => ?_
    exact ⟨fun h j _ hpq => h hpq.symm, fun h hqp => h i rfl hqp.symm⟩
  · simp only [ne_eq, Option.some.injEq, Prod.mk.injEq, reduceCtorEq, false_and,
      not_false_eq_true, implies_true, and_true]
    rfl

theorem broadcast_reservFP {u : FuSlot} {p : Nat} (hu : s.unit u = some p)
    (j : Fin RESERV_FP_SIZE) (q : Nat) :
    (broadcast cc s u).reservFP j = some q ↔
      s.reservFP j = some q ∧ ∀ i, some (u, p) ≠ some (.fp i, q) := by
  rw [broadcast_eq hu]
  rcases u with i | i
  · simp only [ne_eq, Option.some.injEq, Prod.mk.injEq, reduceCtorEq, false_and,
      not_false_eq_true, implies_true, and_true]
    rfl
  · rw [show ({ (s.dropFor (.fp i) p).setUnit (.fp i) none with
      tomCdbCycle := Function.update s.tomCdbCycle p cc, commonDataBus := some p } : State).reservFP
      = Slots.drop p s.reservFP from rfl, Slots.drop_eq_some]
    simp only [ne_eq, Option.some.injEq, Prod.mk.injEq, FuSlot.fp.injEq, not_and]
    refine and_congr_right fun _ => ?_
    exact ⟨fun h j _ hpq => h hpq.symm, fun h hqp => h i rfl hqp.symm⟩

/-- When no writer is finished, only stores leave. -/
theorem scanned_idle {acc : State × Slots.Oldest FuSlot}
    (h : Scanned trace cc s (fun _ => True) acc) (hf : acc.2.found = none) :
    CDBEffect trace cc s acc.1 none where
  frame := by rw [h.frame]
  oldest u p hw := absurd hw (by simp only [reduceCtorEq, not_false_eq_true])
  idle _ u p hw := Slots.Oldest.found_eq_none h.oldest hf u p ⟨trivial, hw⟩
  bus := by
    rw [h.frame]
    rfl
  stamp p := by
    rw [h.frame]
    rfl
  unit u p := by
    rw [h.unit, true_and]
    simp only [ne_eq, reduceCtorEq, not_false_eq_true, and_true]
  reservINT j p := by
    rw [h.reservINT]
    simp only [true_and, ne_eq, reduceCtorEq, not_false_eq_true, implies_true, and_true]
  reservFP j p := by
    rw [h.frame]
    simp only [ne_eq, reduceCtorEq, not_false_eq_true, implies_true, and_true]

/-- When a writer is found, it is the oldest one, and it leaves for the bus. -/
theorem scanned_broadcast {acc : State × Slots.Oldest FuSlot} {u : FuSlot}
    (h : Scanned trace cc s (fun _ => True) acc) (hf : acc.2.found = some u) :
    ∃ p, CDBEffect trace cc s (broadcast cc acc.1 u) (some (u, p)) := by
  rcases Slots.Oldest.found_eq_some h.oldest u hf with ⟨p, ⟨-, hwin⟩, hmin⟩
  -- The winner writes the bus, so the scan has not removed it.
  have hnostore : ¬ FinishedStore trace cc s u p := by
    intro hcase
    rcases hcase with ⟨-, -, hint, hw⟩
    rw [hwin.2.2 hint] at hw
    exact absurd hw (by simp only [reduceCtorEq, not_false_eq_true])
  have hup : acc.1.unit u = some p := by
    rw [h.unit, true_and]
    exact ⟨hwin.1, hnostore⟩
  refine ⟨p, ?_, ?_, ?_, ?_, ?_, ?_, ?_, ?_⟩
  · rw [broadcast_frame hup, h.frame]
  · intro v q hv
    simp only [Option.some.injEq, Prod.mk.injEq] at hv
    rw [← hv.1, ← hv.2]
    exact ⟨hwin, fun w x hx => hmin w x ⟨trivial, hx⟩⟩
  · intro hv
    exact absurd hv (by simp only [reduceCtorEq, not_false_eq_true])
  · rw [broadcast_frame hup]
    rfl
  · intro q
    rw [broadcast_frame hup, h.frame]
    simp only [Option.map_some, Option.some.injEq, Function.update_apply]
    by_cases hqp : q = p
    · rw [if_pos hqp, if_pos hqp.symm]
    · rw [if_neg hqp, if_neg fun hpq => hqp hpq.symm]
  · intro v q
    rw [broadcast_unit hup]
    by_cases hvu : v = u
    · rw [if_pos hvu, hvu]
      refine ⟨fun hq => absurd hq (by simp only [reduceCtorEq, not_false_eq_true]), ?_⟩
      intro hcase
      rcases hcase with ⟨hq, -, hne⟩
      rw [hwin.1, Option.some.injEq] at hq
      rw [hq] at hne
      exact absurd rfl hne
    · rw [if_neg hvu, h.unit, true_and]
      refine and_congr_right fun _ => (and_iff_left ?_).symm
      rintro huq
      simp only [Option.some.injEq, Prod.mk.injEq] at huq
      exact hvu huq.1.symm
  · intro j q
    rw [broadcast_reservINT hup, h.reservINT, and_assoc]
    simp only [true_and]
  · intro j q
    rw [broadcast_reservFP hup, h.frame]

theorem executeToCDB_effect (trace : Trace) (cc : Nat) (s : State) :
    ∃ winner, CDBEffect trace cc s (executeToCDB trace cc s) winner := by
  have hscan := scan_scanned trace cc s
  rw [executeToCDB_eq]
  rcases hf : (scan trace cc s).2.found with _ | u
  · exact ⟨none, scanned_idle hscan hf⟩
  · rcases scanned_broadcast hscan hf with ⟨p, hp⟩
    exact ⟨some (u, p), hp⟩

/-! ### Entering a station -/

/-- The head of the queue has been put in a free station of its class. -/
def Entered (trace : Trace) (head : Nat) (s t : State) : Prop :=
  (usesIntFU (trace.instr head).op = true ∧ ∃ i, s.reservINT i = none ∧
    t = { s with reservINT := Function.update s.reservINT i (some head) }) ∨
  (usesIntFU (trace.instr head).op = false ∧ usesFPFU (trace.instr head).op = true ∧
    ∃ i, s.reservFP i = none ∧
      t = { s with reservFP := Function.update s.reservFP i (some head) })

/-- Every station of the instruction's class is occupied. -/
def StationsFull (trace : Trace) (head : Nat) (s : State) : Prop :=
  (usesIntFU (trace.instr head).op = true ∧ ∀ i, s.reservINT i ≠ none) ∨
  (usesIntFU (trace.instr head).op = false ∧ usesFPFU (trace.instr head).op = true ∧
    ∀ i, s.reservFP i ≠ none)

/-- The ways `dispatchToIssue` can go. -/
inductive DispatchEffect (trace : Trace) (cc : Nat) (s : State) : State → Prop
  | empty (hq : s.instrQueue 0 = none) : DispatchEffect trace cc s s
  | full (head : Nat) (hq : s.instrQueue 0 = some head) (hfull : StationsFull trace head s) :
      DispatchEffect trace cc s s
  | enter (head : Nat) (t : State) (hq : s.instrQueue 0 = some head)
      (ht : Entered trace head s t) :
      DispatchEffect trace cc s (shiftQueue (rename trace cc head t))
  | evict (head : Nat) (hq : s.instrQueue 0 = some head)
      (hint : usesIntFU (trace.instr head).op = false)
      (hfp : usesFPFU (trace.instr head).op = false) :
      DispatchEffect trace cc s (shiftQueue s)

theorem dispatchToIssue_effect (trace : Trace) (cc : Nat) (s : State) :
    DispatchEffect trace cc s (dispatchToIssue trace cc s) := by
  unfold dispatchToIssue
  rcases hq : s.instrQueue 0 with _ | head
  · exact .empty hq
  · simp only
    -- The tests in the order of the source: class first, then a free station.
    by_cases hint : usesIntFU (trace.instr head).op = true
    · rw [if_pos hint]
      rcases hi : Slots.firstFree s.reservINT with _ | i
      · exact .full head hq (Or.inl ⟨hint, (Slots.firstFree_eq_none _).mp hi⟩)
      · exact .enter head _ hq (Or.inl ⟨hint, i, Slots.firstFree_eq_some _ _ hi, rfl⟩)
    · rw [if_neg hint]
      rw [Bool.not_eq_true] at hint
      by_cases hfp : usesFPFU (trace.instr head).op = true
      · rw [if_pos hfp]
        rcases hi : Slots.firstFree s.reservFP with _ | i
        · exact .full head hq (Or.inr ⟨hint, hfp, (Slots.firstFree_eq_none _).mp hi⟩)
        · exact .enter head _ hq (Or.inr ⟨hint, hfp, i, Slots.firstFree_eq_some _ _ hi, rfl⟩)
      · rw [if_neg hfp]
        exact .evict head hq hint (by simpa only [Bool.not_eq_true] using hfp)

theorem dispatchToIssue_full {head : Nat} (hq : s.instrQueue 0 = some head)
    (hfull : StationsFull trace head s) : dispatchToIssue trace cc s = s := by
  unfold dispatchToIssue
  rw [hq]
  simp only
  rcases hfull with ⟨hint, hocc⟩ | ⟨hint, hfp, hocc⟩
  · rw [if_pos hint, (Slots.firstFree_eq_none _).mpr hocc]
  · rw [if_neg (by rw [hint]; exact Bool.false_ne_true), if_pos hfp,
      (Slots.firstFree_eq_none _).mpr hocc]

/-- Only the instruction that enters is added to the stations. -/
theorem entered_held {head : Nat} {t : State} (ht : Entered trace head s t) (q : Nat) :
    t.Held q ↔ s.Held q ∨ q = head := by
  unfold State.Held
  -- The station it enters was empty, so no one is overwritten.
  rcases ht with ⟨-, i, hi, rfl⟩ | ⟨-, -, i, hi, rfl⟩
  · simp only [Slots.holds_update _ _ _ _ hi]
    exact or_right_comm
  · simp only [Slots.holds_update _ _ _ _ hi]
    exact or_assoc.symm

theorem entered_frame {head : Nat} {t : State} (ht : Entered trace head s t) :
    t = { s with reservINT := t.reservINT, reservFP := t.reservFP } := by
  rcases ht with ⟨-, i, -, rfl⟩ | ⟨-, -, i, -, rfl⟩ <;> rfl

/-- Capturing producers touches neither stations, units nor queue. -/
theorem rename_frame (head : Nat) (s : State) :
    rename trace cc head s = { s with
      tomIssueCycle := (rename trace cc head s).tomIssueCycle
      Q := (rename trace cc head s).Q, mapTable := (rename trace cc head s).mapTable } := rfl

theorem shiftQueue_frame (s : State) :
    shiftQueue s = { s with
      instrQueue := (shiftQueue s).instrQueue, instrQueueSize := s.instrQueueSize - 1 } := rfl

/-! ### Fetching -/

/-- The ways `fetchToDispatch` can go. -/
inductive FetchEffect (trace : Trace) (cc : Nat) (s : State) : State → Prop
  | idle (h : s.instrQueueSize = INSTR_QUEUE_SIZE ∨ s.dontFetch = true) :
      FetchEffect trace cc s s
  | trap (hsize : s.instrQueueSize ≠ INSTR_QUEUE_SIZE) (hfetch : s.dontFetch = false)
      (htrap : isTrap (trace.instr s.fetchIndex).op = true) :
      FetchEffect trace cc s { s with
        fetchIndex := s.fetchIndex + 1
        tomDispatchCycle := Function.update s.tomDispatchCycle s.fetchIndex cc }
  | queue (hsize : s.instrQueueSize ≠ INSTR_QUEUE_SIZE) (hfetch : s.dontFetch = false)
      (htrap : isTrap (trace.instr s.fetchIndex).op = false) :
      FetchEffect trace cc s { appendQueue s s.fetchIndex with
        fetchIndex := s.fetchIndex + 1
        tomDispatchCycle := Function.update s.tomDispatchCycle s.fetchIndex cc }

theorem fetchToDispatch_effect (trace : Trace) (cc : Nat) (s : State) :
    FetchEffect trace cc s (fetchToDispatch trace cc s) := by
  unfold fetchToDispatch
  by_cases hsize : s.instrQueueSize = INSTR_QUEUE_SIZE
  · rw [if_neg (fun h => h.1 hsize)]
    exact .idle (Or.inl hsize)
  · by_cases hfetch : s.dontFetch = false
    · rw [if_pos ⟨hsize, hfetch⟩]
      simp only [getInstr]
      -- Both kinds of entry move the fetch position; only one is queued.
      by_cases htrap : isTrap (trace.instr s.fetchIndex).op = true
      · simp only [htrap, if_true]
        exact .trap hsize hfetch htrap
      · simp only [htrap]
        exact .queue hsize hfetch (by simpa only [Bool.not_eq_true] using htrap)
    · rw [if_neg (fun h => hfetch h.2)]
      exact .idle (Or.inr (by simpa only [Bool.not_eq_false] using hfetch))

/-- Fetching touches the queue, the fetch position and one stamp. -/
theorem FetchEffect.frame (h : FetchEffect trace cc s s') :
    s' = { s with
      instrQueue := s'.instrQueue, instrQueueSize := s'.instrQueueSize
      fetchIndex := s'.fetchIndex, tomDispatchCycle := s'.tomDispatchCycle } := by
  cases h <;> rfl

end Tomasulo

end MicroArch
