import Mathlib.Data.Finset.Option
import MicroArch.Tomasulo.Renaming

/-!
# Arbitration for the Bus and the Units

The two stages in which instructions compete, compared with what they are
for. `executeToCDB` gives the bus to the oldest finished writer;
`issueToExecute` gives the free units of a class to the oldest instructions
that can start.

For the bus the comparison is an equation. The scans, the removal of stores
inside one of them and the final removal of the winner amount to one update
of the state, in which the instructions that leave are taken out of the
units and out of the stations of their class, and the winner is written to
the bus.

For the units the comparison fails where an instruction that was started is
still found by the next scan. Two free integer units take the same
instruction, and a free unit takes an instruction that executes in the other
one. `startsOldest_iff` says that these are the only ways it fails.

## Main definitions

* `Arbitrable`: The units hold different instructions, each in its station.
* `WinsBus`: The winner of the bus is the oldest finished writer.
* `arbitrated`: The state in which the bus has been given away.
* `FuClass`: The two classes of stations and units.
* `StartsOldest`: The oldest waiting instructions start, one in each unit.
* `SingleStart`: No scan meets an instruction that has started.

## Theorems

* `executeToCDB_arbitrates`: Taking the bus is one update of the state.
* `startsOldest_iff`: When the free units take the oldest instructions.
* `singleStart_FP`: The floating-point class always does.
* `both_units_take_one`: A state in which the integer class does not.
-/

namespace MicroArch

namespace Tomasulo

variable {trace : Trace} {cc simInsn : Nat} {s s' : State}

/-! ### The bus -/

/-- The unit executes instructions of this kind. -/
def FuSlot.Serves (trace : Trace) : FuSlot → Nat → Prop
  | .int _, p => usesIntFU (trace.instr p).op = true
  | .fp _, p => usesFPFU (trace.instr p).op = true

/-- The units hold different instructions, each of them also in a station of
    its class, and the bus is free. -/
structure Arbitrable (trace : Trace) (s : State) : Prop where
  distinct : ∀ u v p, s.unit u = some p → s.unit v = some p → u = v
  serves : ∀ u p, s.unit u = some p → u.Serves trace p
  held : ∀ u p, s.unit u = some p → s.HeldFor u p
  bus : s.commonDataBus = none

/-- The instruction has been in its unit for the unit's latency. -/
def Done (cc : Nat) (s : State) (p : Nat) : Prop :=
  ∃ u, s.unit u = some p ∧ cc ≥ s.tomExecuteCycle p + u.latency

instance (cc : Nat) (s : State) (p : Nat) : Decidable (Done cc s p) :=
  inferInstanceAs (Decidable (∃ _, _))

/-- The winner of the bus is the oldest of the finished instructions that
    write it. -/
def WinsBus (trace : Trace) (cc : Nat) (s : State) : Option Nat → Prop
  | none => ∀ p, Done cc s p → writesCDB (trace.instr p).op = false
  | some p => (Done cc s p ∧ writesCDB (trace.instr p).op = true) ∧
      ∀ q, Done cc s q → writesCDB (trace.instr q).op = true → q ≠ p → trace.age p < trace.age q

/-- The instruction leaves: a finished one that does not write the bus, or
    the winner. -/
def Departs (trace : Trace) (cc : Nat) (s : State) (winner : Option Nat) (p : Nat) : Prop :=
  (Done cc s p ∧ writesCDB (trace.instr p).op = false) ∨ winner = some p

instance (trace : Trace) (cc : Nat) (s : State) (winner : Option Nat) (p : Nat) :
    Decidable (Departs trace cc s winner p) := inferInstanceAs (Decidable (_ ∨ _))

/-- The state after the bus was given to the winner: whoever leaves is gone
    from its unit and from the stations that feed it, and everything else is
    as it was. -/
def arbitrated (trace : Trace) (cc : Nat) (s : State) (winner : Option Nat) : State :=
  { s with
    fuINT := fun i => (s.fuINT i).filter fun p => ¬ Departs trace cc s winner p
    fuFP := fun i => (s.fuFP i).filter fun p => ¬ Departs trace cc s winner p
    reservINT := fun j => (s.reservINT j).filter fun p =>
      ¬ (Slots.Holds s.fuINT p ∧ Departs trace cc s winner p)
    reservFP := fun j => (s.reservFP j).filter fun p =>
      ¬ (Slots.Holds s.fuFP p ∧ Departs trace cc s winner p)
    commonDataBus := winner
    tomCdbCycle := fun p => if winner = some p then cc else s.tomCdbCycle p }

/-- Instructions with an operation are numbered apart. -/
theorem eq_of_age_eq {p q : Nat} (hp : (trace.instr p).op ≠ 0) (hq : (trace.instr q).op ≠ 0)
    (h : trace.age p = trace.age q) : p = q := by
  rcases Nat.lt_trichotomy p q with hlt | rfl | hlt
  · exact absurd h (ne_of_lt (instr_index_lt trace p q hlt hq))
  · rfl
  · exact absurd h (ne_of_gt (instr_index_lt trace q p hlt hp))

theorem op_ne_zero_of_writesCDB {p : Nat} (h : writesCDB (trace.instr p).op = true) :
    (trace.instr p).op ≠ 0 := by
  intro hop
  rw [hop] at h
  revert h
  decide

/-- Whatever executes in the floating-point unit writes the bus. -/
theorem FuSlot.Serves.writesCDB_fp {i : Fin FU_FP_SIZE} {p : Nat}
    (h : (FuSlot.fp i).Serves trace p) : writesCDB (trace.instr p).op = true := by
  have hfp : isFComp (trace.instr p).op = true := h
  rw [writesCDB, hfp, Bool.or_true]

theorem finishedWriter_iff (h : Arbitrable trace s) {u : FuSlot} {p : Nat} :
    FinishedWriter trace cc s u p ↔
      (s.unit u = some p ∧ s.finished cc u p = true) ∧ writesCDB (trace.instr p).op = true := by
  rw [FinishedWriter, and_assoc]
  refine and_congr_right fun hp => and_congr_right fun _ => ?_
  rcases u with i | i
  · exact ⟨fun hw => hw ⟨i, rfl⟩, fun hw _ => hw⟩
  · exact ⟨fun _ => (h.serves _ _ hp).writesCDB_fp, fun hw _ => hw⟩

theorem finishedStore_iff (h : Arbitrable trace s) {u : FuSlot} {p : Nat} :
    FinishedStore trace cc s u p ↔
      (s.unit u = some p ∧ s.finished cc u p = true) ∧ writesCDB (trace.instr p).op = false := by
  rw [FinishedStore, and_assoc]
  refine and_congr_right fun hp => and_congr_right fun _ => ?_
  rcases u with i | i
  · exact ⟨fun hw => hw.2, fun hw => ⟨⟨i, rfl⟩, hw⟩⟩
  · refine ⟨fun hw => hw.2, fun hw => ?_⟩
    rw [(h.serves _ _ hp).writesCDB_fp] at hw
    exact absurd hw (by simp only [reduceCtorEq, not_false_eq_true])

theorem done_iff {p : Nat} :
    Done cc s p ↔ ∃ u, s.unit u = some p ∧ s.finished cc u p = true := by
  simp only [Done, State.finished, decide_eq_true_eq]

/-- The winner the scans find is the winner of the bus. -/
theorem CDBEffect.winsBus {winner : Option (FuSlot × Nat)}
    (e : CDBEffect trace cc s s' winner) (h : Arbitrable trace s) :
    WinsBus trace cc s (winner.map Prod.snd) := by
  rcases hw : winner with _ | ⟨u, p⟩
  · -- Nobody has won, so no finished instruction writes the bus.
    intro p hp
    rcases done_iff.mp hp with ⟨u, hu⟩
    by_contra hwrites
    exact e.idle hw u p ((finishedWriter_iff h).mpr ⟨hu, Bool.of_not_eq_false hwrites⟩)
  · rcases e.oldest u p hw with ⟨hwin, hmin⟩
    rw [finishedWriter_iff h] at hwin
    refine ⟨⟨done_iff.mpr ⟨u, hwin.1⟩, hwin.2⟩, fun q hq hwrites hne => ?_⟩
    rcases done_iff.mp hq with ⟨v, hv⟩
    have hle := hmin v q ((finishedWriter_iff h).mpr ⟨hv, hwrites⟩)
    -- Two of the same age are one instruction, as those that write the bus are entries.
    refine lt_of_le_of_ne hle fun heq => hne ?_
    exact (eq_of_age_eq (op_ne_zero_of_writesCDB hwin.2) (op_ne_zero_of_writesCDB hwrites)
      heq).symm

/-- Who leaves from a slot: its finished store, or the winner if it is there. -/
theorem CDBEffect.departs_iff {winner : Option (FuSlot × Nat)}
    (e : CDBEffect trace cc s s' winner) (h : Arbitrable trace s) {u : FuSlot} {p : Nat}
    (hp : s.unit u = some p) :
    Departs trace cc s (winner.map Prod.snd) p ↔
      FinishedStore trace cc s u p ∨ winner = some (u, p) := by
  rw [Departs, finishedStore_iff h, done_iff]
  refine or_congr (and_congr_left fun _ => ?_) ?_
  · refine ⟨fun hd => ?_, fun hd => ⟨u, hd⟩⟩
    rcases hd with ⟨v, hv, hfin⟩
    -- An instruction is in one slot, so the slot that finishes it is this one.
    rw [h.distinct u v p hp hv]
    exact ⟨hv, hfin⟩
  · rcases hw : winner with _ | ⟨v, q⟩
    · simp only [Option.map_none, reduceCtorEq]
    · simp only [Option.map_some, Option.some.injEq, Prod.mk.injEq]
      refine ⟨fun hq => ?_, fun hq => hq.2⟩
      subst hq
      exact ⟨h.distinct v u q (e.oldest v q hw).1.1 hp, rfl⟩

theorem eq_filter {P : Nat → Prop} [DecidablePred P] {o o' : Option Nat}
    (h : ∀ p, o' = some p ↔ o = some p ∧ P p) : o' = o.filter fun p => P p := by
  ext p
  rw [h, Option.filter_eq_some_iff, decide_eq_true_eq]

/-- `executeToCDB` gives the bus to the oldest finished writer and touches
    nothing but what leaves. -/
theorem executeToCDB_arbitrates (trace : Trace) (cc : Nat) (s : State) (h : Arbitrable trace s) :
    ∃ winner, WinsBus trace cc s winner ∧
      executeToCDB trace cc s = arbitrated trace cc s winner := by
  rcases executeToCDB_effect trace cc s with ⟨winner, e⟩
  refine ⟨winner.map Prod.snd, e.winsBus h, ?_⟩
  have hunit : ∀ u, (executeToCDB trace cc s).unit u =
      (s.unit u).filter fun p => ¬ Departs trace cc s (winner.map Prod.snd) p := by
    refine fun u => eq_filter fun p => ?_
    rw [e.unit, ← not_or]
    refine and_congr_right fun hp => ?_
    rw [e.departs_iff h hp]
  -- A station loses an instruction when the slot that holds it does.
  have hINT : ∀ j, (executeToCDB trace cc s).reservINT j = (s.reservINT j).filter fun p =>
      ¬ (Slots.Holds s.fuINT p ∧ Departs trace cc s (winner.map Prod.snd) p) := by
    refine fun j => eq_filter fun p => ?_
    rw [e.reservINT]
    refine and_congr_right fun _ => ?_
    constructor
    · rintro ⟨hstore, hwin⟩ ⟨⟨i, hi⟩, hdep⟩
      rcases (e.departs_iff h (u := .int i) hi).mp hdep with hs | hw
      · exact hstore _ hs
      · exact hwin i hw
    · refine fun hstay => ⟨fun u hs => hstay ?_, fun i hw => hstay ?_⟩
      · have hdep := (e.departs_iff h hs.1).mpr (Or.inl hs)
        rcases hs with ⟨hp, -, ⟨i, rfl⟩, -⟩
        exact ⟨⟨i, hp⟩, hdep⟩
      · have hp := (e.oldest _ p hw).1.1
        exact ⟨⟨i, hp⟩, (e.departs_iff h hp).mpr (Or.inr hw)⟩
  have hFP : ∀ j, (executeToCDB trace cc s).reservFP j = (s.reservFP j).filter fun p =>
      ¬ (Slots.Holds s.fuFP p ∧ Departs trace cc s (winner.map Prod.snd) p) := by
    refine fun j => eq_filter fun p => ?_
    rw [e.reservFP]
    refine and_congr_right fun _ => ?_
    constructor
    · rintro hwin ⟨⟨i, hi⟩, hdep⟩
      rcases (e.departs_iff h (u := .fp i) hi).mp hdep with ⟨-, -, ⟨j, hj⟩, -⟩ | hw
      -- no store executes in a floating-point slot
      · exact absurd hj (by simp only [reduceCtorEq, not_false_eq_true])
      · exact hwin i hw
    · refine fun hstay i hw => hstay ?_
      have hp := (e.oldest _ p hw).1.1
      exact ⟨⟨i, hp⟩, (e.departs_iff h hp).mpr (Or.inr hw)⟩
  rw [e.frame]
  simp only [arbitrated, State.mk.injEq, true_and]
  refine ⟨funext hINT, funext hFP, funext fun i => hunit (.int i), funext fun i => hunit (.fp i),
    ?_, funext e.stamp⟩
  rw [e.bus, h.bus, Option.or_none]

/-- A store, a floating-point and an integer addition. -/
def contenders : Trace := simMain [SW 4 29, FADD_S 34 36 38, ADD 2 3 3]

/-- The state in which all three execute, the store and the integer addition
    in the two integer units. -/
def threeExecute : State :=
  { State.initial with
    reservINT := fun j => if j = 0 then some 1 else if j = 1 then some 3 else none
    reservFP := fun j => if j = 0 then some 2 else none
    fuINT := fun i => if i = 0 then some 1 else some 3
    fuFP := fun _ => some 2
    tomExecuteCycle := fun p => if p = 1 then 5 else if p = 2 then 3 else 6 }

theorem threeExecute_unit {u : FuSlot} {p : Nat} (h : threeExecute.unit u = some p) :
    (u = .int 0 ∧ p = 1) ∨ (u = .int 1 ∧ p = 3) ∨ (u = .fp 0 ∧ p = 2) := by
  rcases u with i | i
  · match i with
    | 0 => exact Or.inl ⟨rfl, (Option.some.inj h).symm⟩
    | 1 => exact Or.inr (Or.inl ⟨rfl, (Option.some.inj h).symm⟩)
  · match i with
    | 0 => exact Or.inr (Or.inr ⟨rfl, (Option.some.inj h).symm⟩)

/-- In cycle twelve all three are finished. The floating-point addition is the
    older one of those that write the bus, so it gets the bus; the store
    leaves with it, and the integer addition stays. -/
theorem executeToCDB_arbitrates_contenders :
    WinsBus contenders 12 threeExecute (some 2) ∧
      executeToCDB contenders 12 threeExecute
        = arbitrated contenders 12 threeExecute (some 2) := by
  have harb : Arbitrable contenders threeExecute := by
    refine ⟨fun u v p hu hv => ?_, fun u p hu => ?_, fun u p hu => ?_, rfl⟩
    · rcases threeExecute_unit hu with ⟨rfl, rfl⟩ | ⟨rfl, rfl⟩ | ⟨rfl, rfl⟩ <;>
        rcases threeExecute_unit hv with ⟨rfl, hp⟩ | ⟨rfl, hp⟩ | ⟨rfl, hp⟩ <;>
        first | rfl | exact absurd hp (by decide)
    · rcases threeExecute_unit hu with ⟨rfl, rfl⟩ | ⟨rfl, rfl⟩ | ⟨rfl, rfl⟩
      · exact (by decide : usesIntFU (contenders.instr 1).op = true)
      · exact (by decide : usesIntFU (contenders.instr 3).op = true)
      · exact (by decide : usesFPFU (contenders.instr 2).op = true)
    · rcases threeExecute_unit hu with ⟨rfl, rfl⟩ | ⟨rfl, rfl⟩ | ⟨rfl, rfl⟩
      · exact ⟨0, rfl⟩
      · exact ⟨1, rfl⟩
      · exact ⟨0, rfl⟩
  have htwo : Done 12 threeExecute 2 := ⟨.fp 0, rfl, by decide⟩
  rcases executeToCDB_arbitrates contenders 12 threeExecute harb with ⟨winner, hwins, heq⟩
  have hwinner : winner = some 2 := by
    rcases winner with _ | p
    · exact absurd (hwins 2 htwo) (by decide)
    · rcases hwins with ⟨⟨⟨u, hu, -⟩, hwrites⟩, hmin⟩
      rcases threeExecute_unit hu with ⟨-, rfl⟩ | ⟨-, rfl⟩ | ⟨-, rfl⟩
      · -- the store does not write the bus
        exact absurd hwrites (by decide)
      · -- the integer addition is younger
        exact absurd (hmin 2 htwo (by decide) (by decide)) (by decide)
      · rfl
  rw [← hwinner]
  exact ⟨hwins, heq⟩

/-! ### The units -/

/-- The two classes of instructions, of stations and of units. -/
inductive FuClass where
  | INT
  | FP
  deriving DecidableEq

/-- The class of a slot. -/
def FuSlot.fuClass : FuSlot → FuClass
  | .int _ => .INT
  | .fp _ => .FP

/-- The instructions in the stations of a class. -/
def State.stations (s : State) : FuClass → Finset Nat
  | .INT => Finset.univ.biUnion fun j => (s.reservINT j).toFinset
  | .FP => Finset.univ.biUnion fun j => (s.reservFP j).toFinset

/-- The slots of a class that hold nothing. -/
def State.freeSlots (s : State) (c : FuClass) : Finset FuSlot :=
  Finset.univ.filter fun u => u.fuClass = c ∧ s.unit u = none

/-- The instructions of a class whose operands have arrived. -/
def State.readyIn (s : State) (c : FuClass) : Finset Nat := (s.stations c).filter fun p => s.ready p

/-- Those of them that no unit executes yet. -/
def State.waiting (s : State) (c : FuClass) : Finset Nat :=
  (s.readyIn c).filter fun p => ∀ u, s.unit u ≠ some p

/-- The instructions in `started` are the oldest that wait for the class, as
    many as can start; each starts in one slot that was free, the other free
    slots stay free, and whatever executes stays untouched. -/
structure Starts (trace : Trace) (cc : Nat) (s : State) (c : FuClass) (started : Finset Nat) :
    Prop where
  waiting : started ⊆ s.waiting c
  card : started.card = min (s.freeSlots c).card (s.waiting c).card
  oldest : ∀ p ∈ started, ∀ q ∈ s.waiting c, q ∉ started → trace.age p < trace.age q
  placed : ∀ p ∈ started, ∃! u, u ∈ s.freeSlots c ∧ (issueToExecute trace cc s).unit u = some p
  filled : ∀ u ∈ s.freeSlots c, ∀ p, (issueToExecute trace cc s).unit u = some p → p ∈ started
  kept : ∀ u p, u.fuClass = c → s.unit u = some p → (issueToExecute trace cc s).unit u = some p ∧
    (issueToExecute trace cc s).tomExecuteCycle p = s.tomExecuteCycle p

/-- The free units of a class take the oldest instructions that wait. -/
def StartsOldest (trace : Trace) (cc : Nat) (s : State) (c : FuClass) : Prop :=
  ∃ started, Starts trace cc s c started

/-- The oldest ready instruction of the class is not in a unit yet. -/
def OldestWaits (trace : Trace) (s : State) (c : FuClass) : Prop :=
  ∃ p ∈ s.waiting c, ∀ q ∈ s.readyIn c, trace.age p ≤ trace.age q

/-- No scan meets an instruction that has started: there is nothing to scan
    for, or one free slot and an oldest instruction that waits. -/
def SingleStart (trace : Trace) (s : State) (c : FuClass) : Prop :=
  s.freeSlots c = ∅ ∨ s.readyIn c = ∅ ∨
    ((s.freeSlots c).card = 1 ∧ OldestWaits trace s c)

theorem mem_stations {u : FuSlot} {p : Nat} : p ∈ s.stations u.fuClass ↔ s.HeldFor u p := by
  rcases u with i | i <;>
    simp only [FuSlot.fuClass, State.stations, Finset.mem_biUnion, Finset.mem_univ, true_and,
      Option.mem_toFinset, Option.mem_def] <;> rfl

theorem mem_readyIn {u : FuSlot} {p : Nat} :
    p ∈ s.readyIn u.fuClass ↔ s.HeldFor u p ∧ s.ready p = true := by
  rw [State.readyIn, Finset.mem_filter, mem_stations]

theorem mem_waiting {c : FuClass} {p : Nat} :
    p ∈ s.waiting c ↔ p ∈ s.readyIn c ∧ ∀ u, s.unit u ≠ some p := Finset.mem_filter

theorem mem_freeSlots {c : FuClass} {u : FuSlot} :
    u ∈ s.freeSlots c ↔ u.fuClass = c ∧ s.unit u = none := by
  rw [State.freeSlots, Finset.mem_filter]
  exact and_iff_right (Finset.mem_univ u)

/-- The candidate of a slot is the oldest ready instruction of its class. -/
theorem candidate_eq_some {u : FuSlot} {p : Nat} (h : s.candidate trace u = some p) :
    p ∈ s.readyIn u.fuClass ∧ ∀ q ∈ s.readyIn u.fuClass, trace.age p ≤ trace.age q := by
  rcases u with i | i
  · rcases oldestReady_eq_some _ p h with ⟨hheld, hready, hmin⟩
    refine ⟨mem_readyIn.mpr ⟨hheld, hready⟩, fun q hq => ?_⟩
    rcases mem_readyIn.mp hq with ⟨hq, hr⟩
    exact hmin q hq hr
  · rcases oldestReady_eq_some _ p h with ⟨hheld, hready, hmin⟩
    refine ⟨mem_readyIn.mpr ⟨hheld, hready⟩, fun q hq => ?_⟩
    rcases mem_readyIn.mp hq with ⟨hq, hr⟩
    exact hmin q hq hr

theorem candidate_eq_none_iff {u : FuSlot} :
    s.candidate trace u = none ↔ s.readyIn u.fuClass = ∅ := by
  constructor
  · intro h
    refine Finset.eq_empty_of_forall_notMem fun p hp => ?_
    rcases mem_readyIn.mp hp with ⟨hheld, hready⟩
    have hnot : s.ready p = false := by
      rcases u with i | i
      · exact oldestReady_eq_none _ h p hheld
      · exact oldestReady_eq_none _ h p hheld
    rw [hnot] at hready
    exact absurd hready (by simp only [reduceCtorEq, not_false_eq_true])
  · -- A scan that ends empty has found no ready station.
    intro h
    rcases hc : s.candidate trace u with _ | p
    · rfl
    · have hp := (candidate_eq_some hc).1
      rw [h] at hp
      exact absurd hp (Finset.notMem_empty p)

/-- The slots of a class have one candidate. -/
theorem candidate_congr {u v : FuSlot} (h : u.fuClass = v.fuClass) :
    s.candidate trace u = s.candidate trace v := by
  rcases u with i | i <;> rcases v with j | j
  · rfl
  · exact absurd h (by simp only [FuSlot.fuClass, reduceCtorEq, not_false_eq_true])
  · exact absurd h (by simp only [FuSlot.fuClass, reduceCtorEq, not_false_eq_true])
  · rfl

theorem issueToExecute_free {c : FuClass} {u : FuSlot} (hu : u ∈ s.freeSlots c) :
    (issueToExecute trace cc s).unit u = s.candidate trace u := by
  rw [issueToExecute_unit, (mem_freeSlots.mp hu).2, Option.none_or]

/-- All free slots of a class take the same instruction, so it lands in one
    slot only when there is one. -/
theorem StartsOldest.singleStart {c : FuClass} (h : StartsOldest trace cc s c) :
    SingleStart trace s c := by
  rcases h with ⟨started, h⟩
  by_cases hfree : s.freeSlots c = ∅
  · exact Or.inl hfree
  · -- Two free slots would have taken the same instruction, which lands in one only.
    by_cases hready : s.readyIn c = ∅
    · exact Or.inr (Or.inl hready)
    · rcases Finset.nonempty_of_ne_empty hfree with ⟨u, hu⟩
      have hclass := (mem_freeSlots.mp hu).1
      rcases hc : s.candidate trace u with _ | p
      · rw [candidate_eq_none_iff, hclass] at hc
        exact absurd hc hready
      · have hstarted := h.filled u hu p ((issueToExecute_free hu).trans hc)
        rcases h.placed p hstarted with ⟨w, -, huniq⟩
        have hall : ∀ v ∈ s.freeSlots c, v = w := by
          intro v hv
          refine huniq v ⟨hv, ?_⟩
          rw [issueToExecute_free hv, ← hc]
          exact candidate_congr ((mem_freeSlots.mp hv).1.trans hclass.symm)
        refine Or.inr (Or.inr ⟨?_, p, h.waiting hstarted, ?_⟩)
        · refine Finset.card_eq_one.mpr ⟨w, ?_⟩
          refine Finset.eq_singleton_iff_unique_mem.mpr ⟨?_, hall⟩
          rw [← hall u hu]
          exact hu
        · rw [← hclass]
          exact (candidate_eq_some hc).2

/-- Units and stations of different classes hold different instructions. -/
theorem Occupancy.sameClass (h : Occupancy trace s) {u v : FuSlot} {p : Nat}
    (hp : s.unit u = some p) (hheld : s.HeldFor v p) : u.fuClass = v.fuClass := by
  rcases u with i | i <;> rcases v with j | j
  · rfl
  · exact absurd (h.reservFP p hheld).1 (not_fpClass_of_intClass (h.fuINT i p hp).1)
  · exact absurd (h.reservFP p (h.fuFP i p hp)).1
      (not_fpClass_of_intClass (h.reservINT p hheld).1)
  · rfl

theorem held_of_mem_readyIn {c : FuClass} {p : Nat} (hp : p ∈ s.readyIn c) : s.Held p := by
  rcases c with _ | _
  · exact Or.inl (mem_readyIn (u := .int 0).mp hp).1
  · exact Or.inr (mem_readyIn (u := .fp 0).mp hp).1

/-- What executes is not touched when the free slots take instructions that
    do not execute. -/
theorem Occupancy.kept (h : Occupancy trace s) {c : FuClass}
    (hnew : ∀ v ∈ s.freeSlots c, ∀ p, s.candidate trace v = some p → ∀ u, s.unit u ≠ some p)
    {u : FuSlot} {p : Nat} (hu : u.fuClass = c) (hp : s.unit u = some p) :
    (issueToExecute trace cc s).unit u = some p ∧
      (issueToExecute trace cc s).tomExecuteCycle p = s.tomExecuteCycle p := by
  refine ⟨by rw [issueToExecute_unit, hp, Option.some_or], ?_⟩
  rw [issueToExecute_tomExecuteCycle, if_neg]
  rintro ⟨v, hv, hc⟩
  have hclass := h.sameClass hp (candidate_facts hc).1
  exact hnew v (mem_freeSlots.mpr ⟨hclass.symm.trans hu, hv⟩) p hc u hp

/-- Without a free slot or a ready instruction nothing starts. -/
theorem Occupancy.starts_nothing (h : Occupancy trace s) {c : FuClass}
    (hnone : s.freeSlots c = ∅ ∨ s.readyIn c = ∅) : Starts trace cc s c ∅ := by
  have hidle : ∀ u ∈ s.freeSlots c, s.candidate trace u = none := by
    intro u hu
    -- Either nothing waits or nothing is free, so no slot takes anything.
    rcases hnone with hfree | hready
    · rw [hfree] at hu
      exact absurd hu (Finset.notMem_empty u)
    · rw [candidate_eq_none_iff, (mem_freeSlots.mp hu).1]
      exact hready
  refine ⟨Finset.empty_subset _, ?_, fun p hp => absurd hp (Finset.notMem_empty p),
    fun p hp => absurd hp (Finset.notMem_empty p), fun u hu p hp => ?_, fun u p => ?_⟩
  · rcases hnone with hfree | hready
    · simp only [hfree, Finset.card_empty, Nat.zero_min]
    · simp only [State.waiting, hready, Finset.filter_empty, Finset.card_empty, Nat.min_zero]
  · rw [issueToExecute_free hu, hidle u hu] at hp
    exact absurd hp (by simp only [reduceCtorEq, not_false_eq_true])
  · refine h.kept fun v hv q hq => ?_
    rw [hidle v hv] at hq
    exact absurd hq (by simp only [reduceCtorEq, not_false_eq_true])

/-- One free slot takes the oldest ready instruction. -/
theorem Occupancy.starts_oldest (h : Occupancy trace s) {c : FuClass} {p : Nat}
    (hone : (s.freeSlots c).card = 1) (hp : p ∈ s.waiting c)
    (hmin : ∀ q ∈ s.readyIn c, trace.age p ≤ trace.age q) : Starts trace cc s c {p} := by
  rcases Finset.card_eq_one.mp hone with ⟨u, hfree⟩
  rcases mem_waiting.mp hp with ⟨hready, hidle⟩
  have hu : u ∈ s.freeSlots c := by
    rw [hfree]
    exact Finset.mem_singleton_self u
  have hop : ∀ q ∈ s.readyIn c, (trace.instr q).op ≠ 0 :=
    fun q hq => op_ne_zero_of_inStation (h.held (held_of_mem_readyIn hq)).1
  have hlt : ∀ q ∈ s.readyIn c, q ≠ p → trace.age p < trace.age q :=
    fun q hq hne => lt_of_le_of_ne (hmin q hq) fun heq =>
      hne (eq_of_age_eq (hop q hq) (hop p hready) heq.symm)
  -- The scan for this slot finds it, since all others are younger.
  have hcand : s.candidate trace u = some p := by
    rcases hc : s.candidate trace u with _ | q
    · rw [candidate_eq_none_iff, (mem_freeSlots.mp hu).1] at hc
      rw [hc] at hready
      exact absurd hready (Finset.notMem_empty p)
    · rcases candidate_eq_some hc with ⟨hq, hle⟩
      rw [(mem_freeSlots.mp hu).1] at hq hle
      by_contra hne
      exact absurd (hle p hready) (not_le_of_gt (hlt q hq fun heq => hne (congrArg some heq)))
  refine ⟨Finset.singleton_subset_iff.mpr hp, ?_, ?_, ?_, fun v hv q hq => ?_, fun v q => ?_⟩
  · have hpos := Finset.card_pos.mpr ⟨p, hp⟩
    rw [Finset.card_singleton, hone]
    omega
  · intro p' hp' q hq hnot
    rw [Finset.mem_singleton.mp hp'] at *
    exact hlt q (mem_waiting.mp hq).1 fun heq => hnot (Finset.mem_singleton.mpr heq)
  · intro p' hp'
    rw [Finset.mem_singleton.mp hp', hfree]
    refine ⟨u, ⟨Finset.mem_singleton_self u, (issueToExecute_free hu).trans hcand⟩, fun v hv => ?_⟩
    exact Finset.mem_singleton.mp hv.1
  · have hvu : v = u := Finset.mem_singleton.mp (hfree ▸ hv)
    rw [hvu, issueToExecute_free hu, hcand, Option.some.injEq] at hq
    exact Finset.mem_singleton.mpr hq.symm
  · -- The stamp of an occupant changes only if it starts again.
    refine h.kept fun w hw q' hq' => ?_
    have hwu : w = u := Finset.mem_singleton.mp (hfree ▸ hw)
    rw [hwu, hcand, Option.some.injEq] at hq'
    rw [← hq']
    exact hidle

theorem SingleStart.startsOldest {c : FuClass} (hocc : Occupancy trace s)
    (h : SingleStart trace s c) : StartsOldest trace cc s c := by
  rcases h with hfree | hready | ⟨hone, p, hp, hmin⟩
  · exact ⟨∅, hocc.starts_nothing (Or.inl hfree)⟩
  · exact ⟨∅, hocc.starts_nothing (Or.inr hready)⟩
  · exact ⟨{p}, hocc.starts_oldest hone hp hmin⟩

/-- In every state of a run, the free units of a class take the oldest
    instructions that wait, as many as there are, exactly when no scan meets
    an instruction that has started. -/
theorem startsOldest_iff (trace : Trace) (simInsn n : Nat) (c : FuClass) :
    StartsOldest trace (runTomasulo trace simInsn n).cycle (runTomasulo trace simInsn n).state c ↔
      SingleStart trace (runTomasulo trace simInsn n).state c :=
  ⟨fun h => h.singleStart, fun h => h.startsOldest (occupancy_runTomasulo trace simInsn n)⟩

/-- With one slot the class never scans twice, and what is in the slot is the
    only instruction of the class that executes. -/
theorem singleStart_FP (trace : Trace) (simInsn n : Nat) :
    SingleStart trace (runTomasulo trace simInsn n).state .FP := by
  have hocc := occupancy_runTomasulo trace simInsn n
  generalize (runTomasulo trace simInsn n).state = s at hocc
  have hslot : ∀ u : FuSlot, u.fuClass = .FP → u = .fp 0 := by
    intro u hu
    rcases u with i | i
    · exact absurd hu (by simp only [FuSlot.fuClass, reduceCtorEq, not_false_eq_true])
    · rw [Subsingleton.elim i 0]
  rcases hu : s.unit (.fp 0) with _ | q
  · rcases hc : s.candidate trace (.fp 0) with _ | p
    · exact Or.inr (Or.inl (candidate_eq_none_iff.mp hc))
    · rcases candidate_eq_some hc with ⟨hp, hmin⟩
      refine Or.inr (Or.inr ⟨?_, p, mem_waiting.mpr ⟨hp, fun v hv => ?_⟩, hmin⟩)
      · refine Finset.card_eq_one.mpr ⟨.fp 0, ?_⟩
        refine Finset.eq_singleton_iff_unique_mem.mpr ⟨mem_freeSlots.mpr ⟨rfl, hu⟩, ?_⟩
        exact fun v hv => hslot v (mem_freeSlots.mp hv).1
      · -- an instruction of a floating-point station executes nowhere else
        have hclass := hocc.sameClass hv (candidate_facts hc).1
        rw [hslot v hclass, hu] at hv
        exact absurd hv (by simp only [reduceCtorEq, not_false_eq_true])
  · refine Or.inl (Finset.eq_empty_of_forall_notMem fun v hv => ?_)
    rcases mem_freeSlots.mp hv with ⟨hclass, hfree⟩
    rw [hslot v hclass, hu] at hfree
    exact absurd hfree (by simp only [reduceCtorEq, not_false_eq_true])

/-- Two additions, the second of which waits for the first: when the first is
    ready both integer units are free, and both take it. -/
theorem both_units_take_one :
    (runTomasulo chain 3 14).stage = .issueToExecute ∧
      ¬ StartsOldest chain (runTomasulo chain 3 14).cycle (runTomasulo chain 3 14).state .INT := by
  refine ⟨by decide +kernel, fun h => ?_⟩
  rcases h.singleStart with hfree | hready | ⟨hone, -⟩
  · exact absurd hfree (by decide +kernel)
  · exact absurd hready (by decide +kernel)
  · exact absurd hone (by decide +kernel)

end Tomasulo

end MicroArch
