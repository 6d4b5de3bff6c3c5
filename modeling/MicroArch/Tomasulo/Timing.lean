import MicroArch.Tomasulo.Renaming

/-!
# The Recorded Cycles

The four cycle stamps of an instruction, written by four stages that run in
reverse order inside a cycle.

`Timing` is the invariant. What a stage has to know is that the stamps of its
kind are all in the past, so the invariant carries one clock per stage that
writes: every stamp lies strictly below the clock of its stage, and the clock
moves on when the stage has run. `issueToExecute` needs no clock, since an
instruction may be stamped by it again; what is kept instead is that the
stamp is later than the one of dispatch while the instruction is in a unit,
and that it is final once the instruction has left its station.

An instruction can be put on the bus a second time from the other integer
unit. The second stamp replaces the first; it is later, so every inequality
survives, and it is the current cycle, so it differs from all others.

## Main definitions

* `Trace.latency`: The latency of an instruction's class.
* `Timing`: The stamps are ordered and lie below their clocks.
* `ConsistentTable`: The table of stamps that is printed is consistent.

## Theorems

* `timing_execute`, `timing_issue`, `timing_fetch`, `timing_dispatch`: The
  stages that write a stamp preserve the invariant.
* `timing_runTomasulo`: It holds in every configuration of a run.
* `consistent_when_returned`: The table is consistent when the loop ends.
-/

namespace MicroArch

namespace Tomasulo

variable {trace : Trace} {cc simInsn : Nat} {s s' : State} {winner : Option (FuSlot × Nat)}

/-- The latency of the units an instruction executes in. -/
def Trace.latency (trace : Trace) (p : Nat) : Nat :=
  if usesIntFU (trace.instr p).op then FU_INT_LATENCY else FU_FP_LATENCY

/-- The stamps are ordered, and those of a stage lie below its clock. -/
structure Timing (trace : Trace) (fetchClock issueClock cdbClock : Nat) (s : State) : Prop where
  fetched : ∀ p, p < s.fetchIndex → s.tomDispatchCycle p < fetchClock
  fetch_order : ∀ p q, p < q → q < s.fetchIndex → s.tomDispatchCycle p < s.tomDispatchCycle q
  dispatched : ∀ p, trace.InStation p → p < s.front →
    s.tomDispatchCycle p ≤ s.tomIssueCycle p ∧ s.tomIssueCycle p < issueClock
  dispatch_order : ∀ p q, trace.InStation p → trace.InStation q → p < q → q < s.front →
    s.tomIssueCycle p < s.tomIssueCycle q
  executing : ∀ u p, s.unit u = some p → s.tomIssueCycle p < s.tomExecuteCycle p
  left : ∀ p, trace.InStation p → p < s.front → ¬ s.Held p →
    s.tomIssueCycle p < s.tomExecuteCycle p
  sent : ∀ p, trace.InStation p → p < s.front → ¬ s.Held p →
    writesCDB (trace.instr p).op = true →
    s.tomExecuteCycle p + trace.latency p ≤ s.tomCdbCycle p ∧ s.tomCdbCycle p < cdbClock
  sent_apart : ∀ p q, trace.InStation p → trace.InStation q → p < s.front → q < s.front →
    ¬ s.Held p → ¬ s.Held q → writesCDB (trace.instr p).op = true →
    writesCDB (trace.instr q).op = true → p ≠ q → s.tomCdbCycle p ≠ s.tomCdbCycle q

theorem timing_initial (trace : Trace) (f i b : Nat) : Timing trace f i b State.initial where
  fetched p h := absurd h (Nat.not_lt_zero p)
  fetch_order p q _ h := absurd h (Nat.not_lt_zero q)
  dispatched p _ h := absurd h (Nat.not_lt_zero p)
  dispatch_order p q _ _ _ h := absurd h (Nat.not_lt_zero q)
  executing u p h := by
    rcases u with i | i
    · exact absurd h (by simp only [State.unit, State.initial, reduceCtorEq, not_false_eq_true])
    · exact absurd h (by simp only [State.unit, State.initial, reduceCtorEq, not_false_eq_true])
  left p _ h := absurd h (Nat.not_lt_zero p)
  sent p _ h := absurd h (Nat.not_lt_zero p)
  sent_apart p _ _ _ h := absurd h (Nat.not_lt_zero p)

/-- A unit's occupant executes with the latency of its class. -/
theorem latency_unit (ho : Occupancy trace s) {u : FuSlot} {p : Nat} (hp : s.unit u = some p) :
    u.latency = trace.latency p := by
  unfold FuSlot.latency Trace.latency
  rcases u with i | i
  · rw [if_pos (ho.fuINT i p hp).1.2]
  · have hfp := (ho.reservFP p (ho.fuFP i p hp)).1
    rw [hfp.2.1]
    rfl

/-- The stamps of execution and broadcast stay consistent when no one has
    left a station since and the stamps of those dispatched are the same.
    What has to be shown again is only the reading and the dispatch. -/
theorem Timing.of_front {f f' i i' b : Nat} (h : Timing trace f i b s)
    (hunit : ∀ u, s'.unit u = s.unit u) (hdispatched : ∀ u p, s.unit u = some p → p < s.front)
    (hgone : ∀ p, trace.InStation p → p < s'.front → ¬ s'.Held p → p < s.front ∧ ¬ s.Held p)
    (hi : ∀ p, p < s.front → s'.tomIssueCycle p = s.tomIssueCycle p)
    (he : s'.tomExecuteCycle = s.tomExecuteCycle) (hc : s'.tomCdbCycle = s.tomCdbCycle)
    (hfetch : ∀ p, p < s'.fetchIndex → s'.tomDispatchCycle p < f')
    (hfetch_order : ∀ p q, p < q → q < s'.fetchIndex →
      s'.tomDispatchCycle p < s'.tomDispatchCycle q)
    (hissue : ∀ p, trace.InStation p → p < s'.front →
      s'.tomDispatchCycle p ≤ s'.tomIssueCycle p ∧ s'.tomIssueCycle p < i')
    (hissue_order : ∀ p q, trace.InStation p → trace.InStation q → p < q → q < s'.front →
      s'.tomIssueCycle p < s'.tomIssueCycle q) :
    Timing trace f' i' b s' where
  fetched := hfetch
  fetch_order := hfetch_order
  dispatched := hissue
  dispatch_order := hissue_order
  -- Whoever executes was dispatched before, so its stamps are the old ones.
  executing u p hp := by
    rw [hunit] at hp
    rw [hi p (hdispatched u p hp), he]
    exact h.executing u p hp
  left p hin hlt hp := by
    rcases hgone p hin hlt hp with ⟨hlt, hp⟩
    rw [hi p hlt, he]
    exact h.left p hin hlt hp
  sent p hin hlt hp hw := by
    -- Likewise for whoever has left: no one has left since.
    rcases hgone p hin hlt hp with ⟨hlt, hp⟩
    rw [he, hc]
    exact h.sent p hin hlt hp hw
  sent_apart p q hpin hqin hplt hqlt hp hq := by
    rcases hgone p hpin hplt hp with ⟨hplt, hp⟩
    rcases hgone q hqin hqlt hq with ⟨hqlt, hq⟩
    rw [hc]
    exact h.sent_apart p q hpin hqin hplt hqlt hp hq

/-- The stamps of reading and of dispatch stay consistent in a stage that does
    not write them. What has to be shown again is the execution and the
    broadcast. -/
theorem Timing.of_rear {f i b b' : Nat} (h : Timing trace f i b s)
    (hfetch : s'.fetchIndex = s.fetchIndex) (hfront : s'.front = s.front)
    (hd : s'.tomDispatchCycle = s.tomDispatchCycle) (hi : s'.tomIssueCycle = s.tomIssueCycle)
    (hexecuting : ∀ u p, s'.unit u = some p → s.tomIssueCycle p < s'.tomExecuteCycle p)
    (hleft : ∀ p, trace.InStation p → p < s.front → ¬ s'.Held p →
      s.tomIssueCycle p < s'.tomExecuteCycle p)
    (hsent : ∀ p, trace.InStation p → p < s.front → ¬ s'.Held p →
      writesCDB (trace.instr p).op = true →
      s'.tomExecuteCycle p + trace.latency p ≤ s'.tomCdbCycle p ∧ s'.tomCdbCycle p < b')
    (hsent_apart : ∀ p q, trace.InStation p → trace.InStation q → p < s.front → q < s.front →
      ¬ s'.Held p → ¬ s'.Held q → writesCDB (trace.instr p).op = true →
      writesCDB (trace.instr q).op = true → p ≠ q → s'.tomCdbCycle p ≠ s'.tomCdbCycle q) :
    Timing trace f i b' s' where
  fetched := by
    rw [hfetch, hd]
    exact h.fetched
  fetch_order := by
    rw [hfetch, hd]
    exact h.fetch_order
  dispatched := by
    rw [hfront, hd, hi]
    exact h.dispatched
  dispatch_order := by
    rw [hfront, hi]
    exact h.dispatch_order
  executing := by
    rw [hi]
    exact hexecuting
  left := by
    rw [hfront, hi]
    exact hleft
  sent := by
    rw [hfront]
    exact hsent
  sent_apart := by
    rw [hfront]
    exact hsent_apart

/-- A stage that writes no stamp. -/
theorem Timing.congr {f i b : Nat} (h : Timing trace f i b s)
    (hfetch : s'.fetchIndex = s.fetchIndex) (hfront : s'.front = s.front)
    (hheld : ∀ p, s'.Held p ↔ s.Held p) (hunit : ∀ u, s'.unit u = s.unit u)
    (hd : s'.tomDispatchCycle = s.tomDispatchCycle) (hi : s'.tomIssueCycle = s.tomIssueCycle)
    (he : s'.tomExecuteCycle = s.tomExecuteCycle) (hc : s'.tomCdbCycle = s.tomCdbCycle) :
    Timing trace f i b s' := by
  refine h.of_rear hfetch hfront hd hi (fun u p hp => ?_) ?_ ?_ ?_
  · rw [hunit] at hp
    rw [he]
    exact h.executing u p hp
  · simp only [hheld, he]
    exact h.left
  · simp only [hheld, he, hc]
    exact h.sent
  · simp only [hheld, hc]
    exact h.sent_apart

theorem timing_retire {f i b : Nat} (h : Timing trace f i b s) :
    Timing trace f i b (cdbToRetire s) := by
  have hf := cdbToRetire_frame s
  refine h.congr ?_ ?_ (cdbToRetire_held s) (cdbToRetire_unit s) ?_ ?_ ?_ ?_ <;> rw [hf]
  rfl

/-- Whoever has left a station when `executeToCDB` is done had left it
    before, or leaves now. -/
theorem CDBEffect.gone (e : CDBEffect trace cc s s' winner) (ho : Occupancy trace s) {p : Nat}
    (hp : ¬ s'.Held p) : ¬ s.Held p ∨ Leaves trace cc s winner p := by
  by_cases hheld : s.Held p
  · right
    by_contra hl
    exact hp ((e.held ho p).mpr ⟨hheld, hl⟩)
  · exact Or.inl hheld

/-- A writer that leaves now is the one that takes the bus. -/
theorem CDBEffect.gone_writer (e : CDBEffect trace cc s s' winner) (ho : Occupancy trace s)
    {p : Nat} (hp : ¬ s'.Held p) (hw : writesCDB (trace.instr p).op = true) :
    ¬ s.Held p ∨ winner.map Prod.snd = some p := by
  rcases e.gone ho hp with hold | ⟨u, hst⟩ | ⟨u, hwin⟩
  · exact Or.inl hold
  · -- A finished store does not write the bus.
    rw [hst.2.2.2] at hw
    exact absurd hw Bool.false_ne_true
  · right
    rw [hwin, Option.map_some]

/-- Whoever takes the bus has been in its unit for its latency. -/
theorem CDBEffect.winner_finished (e : CDBEffect trace cc s s' winner) (ho : Occupancy trace s)
    {p : Nat} (hp : winner.map Prod.snd = some p) :
    s.tomExecuteCycle p + trace.latency p ≤ cc := by
  rcases Option.map_eq_some_iff.mp hp with ⟨⟨u, q⟩, hw, hq⟩
  rcases e.oldest u q hw with ⟨hfw, -⟩
  have hfin := of_decide_eq_true hfw.2.1
  rw [latency_unit ho hfw.1] at hfin
  rw [← hq]
  exact hfin

/-- A writer that has left its station either takes the bus now, or was
    broadcast in the past. -/
theorem sent_before {f i : Nat} (e : CDBEffect trace cc s s' winner) (ho : Occupancy trace s)
    (h : Timing trace f i cc s) {p : Nat} (hin : trace.InStation p) (hlt : p < s.front)
    (hp : ¬ s'.Held p) (hw : writesCDB (trace.instr p).op = true)
    (hnow : winner.map Prod.snd ≠ some p) : ¬ s.Held p ∧ s.tomCdbCycle p < cc := by
  rcases e.gone_writer ho hp hw with hold | hwin
  · exact ⟨hold, (h.sent p hin hlt hold hw).2⟩
  · exact absurd hwin hnow

/-- The stamp of the bus is the current cycle, and those given before lie in
    the past. -/
theorem timing_execute {f i : Nat} (e : CDBEffect trace cc s s' winner)
    (ho : Occupancy trace s) (h : Timing trace f i cc s) : Timing trace f i (cc + 1) s' := by
  have he : s'.tomExecuteCycle = s.tomExecuteCycle := by rw [e.frame]
  refine h.of_rear (by rw [e.frame]) e.front (by rw [e.frame]) (by rw [e.frame])
    (fun u p hp => ?_) (fun p hin hlt hp => ?_) (fun p hin hlt hp hw => ?_)
    fun p q hpin hqin hplt hqlt hp hq hpw hqw hne => ?_
  · rw [he]
    exact h.executing u p ((e.unit u p).mp hp).1
  · rw [he]
    rcases e.gone ho hp with hold | hl
    · exact h.left p hin hlt hold
    · -- Whoever leaves now was in a unit until now.
      rcases e.leaves_unit hl with ⟨u, hu, -⟩
      exact h.executing u p hu
  · rw [he, e.stamp]
    by_cases hnow : winner.map Prod.snd = some p
    · rw [if_pos hnow]
      exact ⟨e.winner_finished ho hnow, Nat.lt_succ_self cc⟩
    · rw [if_neg hnow]
      have hold := (sent_before e ho h hin hlt hp hw hnow).1
      have hs := h.sent p hin hlt hold hw
      exact ⟨hs.1, by omega⟩
  · rw [e.stamp, e.stamp]
    -- At most one of the two takes the bus, and the other one's stamp is in the past.
    by_cases hpn : winner.map Prod.snd = some p
    · have hqn : winner.map Prod.snd ≠ some q := by
        intro hqn
        rw [hpn, Option.some.injEq] at hqn
        exact hne hqn
      rw [if_pos hpn, if_neg hqn]
      have hlt := (sent_before e ho h hqin hqlt hq hqw hqn).2
      omega
    · rw [if_neg hpn]
      rcases sent_before e ho h hpin hplt hp hpw hpn with ⟨hpold, hlt⟩
      by_cases hqn : winner.map Prod.snd = some q
      · rw [if_pos hqn]
        omega
      · rw [if_neg hqn]
        have hqold := (sent_before e ho h hqin hqlt hq hqw hqn).1
        exact h.sent_apart p q hpin hqin hplt hqlt hpold hqold hpw hqw hne

/-- Whoever is placed in a unit is still in its station, and was dispatched
    in an earlier cycle. -/
theorem timing_issue {f b : Nat} (ho : Occupancy trace s) (h : Timing trace f cc b s) :
    Timing trace f cc b (issueToExecute trace cc s) := by
  have hfront : (issueToExecute trace cc s).front = s.front := by
    rw [issueToExecute_frame]
    rfl
  have hc : (issueToExecute trace cc s).tomCdbCycle = s.tomCdbCycle := by
    rw [issueToExecute_frame]
  have hcand : ∀ u p, s.candidate trace u = some p → s.Held p ∧ s.tomIssueCycle p < cc := by
    intro u p hp
    have hheld := held_of_heldFor (candidate_facts hp).1
    rcases ho.held hheld with ⟨hin, hlt⟩
    exact ⟨hheld, (h.dispatched p hin hlt).2⟩
  -- Whoever has left its station is no candidate, so its stamp is final.
  have hkeep : ∀ p, ¬ s.Held p →
      (issueToExecute trace cc s).tomExecuteCycle p = s.tomExecuteCycle p := by
    intro p hp
    rw [issueToExecute_tomExecuteCycle, if_neg]
    intro hcase
    rcases hcase with ⟨u, -, hu⟩
    exact hp (hcand u p hu).1
  refine h.of_rear (by rw [issueToExecute_frame]) hfront (by rw [issueToExecute_frame])
    (by rw [issueToExecute_frame]) (fun u p hp => ?_) (fun p hin hlt hp => ?_)
    (fun p hin hlt hp hw => ?_) ?_
  · rw [issueToExecute_unit, Option.or_eq_some_iff] at hp
    rw [issueToExecute_tomExecuteCycle]
    by_cases hnow : ∃ v, s.unit v = none ∧ s.candidate trace v = some p
    · rw [if_pos hnow]
      rcases hnow with ⟨v, -, hv⟩
      exact (hcand v p hv).2
    · rw [if_neg hnow]
      rcases hp with hp | ⟨hfree, hp⟩
      · exact h.executing u p hp
      · exact absurd ⟨u, hfree, hp⟩ hnow
  · rw [issueToExecute_held] at hp
    rw [hkeep p hp]
    exact h.left p hin hlt hp
  · rw [issueToExecute_held] at hp
    rw [hc, hkeep p hp]
    exact h.sent p hin hlt hp hw
  · rw [hc]
    simp only [issueToExecute_held]
    exact h.sent_apart

/-- The stamps of the entries read before are kept. -/
theorem FetchEffect.old_stamp (heff : FetchEffect trace cc s s') {p : Nat}
    (hp : p < s.fetchIndex) : s'.tomDispatchCycle p = s.tomDispatchCycle p := by
  cases heff with
  | idle => rfl
  | trap => exact Function.update_of_ne (by omega) _ _
  | queue => exact Function.update_of_ne (by omega) _ _

/-- An entry that has been read was read before, or is stamped now. -/
theorem FetchEffect.new_stamp (heff : FetchEffect trace cc s s') {p : Nat}
    (hp : p < s'.fetchIndex) :
    p < s.fetchIndex ∨ (p = s.fetchIndex ∧ s'.tomDispatchCycle p = cc) := by
  -- Nothing is read when the queue is full or the trace has ended.
  cases heff with
  | idle => exact Or.inl hp
  | trap =>
      -- A trap is stamped too, before the next entry is looked at.
      rcases Nat.lt_succ_iff_lt_or_eq.mp hp with hlt | rfl
      · exact Or.inl hlt
      · exact Or.inr ⟨rfl, Function.update_self _ _ _⟩
  | queue =>
      rcases Nat.lt_succ_iff_lt_or_eq.mp hp with hlt | rfl
      · exact Or.inl hlt
      · exact Or.inr ⟨rfl, Function.update_self _ _ _⟩

/-- The entry that is read gets the current cycle, later than all before. -/
theorem timing_fetch {i b : Nat} (heff : FetchEffect trace cc s s') (ho : Occupancy trace s)
    (h : Timing trace cc i b s) : Timing trace (cc + 1) i b s' := by
  have hfront : ∀ p, trace.InStation p → (p < s'.front ↔ p < s.front) :=
    fun p hp => fetch_front ho.queue heff hp.1
  have hunit : ∀ u, s'.unit u = s.unit u := by
    intro u
    rw [heff.frame]
    rcases u <;> rfl
  have hheld : ∀ p, s'.Held p ↔ s.Held p := by
    intro p
    rw [heff.frame]
    rfl
  have hi : s'.tomIssueCycle = s.tomIssueCycle := by rw [heff.frame]
  have he : s'.tomExecuteCycle = s.tomExecuteCycle := by rw [heff.frame]
  have hc : s'.tomCdbCycle = s.tomCdbCycle := by rw [heff.frame]
  refine h.of_front hunit (fun u p hp => (ho.unit hp).2) (fun p hin hlt hp => ?_)
    (fun p _ => by rw [hi]) he hc (fun p hp => ?_) (fun p q hpq hq => ?_) (fun p hin hlt => ?_)
    (fun p q hpin hqin hpq hlt => ?_)
  · rw [hfront p hin] at hlt
    rw [hheld] at hp
    exact ⟨hlt, hp⟩
  · rcases heff.new_stamp hp with hlt | ⟨-, hcc⟩
    · rw [heff.old_stamp hlt]
      have hpast := h.fetched p hlt
      omega
    · omega
  · -- The later of the two may be the new entry, the earlier one cannot.
    rcases heff.new_stamp hq with hlt | ⟨hqi, hcc⟩
    · rw [heff.old_stamp hlt, heff.old_stamp (by omega)]
      exact h.fetch_order p q hpq hlt
    · rw [hcc, heff.old_stamp (by omega)]
      exact h.fetched p (by omega)
  · rw [hfront p hin] at hlt
    have hle := front_le_fetchIndex ho.queue
    rw [heff.old_stamp (by omega), hi]
    exact h.dispatched p hin hlt
  · rw [hfront q hqin] at hlt
    rw [hi]
    exact h.dispatch_order p q hpin hqin hpq hlt

/-- The head enters with the current cycle, later than all before it and not
    before it was read. -/
theorem timing_enter {b head : Nat} {t : State} (ho : Occupancy trace s)
    (hq : s.instrQueue 0 = some head) (ht : Entered trace head s t)
    (h : Timing trace (cc + 1) cc b s) :
    Timing trace (cc + 1) (cc + 1) b (shiftQueue (rename trace cc head t)) := by
  rcases head_facts ho.queue hq with ⟨hhead, hfetched, -⟩
  have hcap := captured_enter cc ho hq ht
  have hframe := entered_frame ht
  have hfront : ∀ p, trace.InStation p →
      (p < (shiftQueue (rename trace cc head t)).front ↔ p < s.front ∨ p = head) := by
    intro p hp
    refine dispatch_front ho.queue hq ?_ ?_ ?_ hp.1 <;> rw [rename_frame, hframe]
  have hf : (shiftQueue (rename trace cc head t)).fetchIndex = s.fetchIndex := by
    rw [shiftQueue_frame, rename_frame, hframe]
  have hd : (shiftQueue (rename trace cc head t)).tomDispatchCycle = s.tomDispatchCycle := by
    rw [shiftQueue_frame, rename_frame, hframe]
  have he : (shiftQueue (rename trace cc head t)).tomExecuteCycle = s.tomExecuteCycle := by
    rw [shiftQueue_frame, rename_frame, hframe]
  have hc : (shiftQueue (rename trace cc head t)).tomCdbCycle = s.tomCdbCycle := by
    rw [shiftQueue_frame, rename_frame, hframe]
  have hunit : ∀ u, (shiftQueue (rename trace cc head t)).unit u = s.unit u := by
    intro u
    rw [shiftQueue_frame, rename_frame, hframe]
    rcases u <;> rfl
  have hti : t.tomIssueCycle = s.tomIssueCycle := by rw [hframe]
  have hi : (shiftQueue (rename trace cc head t)).tomIssueCycle
      = Function.update s.tomIssueCycle head cc := by
    rw [← hti]
    rfl
  have hself : (shiftQueue (rename trace cc head t)).tomIssueCycle head = cc := by
    rw [hi, Function.update_self]
  have hold : ∀ p, p < s.front →
      (shiftQueue (rename trace cc head t)).tomIssueCycle p = s.tomIssueCycle p := by
    intro p hp
    rw [hi, Function.update_of_ne (by omega)]
  -- Whoever has left a station is not the head, which is in one now.
  have hgone : ∀ p, trace.InStation p → p < (shiftQueue (rename trace cc head t)).front →
      ¬ (shiftQueue (rename trace cc head t)).Held p → p < s.front ∧ ¬ s.Held p := by
    intro p hin hlt hp
    rw [hcap.held, not_or] at hp
    rcases (hfront p hin).mp hlt with hlt | heq
    · exact ⟨hlt, hp.1⟩
    · exact absurd heq hp.2
  refine h.of_front hunit (fun u p hp => (ho.unit hp).2) hgone hold he hc ?_ ?_
    (fun p hin hlt => ?_) (fun p q hpin hqin hpq hlt => ?_)
  · rw [hf, hd]
    exact h.fetched
  · rw [hf, hd]
    exact h.fetch_order
  · rw [hd]
    rcases (hfront p hin).mp hlt with hlt | rfl
    · rw [hold p hlt]
      have hpast := h.dispatched p hin hlt
      omega
    · -- The head was read before the current cycle ends.
      rw [hself]
      have hpast := h.fetched p hfetched
      omega
  · rcases (hfront q hqin).mp hlt with hlt | rfl
    · rw [hold q hlt, hold p (by omega)]
      exact h.dispatch_order p q hpin hqin hpq hlt
    · rw [hself, hold p (by omega)]
      exact (h.dispatched p hpin (by omega)).2

/-- The clock of a stage that stamped nothing may move on. -/
theorem Timing.mono {f f' i i' b b' : Nat} (h : Timing trace f i b s) (hf : f ≤ f') (hi : i ≤ i')
    (hb : b ≤ b') : Timing trace f' i' b' s where
  fetched p hp := Nat.lt_of_lt_of_le (h.fetched p hp) hf
  fetch_order := h.fetch_order
  dispatched p hin hp :=
    ⟨(h.dispatched p hin hp).1, Nat.lt_of_lt_of_le (h.dispatched p hin hp).2 hi⟩
  dispatch_order := h.dispatch_order
  executing := h.executing
  left := h.left
  sent p hin hlt hp hw :=
    ⟨(h.sent p hin hlt hp hw).1, Nat.lt_of_lt_of_le (h.sent p hin hlt hp hw).2 hb⟩
  sent_apart := h.sent_apart

/-- Evicting the head moves the front past an instruction without a station. -/
theorem timing_evict {f i b head : Nat} (ho : Occupancy trace s)
    (hq : s.instrQueue 0 = some head) (hint : usesIntFU (trace.instr head).op = false)
    (hfp : usesFPFU (trace.instr head).op = false) (h : Timing trace f i b s) :
    Timing trace f i b (shiftQueue s) := by
  have hfront : ∀ p, trace.InStation p → p < (shiftQueue s).front → p < s.front := by
    intro p hin hlt
    rcases (dispatch_front ho.queue hq rfl rfl rfl hin.1).mp hlt with hlt | rfl
    · exact hlt
    · exact absurd hin.2 (by rw [hint, hfp]; decide)
  exact ⟨h.fetched, h.fetch_order, fun p hin hlt => h.dispatched p hin (hfront p hin hlt),
    fun p q hpin hqin hpq hlt => h.dispatch_order p q hpin hqin hpq (hfront q hqin hlt),
    h.executing, fun p hin hlt => h.left p hin (hfront p hin hlt),
    fun p hin hlt => h.sent p hin (hfront p hin hlt),
    fun p q hpin hqin hplt hqlt =>
      h.sent_apart p q hpin hqin (hfront p hpin hplt) (hfront q hqin hqlt)⟩

theorem timing_dispatch {b : Nat} (heff : DispatchEffect trace cc s s') (ho : Occupancy trace s)
    (h : Timing trace (cc + 1) cc b s) : Timing trace (cc + 1) (cc + 1) b s' := by
  have hlater := h.mono (Nat.le_refl _) (Nat.le_succ cc) (Nat.le_refl b)
  cases heff with
  | empty => exact hlater
  | full => exact hlater
  | enter head t hq ht => exact timing_enter ho hq ht h
  | evict head hq hint hfp => exact timing_evict ho hq hint hfp hlater

/-- The cycle that no entry has been read in yet: the next one between
    fetching and the end of the cycle. -/
def Config.fetchClock (c : Config) : Nat :=
  if c.stage = .dispatchToIssue then c.cycle + 1 else c.cycle

theorem timing_runTomasulo (trace : Trace) (simInsn n : Nat) :
    Timing trace (runTomasulo trace simInsn n).fetchClock (runTomasulo trace simInsn n).cycle
      (runTomasulo trace simInsn n).busClock (runTomasulo trace simInsn n).state := by
  induction n with
  | zero => exact timing_initial trace _ _ _
  | succ n ih =>
      have ho := occupancy_runTomasulo trace simInsn n
      rw [runTomasulo_succ]
      generalize runTomasulo trace simInsn n = c at ih ho
      unfold Config.fetchClock Config.busClock at ih ⊢
      unfold step
      cases hs : c.stage with
      | cdbToRetire =>
          simp only [hs, reduceCtorEq, if_false] at ih ⊢
          exact timing_retire ih
      | executeToCDB =>
          simp only [hs, reduceCtorEq, if_false] at ih ⊢
          rcases executeToCDB_effect trace c.cycle c.state with ⟨winner, e⟩
          exact timing_execute e ho ih
      | issueToExecute =>
          simp only [hs, reduceCtorEq, if_false] at ih ⊢
          exact timing_issue ho ih
      | fetchToDispatch =>
          simp only [hs, reduceCtorEq, if_false, if_true] at ih ⊢
          exact timing_fetch (fetchToDispatch_effect _ _ _) ho ih
      | dispatchToIssue =>
          simp only [hs, reduceCtorEq, if_false, if_true] at ih ⊢
          exact timing_dispatch (dispatchToIssue_effect _ _ _) ho ih
      | isSimulationDone =>
          have hf := isSimulationDone_frame simInsn c.state
          simp only [hs, reduceCtorEq, if_false] at ih ⊢
          have hnext : Timing trace c.cycle c.cycle c.cycle
              (isSimulationDone simInsn c.state).2 := by
            refine ih.congr ?_ ?_ (fun p => ?_) (fun u => ?_) ?_ ?_ ?_ ?_ <;> rw [hf]
            · rfl
            · rfl
            · rcases u <;> rfl
          by_cases hd : (isSimulationDone simInsn c.state).1 = true
          · simp only [hd, if_true, reduceCtorEq, if_false]
            exact hnext
          · simp only [hd, Bool.false_eq_true, if_false, reduceCtorEq]
            exact hnext
      | returned =>
          simp only [hs, reduceCtorEq, if_false] at ih ⊢
          exact ih

/-! ### The printed table -/

/-- The table of stamps, over the instructions that have gone through a
    station. -/
structure ConsistentTable (trace : Trace) (simInsn : Nat) (s : State) : Prop where
  dispatch_issue : ∀ p, Stationed trace simInsn p → s.tomDispatchCycle p ≤ s.tomIssueCycle p
  issue_execute : ∀ p, Stationed trace simInsn p → s.tomIssueCycle p < s.tomExecuteCycle p
  execute_cdb : ∀ p, Stationed trace simInsn p → writesCDB (trace.instr p).op = true →
    s.tomExecuteCycle p + trace.latency p ≤ s.tomCdbCycle p
  program_order : ∀ p q, Stationed trace simInsn p → Stationed trace simInsn q → p < q →
    s.tomDispatchCycle p < s.tomDispatchCycle q ∧ s.tomIssueCycle p < s.tomIssueCycle q
  cdb_apart : ∀ p q, Stationed trace simInsn p → Stationed trace simInsn q →
    writesCDB (trace.instr p).op = true → writesCDB (trace.instr q).op = true → p ≠ q →
    s.tomCdbCycle p ≠ s.tomCdbCycle q

/-- The front does not move back. -/
theorem lt_front_mono {p m n : Nat} (hp : trace.InStation p) (hmn : m ≤ n)
    (hlt : p < (runTomasulo trace simInsn m).state.front) :
    p < (runTomasulo trace simInsn n).state.front := by
  induction n, hmn using Nat.le_induction with
  | base => exact hlt
  | succ n _ ih =>
      have hq := (occupancy_runTomasulo trace simInsn n).queue
      by_cases hf : (runTomasulo trace simInsn n).stage = .fetchToDispatch
      · rw [runTomasulo_succ, step, hf]
        exact (fetch_front hq (fetchToDispatch_effect _ _ _) hp.1).mpr ih
      · by_cases hd : (runTomasulo trace simInsn n).stage = .dispatchToIssue
        · have heff := dispatchToIssue_effect trace (runTomasulo trace simInsn n).cycle
            (runTomasulo trace simInsn n).state
          rw [runTomasulo_succ, step, hd]
          simp only
          generalize dispatchToIssue trace _ _ = s' at heff
          cases heff with
          | empty => exact ih
          | full => exact ih
          | enter head t hhead ht =>
              refine (dispatch_front hq hhead ?_ ?_ ?_ hp.1).mpr (Or.inl ih) <;>
                rw [rename_frame, entered_frame ht]
          | evict head hhead => exact (dispatch_front hq hhead rfl rfl rfl hp.1).mpr (Or.inl ih)
        · rw [runTomasulo_succ, step_front _ hf hd]
          exact ih

/-- When the loop ends, whoever has entered a station has left it again. -/
theorem stationed_left {n p : Nat} (hret : Returned trace simInsn n)
    (hp : Stationed trace simInsn p) :
    trace.InStation p ∧ p < (runTomasulo trace simInsn n).state.front ∧
      ¬ (runTomasulo trace simInsn n).state.Held p := by
  rcases hp with ⟨m, hm⟩
  have hin := (captured_of_enters hm).inStation
  have hmn : m + 1 ≤ n := by
    by_contra hlt
    have hs := hm.1
    rw [returned_mono trace simInsn n m (by omega) hret, hret] at hs
    exact absurd hs (by simp only [reduceCtorEq, not_false_eq_true])
  have hlt := ((occupancy_runTomasulo trace simInsn (m + 1)).held hm.2.2).2
  refine ⟨hin, lt_front_mono hin hmn hlt, ?_⟩
  rcases (returned_empty trace simInsn n hret).1 with ⟨-, hINT, hFP, -⟩
  intro hcase
  rcases hcase with ⟨i, hi⟩ | ⟨i, hi⟩
  · rw [hINT i] at hi
    exact absurd hi (by simp only [reduceCtorEq, not_false_eq_true])
  · rw [hFP i] at hi
    exact absurd hi (by simp only [reduceCtorEq, not_false_eq_true])

/-- When the loop ends, the recorded table is consistent. -/
theorem consistent_when_returned (trace : Trace) (simInsn n : Nat)
    (hret : Returned trace simInsn n) :
    ConsistentTable trace simInsn (runTomasulo trace simInsn n).state := by
  have h := timing_runTomasulo trace simInsn n
  have hle := front_le_fetchIndex (occupancy_runTomasulo trace simInsn n).queue
  refine ⟨fun p hp => ?_, fun p hp => ?_, fun p hp hw => ?_, fun p q hp hq hpq => ?_,
    fun p q hp hq hpw hqw hne => ?_⟩
  · -- At return nothing is held, so every stationed entry has left and its stamps are final.
    rcases stationed_left hret hp with ⟨hin, hlt, -⟩
    exact (h.dispatched p hin hlt).1
  · rcases stationed_left hret hp with ⟨hin, hlt, hnot⟩
    exact h.left p hin hlt hnot
  · rcases stationed_left hret hp with ⟨hin, hlt, hnot⟩
    exact (h.sent p hin hlt hnot hw).1
  · rcases stationed_left hret hp with ⟨hpin, -, -⟩
    rcases stationed_left hret hq with ⟨hqin, hlt, -⟩
    exact ⟨h.fetch_order p q hpq (by omega), h.dispatch_order p q hpin hqin hpq hlt⟩
  · rcases stationed_left hret hp with ⟨hpin, hplt, hpnot⟩
    rcases stationed_left hret hq with ⟨hqin, hqlt, hqnot⟩
    exact h.sent_apart p q hpin hqin hplt hqlt hpnot hqnot hpw hqw hne

/-- The chain of two additions, which returns after fourteen cycles. -/
theorem consistent_when_returned_chain :
    ConsistentTable chain 3 (runTomasulo chain 3 84).state :=
  consistent_when_returned chain 3 84 (by unfold Returned; decide +kernel)

end Tomasulo

end MicroArch
