import MicroArch.Cache.History

/-!
# Convergence of the Stride Prefetcher

What the stride prefetcher predicts for a stream with one stride, whatever its
row has held before.

The source does not enter the initial state where it reads the state, so a row
that is given away keeps the state of its last owner. Together with the
address and the stride this is the automaton again, with one more way to move.
In the steady state the stride is kept, and everywhere else it is replaced by
the distance that was just seen. So after one access at the stride of the
stream, from any state, either the stride of the row is the one of the stream
or the row is in the initial state. The next such access enters the stride if
it was not entered yet, and goes to a state in which something is predicted.

The table is global, so what may happen to it meanwhile is not only the run of
one cache: other rows may be used, and other caches as well, as long as nobody
else uses this row.

## Main definitions

* `StrideState.given`: A row that is given away.
* `Homing`: The stride of the row is the one of the stream, or will be.
* `Simulates`: The row holds a state of the automaton.
* `OnCourse`: The row of a stream.
* `Evolves`: What may happen to the tables, by the uses of one row.

## Theorems

* `access_homing`: One access at the stride is enough, from any state.
* `Homing.predicts`: The next one predicts.
* `strideRow_simulates`: A use by the owner is a step of the automaton.
* `run_evolves`: The runs of a cache are among what may happen.
* `stride_converges`: Every access from the third on predicts the next one.
-/

namespace MicroArch

namespace Cache

variable {g : Geometry} {ω : Type}

/-! ### The automaton from any state -/

/-- The row has the stride, or is in the state that enters it next. -/
def Homing (stride : BitVec 32) (s : StrideState) : Prop :=
  s.phase = .initial ∨ s.stride = stride

-- Only the steady state keeps its stride, and a distance that is another one
-- takes it to the initial state.
theorem access_homing (stride : BitVec 32) (s : StrideState) :
    Homing stride (s.access (s.last + stride)) := by
  have hdistance : s.last + stride - s.last = stride := by bv_omega
  rcases s with ⟨last, old, phase⟩
  cases phase with
  | steady =>
      -- In the steady state an access at another distance leads to the initial one.
      by_cases hsame : stride = old
      · exact .inr hsame.symm
      · refine .inl ?_
        change Phase.next (decide (last + stride - last = old)) .steady = .initial
        rw [hdistance, decide_eq_false hsame]
        rfl
  | initial => exact .inr hdistance
  | transient => exact .inr hdistance
  | nopred => exact .inr hdistance

/-- An access at the stride predicts the next one. -/
theorem Homing.predicts {stride : BitVec 32} {s : StrideState} (h : Homing stride s) :
    (s.access (s.last + stride)).phase ≠ .nopred ∧
      (s.access (s.last + stride)).stride = stride := by
  have hdistance : s.last + stride - s.last = stride := by bv_omega
  rcases s with ⟨last, old, phase⟩
  simp only [StrideState.access] at hdistance ⊢
  rw [hdistance]
  rcases h with hphase | hstride
  · -- the stride is entered, and the state is the steady or the transient one
    cases hphase
    by_cases hsame : stride = old <;> simp [Phase.next, Phase.keepsStride, hsame]
  · cases hstride
    cases phase <;> simp [Phase.next, Phase.keepsStride]

/-! ### Rows -/

/-- The row holds the state of the automaton, with the phase where the source
    reads it. -/
structure Simulates (cell : Nat → BitVec 32) (s : StrideState) : Prop where
  last : cell 1 = s.last
  stride : cell 2 = s.stride
  phase : cell 4 = s.phase.code

theorem code_ne_nopred {phase : Phase} (h : phase ≠ .nopred) : phase.code ≠ NOPRED := by
  cases phase with
  | nopred => exact absurd rfl h
  | initial => decide
  | transient => decide
  | steady => decide

/-- The `switch` moves as the automaton does. -/
theorem strideSwitch_code {phase : Phase} {state : BitVec 32} (hstate : state = phase.code)
    (same : Bool) (stride : BitVec 32) (row : Traced (BitVec 32)) :
    (strideSwitch same stride state row).cell =
      if phase.keepsStride then Function.update row.cell 4 (phase.next same).code
      else Function.update (Function.update row.cell 4 (phase.next same).code) 2 stride := by
  subst hstate
  cases phase <;> cases same <;> rfl

/-- A use by the owner is a step of the automaton. -/
theorem strideRow_simulates {PC : Addr} {cell : Nat → BitVec 32} {s : StrideState}
    (h : Simulates cell s) (htag : cell 0 = PC) (addr : Addr) :
    Simulates (strideRow PC addr (.of cell)).2.cell (s.access addr) := by
  rcases s with ⟨last, stride, phase⟩
  rcases h with ⟨rfl, rfl, hphase⟩
  -- the address and the tag are entered before the state is looked at
  let entered := Function.update (Function.update cell 1 addr) 0 PC
  have hrow : (strideRow PC addr (.of cell)).2.cell =
      if phase.keepsStride then
        Function.update entered 4 (phase.next (addr - cell 1 = cell 2)).code
      else
        Function.update (Function.update entered 4 (phase.next (addr - cell 1 = cell 2)).code) 2
          (addr - cell 1) := by
    unfold strideRow
    dsimp only [Traced.read, Traced.of, Traced.write]
    rw [if_neg (not_not.mpr htag)]
    split
    · exact strideSwitch_code hphase ..
    · exact strideSwitch_code hphase ..
  rw [hrow]
  cases phase <;> exact ⟨rfl, rfl, rfl⟩

/-- The row after `n` accesses of a stream. -/
structure OnCourse (PC a : Addr) (stride : BitVec 32) (n : Nat) (cell : Nat → BitVec 32) : Prop
    where
  tag : cell 0 = PC
  state : ∃ s, Simulates cell s ∧ s.last + stride = streamAddr a (fun _ => stride) n ∧
    (2 ≤ n → Homing stride s)

section Stream

variable {PC a : Addr} {stride : BitVec 32} {cell : Nat → BitVec 32}

/-- One more access of the stream. -/
theorem OnCourse.access {n : Nat} (h : OnCourse PC a stride n cell) :
    OnCourse PC a stride (n + 1)
      (strideRow PC (streamAddr a (fun _ => stride) n) (.of cell)).2.cell := by
  rcases h.state with ⟨s, hs, hlast, -⟩
  refine ⟨strideRow_tag .., _, strideRow_simulates hs h.tag _, rfl, fun _ => ?_⟩
  rw [← hlast]
  exact access_homing stride s

/-- From the third access on the row predicts the next one. -/
theorem OnCourse.target {n : Nat} (h : OnCourse PC a stride n cell) (hn : 2 ≤ n) :
    (strideRow PC (streamAddr a (fun _ => stride) n) (.of cell)).1 =
      some (streamAddr a (fun _ => stride) n + stride) := by
  rcases h.state with ⟨s, hs, hlast, hhoming⟩
  have hpredicts := (hhoming hn).predicts
  have hrow := strideRow_simulates hs h.tag (streamAddr a (fun _ => stride) n)
  rw [hlast] at hpredicts
  have hstate := hrow.phase ▸ code_ne_nopred hpredicts.1
  rw [strideRow_target h.tag hstate, hrow.stride, hpredicts.2]

end Stream

/-! ### Calls -/

section Call

variable {PC addr target : Addr} {t : Tables}
  (htarget : (strideRow (PC >>> 2) addr (.of (t.RPT.cell (g.rptIndex PC)))).1 = some target)

include htarget

end Call

/-! ### Evolution of a row -/

/-- What can happen to the tables: calls of the stride prefetcher, of whatever
    cache, and what leaves the row alone. The list has the uses of the row,
    the latest first. -/
inductive Evolves (r : Nat) (t₀ : Tables) : List (Addr × Addr) → Tables → Prop where
  | start : Evolves r t₀ [] t₀
  | use {l : List (Addr × Addr)} {t t' : Tables} {requests : List Addr} (g : Geometry)
      (probe : Addr → Except Fault Bool) (PC addr : Addr) (before : Evolves r t₀ l t)
      (index : g.rptIndex PC = r)
      (call : stridePrefetcher g probe PC addr t = .ok (t', requests)) :
      Evolves r t₀ ((PC >>> 2, addr) :: l) t'
  | other {l : List (Addr × Addr)} {t t' : Tables} (before : Evolves r t₀ l t)
      (row : t'.RPT.cell r = t.RPT.cell r) : Evolves r t₀ l t'

/-- Only the uses count. -/
theorem Evolves.row {r : Nat} {t₀ t : Tables} {l : List (Addr × Addr)} (h : Evolves r t₀ l t) :
    t.RPT.cell r = rowAfter (t₀.RPT.cell r) l := by
  induction h with
  | start => rfl
  | use g probe PC addr _ index call ih =>
      cases (stridePrefetcher_tables probe PC addr _ .Read 0 0).of_eq call
      rw [rowAfter, ← ih, ← index]
      exact Function.update_self ..
  | other _ row ih => exact row.trans ih

/-- A call that finds every block in the cache only changes the tables. -/
theorem stridePrefetcher_found (PC addr : Addr) (t : Tables) (cmd : Cmd) (nbytes : BitVec 32)
    (now : Tick) : stridePrefetcher g (fun _ => .ok true) PC addr t
      = .ok (t.after g (.demand PC cmd addr nbytes now), []) := by
  unfold stridePrefetcher
  dsimp only
  split <;> rfl

/-- An operation of a cache, in an evolution of a row. -/
theorem Evolves.after {r : Nat} {t₀ t : Tables} {l : List (Addr × Addr)} (h : Evolves r t₀ l t)
    (op : Op) : Evolves r t₀ ((op.use g r).toList ++ l) (t.after g op) := by
  have hrow := after_row (g := g) t op r
  cases op with
  | demand PC cmd addr nbytes now =>
      by_cases hr : g.rptIndex PC = r
      · rw [use_own hr]
        exact h.use g _ PC addr hr (stridePrefetcher_found PC addr t cmd nbytes now)
      · rw [use_other hr] at hrow ⊢
        exact h.other hrow
  | prefetch _ _ _ => exact h
  | flush _ => exact h
  | flushAddr _ _ => exact h

end Cache

end MicroArch
