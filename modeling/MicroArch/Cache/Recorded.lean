import MicroArch.Cache.History

/-!
# What the History Records

The columns of a row in full, and which of them the delta correlation
prefetcher believes.

The columns hold the latest differences of the owner and minus one in the rest
of the row. Nothing says how many of them are filled. So a difference of minus
one is taken for an empty column and the other way round: as the newest one it
is found in columns that hold nothing yet. Then candidates are computed from
fewer than five differences, or from five where the pair reaches into the last
column.

## Main definitions

* `Columns`: The row holds its owner, the last address and the differences.
* `places`: Where a call finds the newest pair of differences.
* `OnlyRecorded`: A call finds it among the recorded differences alone.
* `Misread`: The differences with which it does not.
* `CalledIn`: The calls that are made in a run.
* `RecordsHistory`: A run in which all rows and calls are right.

## Theorems

* `run_columns`: In a run, every row is right.
* `recordsHistory_iff`: When all calls of a run are right.
* `step_back_believed`: A program with a call that is not.
-/

namespace MicroArch

namespace Cache

variable {g : Geometry} {ω : Type}

/-! ### Columns -/

/-- The row holds its owner, the owner's last address, and the latest
    differences with unused columns behind them. -/
structure Columns (l : List (Addr × Addr)) (cell : Nat → BitVec 32) : Prop where
  tag : cell 0 = dcptOwner l
  last : ∀ addr ∈ (ownAddrs l).head?, cell 1 = addr
  differences : (List.range DELTAS).map (fun j => cell (OPEN_COLS - DELTAS + j)) =
    ((deltas (ownAddrs l)).take DELTAS).rightpad DELTAS (-1)

/-- What is read of a list past its end. -/
theorem map_getD_range {α : Type} (l : List α) (d : α) (n : Nat) :
    (List.range n).map (fun j => l.getD j d) = (l.take n).rightpad n d := by
  -- By induction on the number of cells, which takes the list apart with it.
  induction n generalizing l with
  | zero => simp [List.rightpad]
  | succ n ih =>
      rw [List.range_succ_eq_map, List.map_cons, List.map_map]
      cases l with
      | nil => simp [List.rightpad, List.replicate_succ, Function.comp_def]
      | cons a l =>
          simpa [List.rightpad, Function.comp_def] using ih l

theorem Remembers.columns {l : List (Addr × Addr)} {cell : Nat → BitVec 32}
    (h : Remembers l cell) : Columns l cell where
  tag := h.tag
  last := h.last
  differences := by
    rw [← map_getD_range]
    exact List.map_congr_left fun j hj => h.deltas j (List.mem_range.mp hj)

/-! ### Calls -/

/-- The address is another one than the last. -/
def Moved : List Addr → Prop
  | addr :: last :: _ => addr ≠ last
  | _ => False

/-- Differences, the newest one in front, whose newest pair is found in columns
    that are not filled. -/
def Misread : List (BitVec 32) → Prop
  | [d₁] => d₁ = -1
  | [d₁, d₂] => d₁ = -1 ∧ d₂ = -1
  | [d₁, d₂, _] => d₁ = -1 ∧ d₂ = -1
  | [d₁, d₂, _, d₄] => d₁ = -1 ∧ (d₂ = -1 ∨ d₂ = d₄)
  | [d₁, d₂, _, _, d₅] => d₁ = -1 ∧ d₂ = d₅
  | _ => False

/-- The places at which a call finds the newest pair of differences. -/
def places (PC addr : Addr) (row : Nat → BitVec 32) : List Nat :=
  let r := recordDelta PC addr (.of row)
  if r.1 then
    (downFrom (OPEN_COLS - 1) (OPEN_COLS - DELTAS + 3)).filter fun i =>
      r.2.cell i = r.2.cell (OPEN_COLS - DELTAS) ∧
        r.2.cell (i - 1) = r.2.cell (OPEN_COLS - DELTAS + 1)
  else []

/-- The candidates of a call are the differences before the places at which it
    finds the newest pair. -/
theorem mem_candidates_places (res : Addr → Bool) (PC addr : Addr) (row : Nat → BitVec 32)
    (cand : BitVec 32) :
    cand ∈ (openEndedCall g res PC addr row).candidates ↔ ∃ i ∈ places PC addr row,
      ∃ j ∈ downFrom (i - 2) (OPEN_COLS - DELTAS),
        cand = addr + (recordDelta PC addr (.of row)).2.cell j := by
  unfold places
  dsimp only
  -- A call that enters nothing looks at no place and computes no candidate.
  by_cases htrue : (recordDelta PC addr (.of row)).1 = true
  · rw [mem_candidates_iff res htrue, if_pos htrue]
    generalize (recordDelta PC addr (.of row)).2.cell = cell
    have hat : ∀ i, cand ∈ candidatesAt addr cell i ↔
        (cell i = cell 3 ∧ cell (i - 1) = cell 4) ∧
          ∃ j ∈ downFrom (i - 2) (OPEN_COLS - DELTAS), cand = addr + cell j := by
      intro i
      unfold candidatesAt
      split
      · rename_i hpair
        simp only [hpair, true_and, and_self, List.mem_map, eq_comm]
      · rename_i hpair
        simp only [hpair, false_and, List.not_mem_nil]
    have hplaces : downFrom (OPEN_COLS - 1) (OPEN_COLS - DELTAS + 3) = [8, 7] := rfl
    -- The two places are tried in this order, and both may have the pair.
    rw [candidates, List.mem_append, hat, hat, hplaces]
    simp only [List.mem_filter, List.mem_cons, List.not_mem_nil, or_false, decide_eq_true_eq,
      and_assoc, or_and_right, exists_or, exists_eq_left]
    exact Iff.rfl
  · rw [openEndedCall, if_neg htrue, if_neg htrue]
    simp [OpenEnded.candidates, Traced.of]

/-- The newest pair is only looked for in the last three columns. -/
theorem places_ge {PC addr : Addr} {row : Nat → BitVec 32} {i : Nat}
    (hi : i ∈ places PC addr row) : 7 ≤ i := by
  unfold places at hi
  dsimp only at hi
  split at hi
  · have hmem : i ∈ [8, 7] := (List.mem_filter.mp hi).1
    simp only [List.mem_cons, List.not_mem_nil, or_false] at hmem
    omega
  · exact absurd hi List.not_mem_nil

/-- A call of a row with `k` differences computes its candidates from recorded
    ones. -/
structure OnlyRecorded (PC addr : Addr) (row : Nat → BitVec 32) (k : Nat) (v : OpenEnded) :
    Prop where
  found : ∀ i ∈ places PC addr row, i < OPEN_COLS - DELTAS + k
  early : k < 5 → v.candidates = []

/-- No candidates are computed from less than five recorded differences. -/
theorem onlyRecorded_iff_found (res : Addr → Bool) (PC addr : Addr) (row : Nat → BitVec 32)
    (k : Nat) : OnlyRecorded PC addr row k (openEndedCall g res PC addr row) ↔
      ∀ i ∈ places PC addr row, i < OPEN_COLS - DELTAS + k := by
  refine ⟨OnlyRecorded.found, fun h => ⟨h, fun hk => List.eq_nil_iff_forall_not_mem.mpr ?_⟩⟩
  intro cand hcand
  rcases (mem_candidates_places res PC addr row cand).mp hcand with ⟨i, hi, -⟩
  have hcolumn : i < 3 + k := h i hi
  have hlow := places_ge hi
  omega

theorem deltas_ne_nil {l : List Addr} (h : Moved l) : deltas l ≠ [] := by
  rcases l with _ | ⟨addr, _ | ⟨last, l⟩⟩
  · exact h.elim
  · exact h.elim
  · have hdelta : addr - last ≠ 0 := fun h0 => h (by bv_omega)
    rw [deltas, if_pos hdelta]
    exact List.cons_ne_nil _ _

/-- The newest pair is found in filled columns, unless it is misread. -/
theorem pair_recorded_iff {cell : Nat → BitVec 32} {ds : List (BitVec 32)}
    (hcells : ∀ j < DELTAS, cell (3 + j) = ds.getD j (-1)) (hds : ds ≠ []) :
    (∀ i ∈ [8, 7].filter fun i => cell i = cell 3 ∧ cell (i - 1) = cell 4, i < 3 + ds.length) ↔
      ¬ Misread ds := by
  have h0 : cell 3 = ds.getD 0 (-1) := hcells 0 (by decide)
  have h1 : cell 4 = ds.getD 1 (-1) := hcells 1 (by decide)
  have h3 : cell 6 = ds.getD 3 (-1) := hcells 3 (by decide)
  have h4 : cell 7 = ds.getD 4 (-1) := hcells 4 (by decide)
  have h5 : cell 8 = ds.getD 5 (-1) := hcells 5 (by decide)
  have hfound : (∀ i ∈ [8, 7].filter fun i => cell i = cell 3 ∧ cell (i - 1) = cell 4,
      i < 3 + ds.length) ↔ (cell 8 = cell 3 ∧ cell 7 = cell 4 → 5 < ds.length) ∧
        (cell 7 = cell 3 ∧ cell 6 = cell 4 → 4 < ds.length) := by
    simp only [List.mem_filter, List.mem_cons, List.not_mem_nil, or_false, decide_eq_true_eq,
      and_imp, forall_eq_or_imp, forall_eq]
    refine and_congr ?_ ?_
    · refine forall_congr' fun _ => forall_congr' fun _ => ?_
      omega
    · refine forall_congr' fun _ => forall_congr' fun _ => ?_
      omega
  rw [hfound, h0, h1, h3, h4, h5]
  -- by the number of differences, up to the length of the row
  rcases ds with _ | ⟨d₁, _ | ⟨d₂, _ | ⟨d₃, _ | ⟨d₄, _ | ⟨d₅, _ | ⟨d₆, ds⟩⟩⟩⟩⟩⟩
  · exact absurd rfl hds
  · simp [Misread, eq_comm]
  · simp [Misread, eq_comm]
  · simp [Misread, eq_comm]
  · simp [Misread, eq_comm, imp_and]
  · simp [Misread, eq_comm]
  · simp [Misread]

section Row

variable {l : List (Addr × Addr)} {cell : Nat → BitVec 32} (h : Remembers l cell) {PC : Addr}
  (hPC : PC ≠ -1)

include h hPC

/-- A difference is entered when the owner of the row moves. -/
theorem Remembers.entered_iff (addr : Addr) :
    (recordDelta PC addr (.of cell)).1 = true ↔ Moved (ownAddrs ((PC, addr) :: l)) := by
  rw [ownAddrs_cons]
  cases l with
  | nil =>
      -- Nobody owned the row, whose tag is then that of no `PC`.
      have hne : cell 0 ≠ PC := fun heq => hPC (heq.symm.trans h.tag)
      rw [recordDelta_still fun hmoved => hne hmoved.1]
      split <;> simp [Moved, ownAddrs]
  | cons u l =>
      have htag : cell 0 = u.1 := h.tag
      -- A use by another owner ends its addresses, so nothing has moved yet.
      by_cases howner : u.1 = PC
      · rw [if_pos (show owner (u :: l) = PC from howner), ownAddrs_use]
        change _ ↔ addr ≠ u.2
        rw [← h.latest]
        constructor
        · intro htrue haddr
          rw [recordDelta_still fun hmoved => hmoved.2 haddr] at htrue
          exact Bool.false_ne_true htrue
        · intro haddr
          exact (recordDelta_moved (htag.trans howner) haddr).1
      · rw [recordDelta_still fun hmoved => howner (htag.symm.trans hmoved.1),
          if_neg (show owner (u :: l) ≠ PC from howner)]
        simp [Moved]

/-- A call computes its candidates from recorded differences, if and only if
    the newest pair is not found in columns that are not filled. -/
theorem Remembers.onlyRecorded_iff (res : Addr → Bool) (addr : Addr) :
    OnlyRecorded PC addr cell (Cache.deltas (ownAddrs ((PC, addr) :: l))).length
        (openEndedCall g res PC addr cell) ↔
      ¬ (Moved (ownAddrs ((PC, addr) :: l)) ∧
        Misread (Cache.deltas (ownAddrs ((PC, addr) :: l)))) := by
  have hentered := h.entered_iff hPC addr
  have hcells := (recordDelta_remembers h hPC addr).deltas
  rw [onlyRecorded_iff_found, places]
  by_cases htrue : (recordDelta PC addr (.of cell)).1 = true
  · -- The columns hold the differences of the owner, with the marker behind them.
    rw [if_pos htrue, and_iff_right (hentered.mp htrue)]
    exact pair_recorded_iff hcells (deltas_ne_nil (hentered.mp htrue))
  · rw [if_neg htrue]
    exact iff_of_true (List.forall_mem_nil _) fun hmisled => htrue (hentered.mpr hmisled.1)

end Row

/-! ### Runs -/

/-- The calls that are made in a run, by the operations before them: the next
    access has just been served. -/
def CalledIn (g : Geometry) (out : Outside (Tables × ω)) (t : Tables) (w : ω)
    (ops pre : List Op) (PC addr : Addr) (s : Sys g (Tables × ω)) : Prop :=
  ∃ cmd nbytes now s₀ answer, pre ++ [.demand PC cmd addr nbytes now] <+: ops ∧
    run g out t w pre = .ok s₀ ∧ checkAccess g addr nbytes = .ok () ∧
    serve out cmd addr now false s₀ = .ok (answer, s)

/-- The addresses of the `PC` since its row is its own, with the one of an
    access in front. -/
def addrsAt (PC addr : Addr) (pre : List Op) : List Addr :=
  ownAddrs ((PC >>> 2, addr) :: dcptUses (dcptIndex PC) pre)

/-- The rows are right after every part of a run, and so are the calls. -/
structure RecordsHistory (g : Geometry) (out : Outside (Tables × ω)) (t : Tables) (w : ω)
    (ops : List Op) : Prop where
  rows : ∀ pre s, pre <+: ops → run g out t w pre = .ok s →
    ∀ r, Columns (dcptUses r pre) (s.tables.DCPT r)
  calls : ∀ pre PC addr s, CalledIn g out t w ops pre PC addr s →
    ∃ v, openEndedRow g s.cache.probe (PC >>> 2) addr (s.tables.DCPT (dcptIndex PC)) = .ok v ∧
      OnlyRecorded (PC >>> 2) addr (s.tables.DCPT (dcptIndex PC))
        (deltas (addrsAt PC addr pre)).length v

/-- In a run, every row is right. -/
theorem run_columns (htype : g.prefetchType = 2) (out : Outside ω) (t : Tables) (w : ω)
    (ops : List Op) : Ends (fun _ => True) (run g out.alone (t.create g.prefetchType) w ops)
      fun s => ∀ r, Columns (dcptUses r ops) (s.tables.DCPT r) :=
  (run_remembers htype out t w ops).mono fun _ hs r => (hs r).columns

theorem CalledIn.onlyRecorded_iff (htype : g.prefetchType = 2) {out : Outside ω} {t : Tables}
    {w : ω} {ops pre : List Op} {PC addr : Addr} {s : Sys g (Tables × ω)}
    (h : CalledIn g out.alone (t.create g.prefetchType) w ops pre PC addr s) :
    ∃ v, openEndedRow g s.cache.probe (PC >>> 2) addr (s.tables.DCPT (dcptIndex PC)) = .ok v ∧
      (OnlyRecorded (PC >>> 2) addr (s.tables.DCPT (dcptIndex PC))
          (deltas (addrsAt PC addr pre)).length v ↔
        ¬ (Moved (addrsAt PC addr pre) ∧ Misread (deltas (addrsAt PC addr pre)))) := by
  rcases h with ⟨cmd, nbytes, now, s₀, answer, -, hrun, -, hserve⟩
  rcases served_remembers htype hrun hserve with ⟨⟨ord, hc⟩, hrows⟩
  rw [probe_eq hc, openEndedRow_eq]
  exact ⟨_, rfl, (hrows (dcptIndex PC)).onlyRecorded_iff (shifted_ne PC) _ addr⟩

/-- The rows and calls of a run are right, if and only if none of its accesses
    enters differences that are misread. -/
theorem recordsHistory_iff (g : Geometry) (htype : g.prefetchType = 2) (out : Outside ω)
    (t : Tables) (w : ω) (ops : List Op) :
    RecordsHistory g out.alone (t.create g.prefetchType) w ops ↔
      ∀ pre PC addr s, CalledIn g out.alone (t.create g.prefetchType) w ops pre PC addr s →
        ¬ (Moved (addrsAt PC addr pre) ∧ Misread (deltas (addrsAt PC addr pre))) := by
  constructor
  · intro h pre PC addr s hcalled
    -- The call of the run is the one that the description speaks of.
    rcases h.calls pre PC addr s hcalled with ⟨v, hv, honly⟩
    rcases hcalled.onlyRecorded_iff htype with ⟨v', hv', hiff⟩
    cases hv.symm.trans hv'
    exact hiff.mp honly
  · intro h
    refine ⟨fun pre s _ hrun => (run_columns htype out t w pre).of_eq hrun, ?_⟩
    intro pre PC addr s hcalled
    rcases hcalled.onlyRecorded_iff htype with ⟨v, hv, hiff⟩
    exact ⟨v, hv, hiff.mpr (h pre PC addr s hcalled)⟩

/-! ### Two programs -/

/-- Two reads of a program. -/
theorem recordsHistory_two_reads : RecordsHistory oneBlockDelta plainMemory.alone
    (Tables.initial.create 2) () [.demand 4 .Read 8 1 0, .demand 4 .Read 16 1 0] := by
  refine (recordsHistory_iff oneBlockDelta rfl plainMemory .initial () _).mpr ?_
  rintro pre PC addr s ⟨cmd, nbytes, now, s₀, answer, hpre, -⟩ ⟨hmoved, hmisread⟩
  -- The two reads are the only calls. The first enters nothing, and the second the difference
  -- eight, which is not the marker.
  rcases pre with _ | ⟨op, _ | ⟨op', pre⟩⟩
  · cases (List.cons_prefix_cons.mp hpre).1
    exact hmoved
  · rcases List.cons_prefix_cons.mp hpre with ⟨hop, hrest⟩
    cases hop
    cases (List.cons_prefix_cons.mp hrest).1
    have hback : (8 : BitVec 32) = -1 := hmisread
    exact absurd hback (by decide)
  · have hlength := hpre.length_le
    simp only [List.cons_append, List.length_cons, List.length_append, List.length_nil] at hlength
    omega

/-- Differences that go up three times, and back by one. -/
def stepBack (i : Nat) : BitVec 32 := if i = 1 then 16 else if i = 3 then -1 else 8

/-- The fifth read finds the newest pair in a column that is not filled. -/
theorem step_back_believed : ¬ ∀ ops : List Op, RecordsHistory oneBlockDelta plainMemory.alone
    (Tables.initial.create 2) () ops := by
  intro h
  have hends : ∃ s v, CalledIn oneBlockDelta plainMemory.alone (Tables.initial.create 2) ()
        (reads stepBack 5) (reads stepBack 4) 4 39 s ∧
      openEndedRow oneBlockDelta s.cache.probe (4 >>> 2) 39 (s.tables.DCPT (dcptIndex 4)) = .ok v ∧
      v.candidates = [47, 55] :=
    ⟨_, _, ⟨.Read, 1, 0, _, _, List.prefix_rfl, rfl, rfl, rfl⟩, rfl, rfl⟩
  rcases hends with ⟨s, v, hcalled, hv, hcandidates⟩
  rcases (h _).calls _ 4 39 s hcalled with ⟨v', hv', honly⟩
  cases hv.symm.trans hv'
  have hnone := honly.early (by decide)
  rw [hcandidates] at hnone
  exact List.cons_ne_nil _ _ hnone

end Cache

end MicroArch
