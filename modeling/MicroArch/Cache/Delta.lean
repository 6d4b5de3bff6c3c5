import MicroArch.Cache.WellFormed

/-!
# The Buffers of the Delta Correlation Prefetcher

Whether a call of `open_ended_prefetcher` stays inside its arrays. Its row has
nine columns and is never left. The candidates are collected in an array of
four and the blocks to request in one of two. When the newest pair of deltas
is found at both of the places that are looked at, there are five candidates.
When it is found at the older one alone there are three, which may all be
requested.

The history of a row has the newest delta in front. It is looked at before the
access is entered, so that the delta of column `i` is found in column `i - 1`,
and the newest one is the distance to the last address.

## Main definitions

* `InBounds`: No index of a call leaves its array.
* `Repeats`: The newest pair of deltas is found at a place further back.
* `NotFound`: It is not, or there is none.
* `Overruns`: The row and the address make a call leave an array.
* `Called`: The calls that are made in runs.

## Theorems

* `openEndedCall_inBounds_iff`: When a call stays inside its arrays.
* `calls_in_bounds_iff`: The same, for every call in every run.
* `descending_overruns`: A call that does not.
-/

namespace MicroArch

namespace Cache

variable {g : Geometry} {ω : Type}

/-- No index of a call leaves its array, and the loop that makes the requests
    only reads what the call has written. -/
structure InBounds (v : OpenEnded) : Prop where
  row : v.row.Within OPEN_COLS
  cand : ∀ i ∈ v.cand.writes, i < (DELTAS - 4) * (DELTAS - 4)
  prefetch : ∀ i ∈ v.prefetch.writes, i < DELTAS - 4
  written : ∀ i ∈ v.prefetch.reads, i ∈ v.prefetch.writes

/-- The newest pair of deltas is also found in the columns after `k`. -/
def Repeats (addr : Addr) (row : Nat → BitVec 32) (k : Nat) : Prop :=
  row (k + 1) = addr - row 1 ∧ row k = row 3

instance (addr : Addr) (row : Nat → BitVec 32) (k : Nat) : Decidable (Repeats addr row k) :=
  inferInstanceAs (Decidable (_ ∧ _))

/-- The row belongs to another instruction, or no delta is entered, or the
    newest pair of deltas is not found in it. -/
def NotFound (tag : BitVec 32) (addr : Addr) (row : Nat → BitVec 32) : Prop :=
  ¬ (row 0 = tag ∧ addr ≠ row 1 ∧ (Repeats addr row 6 ∨ Repeats addr row 5))

instance (tag : BitVec 32) (addr : Addr) (row : Nat → BitVec 32) :
    Decidable (NotFound tag addr row) :=
  inferInstanceAs (Decidable (¬ _))

/-- Three candidates that are different, not in the cache, and not taken for
    an empty place in flight. None but the last is the last prefetch. -/
def AllChosen (res : Addr → Bool) (lastPrefetch a b c : BitVec 32) : Prop :=
  (a ≠ -1 ∧ res a = false ∧ a ≠ lastPrefetch) ∧
    (b ≠ -1 ∧ res b = false ∧ b ≠ lastPrefetch ∧ b ≠ a) ∧
    c ≠ -1 ∧ res c = false ∧ c ≠ b ∧ c ≠ a

/-- A delta is entered, the newest pair is found at the older place, and it is
    also found at the newer one or all three candidates are chosen. -/
def Overruns (g : Geometry) (res : Addr → Bool) (PC addr : Addr) (row : Nat → BitVec 32) : Prop :=
  row 0 = PC ∧ addr ≠ row 1 ∧ Repeats addr row 6 ∧
    (Repeats addr row 5 ∨ AllChosen (fun cand => res (g.requestAddr cand)) (row 2)
      (addr + row 5) (addr + row 4) (addr + row 3))

/-! ### The row -/

theorem recordDelta_within (PC addr : Addr) (row : Nat → BitVec 32) :
    (recordDelta PC addr (.of row)).2.Within OPEN_COLS := by
  have htag := (Traced.within_of row OPEN_COLS).read (show 0 < OPEN_COLS by decide)
  unfold recordDelta
  dsimp only
  split
  · -- A new owner writes three columns and fills the six of the deltas behind them.
    refine Traced.Within.foldl _ ?_ fun a i hi ha => ha.write ?_ _
    · exact ((htag.write (by decide) _).write (by decide) _).write (by decide) _
    · exact (by decide : ∀ i ∈ List.range' (OPEN_COLS - DELTAS) DELTAS, i < OPEN_COLS) i hi
  · have hlast := htag.read (show 1 < OPEN_COLS by decide)
    split
    · refine Traced.Within.write (Traced.Within.write (Traced.Within.read ?_ ?_) ?_ _) ?_ _
      · -- Every delta moves one column up, so the highest column read is the last one but one.
        refine Traced.Within.foldl _ hlast fun a i hi ha => ?_
        have hi : i < OPEN_COLS :=
          (by decide : ∀ i ∈ downFrom (OPEN_COLS - 1) (OPEN_COLS - DELTAS), i < OPEN_COLS) i hi
        exact (ha.read (lt_of_le_of_lt (Nat.sub_le i 1) hi)).write hi _
      · decide
      · decide
      · decide
    · exact hlast

/-- The columns of a row once a delta was entered. -/
structure Entered (addr : Addr) (row : Nat → BitVec 32) (r : Traced (BitVec 32)) : Prop where
  within : r.Within OPEN_COLS
  lastPrefetch : r.cell 2 = row 2
  newest : r.cell 3 = addr - row 1
  older : ∀ k ∈ [3, 4, 5, 6, 7], r.cell (k + 1) = row k

theorem recordDelta_moved {PC addr : Addr} {row : Nat → BitVec 32} (hPC : row 0 = PC)
    (haddr : addr ≠ row 1) :
    (recordDelta PC addr (.of row)).1 = true ∧
      Entered addr row (recordDelta PC addr (.of row)).2 := by
  have hwithin := recordDelta_within PC addr row
  have hdelta : addr - row 1 ≠ 0 := by
    intro h
    exact haddr (by bv_omega)
  unfold recordDelta at hwithin ⊢
  dsimp only [Traced.read, Traced.of] at hwithin ⊢
  rw [if_neg (not_not.mpr hPC), if_pos hdelta] at hwithin ⊢
  refine ⟨rfl, hwithin, rfl, rfl, ?_⟩
  simp only [List.forall_mem_cons]
  exact ⟨rfl, rfl, rfl, rfl, rfl, nofun⟩

theorem recordDelta_still {PC addr : Addr} {row : Nat → BitVec 32}
    (h : ¬ (row 0 = PC ∧ addr ≠ row 1)) : (recordDelta PC addr (.of row)).1 = false := by
  unfold recordDelta
  dsimp only [Traced.read, Traced.of]
  by_cases hPC : row 0 = PC
  · -- The owner did not move: the delta is zero, and the row is not shifted.
    have haddr : addr = row 1 := by
      by_contra hne
      exact h ⟨hPC, hne⟩
    have hdelta : addr - row 1 = 0 := by
      rw [haddr]
      exact BitVec.sub_self _
    rw [if_neg (not_not.mpr hPC), if_neg (not_not.mpr hdelta)]
  · rw [if_pos hPC]

/-! ### Candidates -/

/-- What the loop has collected, from a row with these cells. -/
structure Collects (cell : Nat → BitVec 32) (v : Candidates) (l : List (BitVec 32)) : Prop where
  row : v.row.cell = cell
  within : v.row.Within OPEN_COLS
  counter : v.counter = l.length
  cands : (List.range l.length).map v.cand.cell = l
  writes : ∀ i, i ∈ v.cand.writes ↔ i < l.length

theorem Collects.push {cell : Nat → BitVec 32} {v : Candidates} {l : List (BitVec 32)}
    (h : Collects cell v l) (addr : Addr) {j : Nat} (hj : j < OPEN_COLS) :
    Collects cell { row := (v.row.read j).2, cand := v.cand.write v.counter (addr + v.row.cell j)
                    counter := v.counter + 1 } (l ++ [addr + cell j]) where
  row := h.row
  within := h.within.read hj
  counter := by rw [h.counter, List.length_append, List.length_singleton]
  cands := by
    have hbefore : (List.range l.length).map (v.cand.write v.counter (addr + v.row.cell j)).cell
        = l := by
      refine (List.map_congr_left fun i hi => ?_).trans h.cands
      -- The candidate goes behind the others, which keep their cells.
      refine Function.update_of_ne ?_ _ _
      rw [h.counter]
      exact (List.mem_range.mp hi).ne
    rw [List.length_append, List.length_singleton, List.range_succ, List.map_append, hbefore,
      List.map_singleton, ← h.counter, ← h.row]
    exact congrArg (l ++ [·]) (Function.update_self _ _ _)
  writes i := by
    rw [List.length_append, List.length_singleton, Nat.lt_succ_iff_lt_or_eq, ← h.writes i,
      ← h.counter]
    exact List.mem_cons.trans or_comm

theorem Collects.addCandidates {cell : Nat → BitVec 32} {v : Candidates} {l : List (BitVec 32)}
    (h : Collects cell v l) (addr : Addr) {i : Nat} (hi : i ≤ OPEN_COLS) :
    Collects cell (addCandidates addr i v)
      (l ++ (downFrom (i - 2) (OPEN_COLS - DELTAS)).map fun j => addr + cell j) := by
  have hcols : ∀ j ∈ downFrom (i - 2) (OPEN_COLS - DELTAS), j < OPEN_COLS := by
    intro j hj
    rcases List.mem_map.mp hj with ⟨k, hk, rfl⟩
    have := List.mem_range.mp hk
    omega
  rw [Cache.addCandidates]
  generalize downFrom (i - 2) (OPEN_COLS - DELTAS) = js at hcols
  -- By induction on the columns that are looked at, from the place of the pair down.
  induction js generalizing v l with
  | nil => exact (List.append_nil l).symm ▸ h
  | cons j js ih =>
      rw [List.map_cons, List.append_cons]
      exact ih (h.push addr (hcols j List.mem_cons_self)) fun k hk =>
        hcols k (List.mem_cons_of_mem j hk)

/-- The candidates of one place of the row. -/
def candidatesAt (addr : Addr) (cell : Nat → BitVec 32) (i : Nat) : List (BitVec 32) :=
  if cell i = cell 3 ∧ cell (i - 1) = cell 4 then
    (downFrom (i - 2) (OPEN_COLS - DELTAS)).map fun j => addr + cell j
  else []

/-- The body of the loop of `findCandidates`. -/
def lookAt (addr : Addr) (d1 d2 : BitVec 32) (v : Candidates) (i : Nat) : Candidates :=
  let v' := { v with row := ((v.row.read i).2.read (i - 1)).2 }
  if v.row.cell i = d1 ∧ v.row.cell (i - 1) = d2 then addCandidates addr i v' else v'

theorem Collects.lookAt {cell : Nat → BitVec 32} {v : Candidates} {l : List (BitVec 32)}
    (h : Collects cell v l) (addr : Addr) {i : Nat} (hi : i < OPEN_COLS) :
    Collects cell (lookAt addr (cell 3) (cell 4) v i) (l ++ candidatesAt addr cell i) := by
  have hread : Collects cell { v with row := ((v.row.read i).2.read (i - 1)).2 } l :=
    { row := h.row, counter := h.counter, cands := h.cands, writes := h.writes
      within := (h.within.read hi).read (lt_of_le_of_lt (Nat.sub_le i 1) hi) }
  rw [Cache.lookAt, candidatesAt, h.row]
  split
  · exact hread.addCandidates addr hi.le
  · exact (List.append_nil l).symm ▸ hread

/-- The candidates, from the cells of a row. -/
def candidates (addr : Addr) (cell : Nat → BitVec 32) : List (BitVec 32) :=
  candidatesAt addr cell 8 ++ candidatesAt addr cell 7

theorem findCandidates_collects (addr : Addr) {row : Traced (BitVec 32)}
    (hrow : row.Within OPEN_COLS) :
    Collects row.cell (findCandidates addr row) (candidates addr row.cell) := by
  have hstart : Collects row.cell
      { row := ((row.read 3).2.read 4).2, cand := .of fun _ => 0, counter := 0 } [] :=
    { row := rfl, counter := rfl, cands := rfl
      writes := fun i => iff_of_false List.not_mem_nil (Nat.not_lt_zero i)
      within := (hrow.read (by decide)).read (by decide) }
  exact (hstart.lookAt addr (show 8 < OPEN_COLS by decide)).lookAt addr (by decide)

/-! ### Choices -/

/-- The variables of the loop that goes through the candidates, after `n` of
    them. -/
structure Chooses (n : Nat) (v : Chosen) : Prop where
  row : v.row.Within OPEN_COLS
  index : v.prefIndex ≤ n
  filled : ∀ k < v.prefIndex, k ∈ v.prefetch.writes
  bounded : ∀ k ∈ v.prefetch.writes, k < max (DELTAS - 4) n
  unread : v.prefetch.reads = []

section Choose

variable {inCache : Bool} {last cand : BitVec 32} {v : Chosen}

theorem choose_inFlight : (choose inCache last v cand).inFlight =
    if cand ∉ v.inFlight ∧ inCache = false then cand :: v.inFlight.dropLast else v.inFlight := by
  unfold choose
  split <;> split <;> rfl

theorem choose_prefIndex : (choose inCache last v cand).prefIndex =
    if cand = last then 0
    else if cand ∉ v.inFlight ∧ inCache = false then v.prefIndex + 1 else v.prefIndex := by
  unfold choose
  split <;> split <;> rfl

/-- The loop that takes everything back writes what was written before. -/
theorem mem_writes_takeBack {p : Traced (BitVec 32)} {n : Nat} (hfilled : ∀ k < n, k ∈ p.writes)
    (k : Nat) :
    k ∈ ((List.range n).foldl (fun p j => p.write j (-1)) p).writes ↔ k ∈ p.writes := by
  rw [Traced.writes_foldl_write, List.mem_append, List.mem_reverse, List.mem_range]
  exact ⟨fun hk => hk.elim (hfilled k) id, .inr⟩

theorem mem_choose_writes (hfilled : ∀ k < v.prefIndex, k ∈ v.prefetch.writes) (k : Nat) :
    k ∈ (choose inCache last v cand).prefetch.writes ↔
      (cand ∉ v.inFlight ∧ inCache = false) ∧ k = v.prefIndex ∨ k ∈ v.prefetch.writes := by
  unfold choose
  split
  · rename_i hfresh
    have hwrite : k ∈ (v.prefetch.write v.prefIndex cand).writes ↔
        (cand ∉ v.inFlight ∧ inCache = false) ∧ k = v.prefIndex ∨ k ∈ v.prefetch.writes :=
      List.mem_cons.trans (or_congr_left (and_iff_right hfresh).symm)
    split
    · -- Going back to the start writes the cells below the index again, all filled before.
      refine (mem_writes_takeBack (fun k hk => ?_) k).trans hwrite
      rcases Nat.lt_succ_iff_lt_or_eq.mp hk with hk | hk
      · exact List.mem_cons_of_mem _ (hfilled k hk)
      · exact List.mem_cons.mpr (.inl hk)
    · exact hwrite
  · rename_i hknown
    have hkeep : k ∈ v.prefetch.writes ↔
        (cand ∉ v.inFlight ∧ inCache = false) ∧ k = v.prefIndex ∨ k ∈ v.prefetch.writes :=
      (or_iff_right fun h => hknown h.1).symm
    split
    · exact (mem_writes_takeBack hfilled k).trans hkeep
    · exact hkeep

theorem choose_reads : (choose inCache last v cand).prefetch.reads = v.prefetch.reads := by
  unfold choose
  split <;> split
  · exact Traced.reads_foldl_write _ _ _
  · rfl
  · exact Traced.reads_foldl_write _ _ _
  · rfl

theorem choose_within (h : v.row.Within OPEN_COLS) :
    (choose inCache last v cand).row.Within OPEN_COLS := by
  have hwrite := h.write (show 2 < OPEN_COLS by decide) cand
  unfold choose
  split <;> split
  · exact hwrite
  · exact hwrite
  · exact h
  · exact h

theorem Chooses.step {n : Nat} (h : Chooses n v) :
    Chooses (n + 1) (choose inCache last v cand) where
  row := choose_within h.row
  index := by
    have := h.index
    rw [choose_prefIndex]
    split
    · exact Nat.zero_le _
    · split <;> omega
  filled k hk := by
    rw [mem_choose_writes h.filled]
    rw [choose_prefIndex] at hk
    split at hk
    · -- Below the new index are the cells filled before, and the one just written if the
      -- candidate was fresh.
      exact absurd hk (Nat.not_lt_zero k)
    · split at hk
      · rename_i hfresh
        rcases Nat.lt_succ_iff_lt_or_eq.mp hk with hk | hk
        · exact .inr (h.filled k hk)
        · exact .inl ⟨hfresh, hk⟩
      · exact .inr (h.filled k hk)
  bounded k hk := by
    have := h.index
    rw [mem_choose_writes h.filled] at hk
    rcases hk with ⟨-, hk⟩ | hk
    · omega
    · have := h.bounded k hk
      omega
  unread := choose_reads.trans h.unread

/-- Only a loop that has chosen every candidate so far, and chooses this one
    as well, has chosen as many as it has seen. -/
theorem Chooses.index_full {n : Nat} (h : Chooses n v) :
    (choose inCache last v cand).prefIndex = n + 1 ↔
      cand ≠ last ∧ (cand ∉ v.inFlight ∧ inCache = false) ∧ v.prefIndex = n := by
  have := h.index
  rw [choose_prefIndex]
  split
  · rename_i hlast
    exact iff_of_false (Nat.succ_ne_zero n).symm fun h => h.1 hlast
  · rename_i hlast
    rw [and_iff_right hlast]
    split
    · rename_i hfresh
      rw [and_iff_right hfresh, Nat.add_right_cancel_iff]
    · rename_i hfresh
      exact iff_of_false (by omega) fun h => hfresh h.1

end Choose

section Loop

variable (res : Addr → Bool) (last : BitVec 32)

/-- The loop that goes through the candidates. -/
def chooseAll (cands : List (BitVec 32)) (v : Chosen) : Chosen :=
  cands.foldl (fun v cand => choose (res cand) last v cand) v

theorem Chooses.chooseAll (cands : List (BitVec 32)) {n : Nat} {v : Chosen} (h : Chooses n v) :
    Chooses (n + cands.length) (chooseAll res last cands v) := by
  induction cands generalizing n v with
  | nil => exact h
  | cons cand cands ih =>
      rw [List.length_cons, Nat.add_comm cands.length, ← Nat.add_assoc]
      exact ih h.step

theorem Chooses.before {row : Traced (BitVec 32)} (h : row.Within OPEN_COLS) :
    Chooses 0 (chosenBefore row) where
  row := h
  index := Nat.zero_le _
  filled := nofun
  bounded := by
    rw [chosenBefore, Traced.writes_foldl_write]
    decide
  unread := Traced.reads_foldl_write _ _ _

theorem notMem_replicate (x : BitVec 32) (n : Nat) :
    x ∉ List.replicate (n + 1) (-1 : BitVec 32) ↔ x ≠ -1 := by
  rw [List.mem_replicate, not_and, imp_iff_right (Nat.succ_ne_zero n)]

/-- A third block is written only when all three candidates are chosen. -/
theorem third_written_iff {row : Traced (BitVec 32)} (h : row.Within OPEN_COLS)
    (a b c : BitVec 32) :
    2 ∈ (chooseAll res last [a, b, c] (chosenBefore row)).prefetch.writes ↔
      AllChosen res last a b c := by
  have h0 : Chooses 0 (chosenBefore row) := .before h
  have h1 : Chooses 1 (choose (res a) last _ a) := h0.step
  have h2 : Chooses 2 (choose (res b) last _ b) := h1.step
  have hnew : 2 ∉ (choose (res b) last _ b).prefetch.writes := fun hk =>
    absurd (h2.bounded 2 hk) (by decide)
  change 2 ∈ (choose (res c) last _ c).prefetch.writes ↔ _
  rw [mem_choose_writes h2.filled, or_iff_left hnew, @eq_comm Nat 2, h1.index_full, h0.index_full]
  -- what is in flight when each candidate is looked at
  have ha : a ∉ (chosenBefore row).inFlight ↔ a ≠ -1 := notMem_replicate a 31
  have hb : (a ≠ -1 ∧ res a = false) →
      (b ∉ (choose (res a) last (chosenBefore row) a).inFlight ↔ b ≠ a ∧ b ≠ -1) := by
    intro hfresh
    rw [choose_inFlight, if_pos ⟨ha.mpr hfresh.1, hfresh.2⟩, List.mem_cons, not_or]
    exact and_congr_right fun _ => notMem_replicate b 30
  have hc : (a ≠ -1 ∧ res a = false) → (b ≠ a ∧ b ≠ -1) ∧ res b = false →
      (c ∉ (choose (res b) last (choose (res a) last (chosenBefore row) a) b).inFlight
        ↔ c ≠ b ∧ c ≠ a ∧ c ≠ -1) := by
    intro hfresh hfresh'
    rw [choose_inFlight, if_pos ⟨(hb hfresh).mpr hfresh'.1, hfresh'.2⟩, choose_inFlight,
      if_pos ⟨ha.mpr hfresh.1, hfresh.2⟩, List.mem_cons, not_or]
    refine and_congr_right fun _ => List.mem_cons.not.trans (not_or.trans ?_)
    exact and_congr_right fun _ => notMem_replicate c 29
  rw [ha]
  constructor
  · rintro ⟨⟨hcin, hcres⟩, hblast, ⟨hbin, hbres⟩, halast, hanew, -⟩
    rw [hb hanew] at hbin
    rw [hc hanew ⟨hbin, hbres⟩] at hcin
    exact ⟨⟨hanew.1, hanew.2, halast⟩, ⟨hbin.2, hbres, hblast, hbin.1⟩, hcin.2.2, hcres, hcin.1,
      hcin.2.1⟩
  · rintro ⟨⟨hanew, hares, halast⟩, ⟨hbnew, hbres, hblast, hba⟩, hcnew, hcres, hcb, hca⟩
    have hfresh := And.intro hanew hares
    refine ⟨⟨?_, hcres⟩, hblast, ⟨(hb hfresh).mpr ⟨hba, hbnew⟩, hbres⟩, halast, hfresh, rfl⟩
    exact (hc hfresh ⟨⟨hba, hbnew⟩, hbres⟩).mpr ⟨hcb, hca, hcnew⟩

/-- Three candidates leave the array when all of them are chosen. -/
theorem three_bounded_iff {row : Traced (BitVec 32)} (h : row.Within OPEN_COLS)
    (a b c : BitVec 32) :
    (∀ k ∈ (chooseAll res last [a, b, c] (chosenBefore row)).prefetch.writes, k < DELTAS - 4) ↔
      ¬ AllChosen res last a b c := by
  have hthird := third_written_iff res last h a b c
  have hbounded := ((Chooses.before h).chooseAll res last [a, b, c]).bounded
  constructor
  · intro hwrites hall
    exact absurd (hwrites 2 (hthird.mpr hall)) (Nat.lt_irrefl 2)
  · intro hnot k hk
    have hlt : k < 3 := hbounded k hk
    have hne : k ≠ 2 := by
      intro heq
      rw [heq, hthird] at hk
      exact hnot hk
    exact (by omega : k < 2)

end Loop

/-- The candidates chosen so far are all different, and in flight. -/
def ChosenFrom (S : List (BitVec 32)) (v : Chosen) : Prop :=
  ∃ chosen rest, v.inFlight = chosen ++ rest ∧ chosen.length + rest.length = 32 ∧ chosen.Nodup ∧
    chosen ⊆ S ∧ v.prefIndex ≤ chosen.length

theorem ChosenFrom.step {S : List (BitVec 32)} (hS : S.length ≤ 3) {v : Chosen}
    (h : ChosenFrom S v) {cand : BitVec 32} (hcand : cand ∈ S) (inCache : Bool)
    (last : BitVec 32) : ChosenFrom S (choose inCache last v cand) := by
  rcases h with ⟨chosen, rest, hflight, hlength, hnodup, hsub, hindex⟩
  have hshort : chosen.length ≤ 3 := ((hnodup.subperm hsub).length_le).trans hS
  -- Whoever is chosen was not in flight, so the chosen ones are different candidates and
  -- there are three at most.
  by_cases hfresh : cand ∉ v.inFlight ∧ inCache = false
  · have hrest : rest ≠ [] := by
      rintro rfl
      rw [List.length_nil] at hlength
      omega
    have hnew : cand ∉ chosen := fun hmem => hfresh.1 (hflight ▸ List.mem_append_left rest hmem)
    refine ⟨cand :: chosen, rest.dropLast, ?_, ?_, hnodup.cons hnew,
      List.cons_subset.mpr ⟨hcand, hsub⟩, ?_⟩
    · rw [choose_inFlight, if_pos hfresh, hflight, List.dropLast_append_of_ne_nil hrest]
      rfl
    · have hpos := List.length_pos_iff.mpr hrest
      rw [List.length_cons, List.length_dropLast]
      omega
    · rw [choose_prefIndex, if_pos hfresh, List.length_cons]
      split <;> omega
  · refine ⟨chosen, rest, ?_, hlength, hnodup, hsub, ?_⟩
    · rw [choose_inFlight, if_neg hfresh, hflight]
    · rw [choose_prefIndex, if_neg hfresh]
      split <;> omega

theorem ChosenFrom.chooseAll {S : List (BitVec 32)} (hS : S.length ≤ 3) (res : Addr → Bool)
    (last : BitVec 32) {cands : List (BitVec 32)} (hcands : cands ⊆ S) {v : Chosen}
    (h : ChosenFrom S v) : ChosenFrom S (chooseAll res last cands v) := by
  induction cands generalizing v with
  | nil => exact h
  | cons cand cands ih =>
      rcases List.cons_subset.mp hcands with ⟨hcand, hcands⟩
      exact ih hcands (h.step hS hcand _ last)

/-- No block that is chosen is in the cache. -/
def AllNew (g : Geometry) (res : Addr → Bool) (v : Chosen) : Prop :=
  ∀ k < v.prefIndex, res (g.requestAddr (v.prefetch.cell k)) = false

theorem AllNew.step {res : Addr → Bool} {v : Chosen} (h : AllNew g res v) (last cand : BitVec 32) :
    AllNew g res (choose (res (g.requestAddr cand)) last v cand) := by
  intro k hk
  rw [choose_prefIndex] at hk
  split at hk
  · exact absurd hk (Nat.not_lt_zero k)
  · rename_i hlast
    unfold choose
    rw [if_neg hlast]
    split at hk
    · rename_i hfresh
      rw [if_pos hfresh]
      -- The cells below the index are the old ones, and the last one is new to the cache.
      rcases Nat.lt_succ_iff_lt_or_eq.mp hk with hk | rfl
      · have hcell := h k hk
        rwa [← Function.update_of_ne hk.ne cand v.prefetch.cell] at hcell
      · have hcell := hfresh.2
        rwa [← Function.update_self v.prefIndex cand v.prefetch.cell] at hcell
    · rename_i hknown
      rw [if_neg hknown]
      exact h k hk

theorem AllNew.chooseAll {res : Addr → Bool} (last : BitVec 32) (cands : List (BitVec 32))
    {v : Chosen} (h : AllNew g res v) :
    AllNew g res (chooseAll (fun cand => res (g.requestAddr cand)) last cands v) := by
  induction cands generalizing v with
  | nil => exact h
  | cons cand cands ih => exact ih (h.step last cand)

/-! ### Calls -/

/-- A call requests blocks that are not in the cache. -/
theorem openEndedCall_requests_new (g : Geometry) (res : Addr → Bool) (PC addr : Addr)
    (row : Nat → BitVec 32) : ∀ r ∈ (openEndedCall g res PC addr row).requests,
      (∃ x, r = g.requestAddr x) ∧ res r = false := by
  rw [openEndedCall]
  split
  · rw [chosenRequests]
    dsimp only
    intro r hr
    rcases List.mem_map.mp hr with ⟨x, hx, rfl⟩
    rcases List.mem_map.mp hx with ⟨k, hk, rfl⟩
    have hbefore : ∀ row, AllNew g res (chosenBefore row) := fun _ k hk =>
      absurd hk (Nat.not_lt_zero k)
    -- Only cells below the index are requested.
    refine ⟨⟨_, rfl⟩, (hbefore _).chooseAll _ _ k ?_⟩
    exact (List.mem_range.mp hk).trans_le (min_le_left _ _)
  · exact List.forall_mem_nil _

/-- A call requests at most three blocks: there are no more different
    candidates. -/
theorem openEndedCall_length_le (g : Geometry) (res : Addr → Bool) (PC addr : Addr)
    (row : Nat → BitVec 32) : (openEndedCall g res PC addr row).requests.length ≤ 3 := by
  rw [openEndedCall]
  split
  · have hfound := findCandidates_collects addr (recordDelta_within PC addr row)
    generalize (recordDelta PC addr (.of row)).2.cell = cell at hfound
    let S := [addr + cell 6, addr + cell 5, addr + cell 4]
    have hS : S.length ≤ 3 := Nat.le_refl 3
    -- Both places read the same three columns, so there are three different values at most.
    have hall : ∀ (c : Prop) [Decidable c] (js : List Nat), js ⊆ [6, 5, 4] →
        (if c then js.map fun j => addr + cell j else []) ⊆ S := by
      intro c _ js hjs
      split
      · exact List.map_subset _ hjs
      · exact List.nil_subset _
    have hcands : candidates addr cell ⊆ S :=
      List.append_subset.mpr ⟨hall _ [6, 5, 4] fun _ h => h, hall _ [5, 4] fun _ h =>
        List.mem_cons_of_mem 6 h⟩
    rw [chosenRequests, hfound.counter, hfound.cands]
    dsimp only
    rw [List.length_map, List.length_map, List.length_range]
    have hbefore : ChosenFrom S (chosenBefore
        ((findCandidates addr (recordDelta PC addr (.of row)).2).row.read 2).2) :=
      ⟨[], _, rfl, rfl, List.nodup_nil, List.nil_subset _, Nat.zero_le _⟩
    rcases hbefore.chooseAll hS (fun cand => res (g.requestAddr cand)) _ hcands
      with ⟨chosen, rest, -, -, hnodup, hsub, hindex⟩
    exact (min_le_left _ _).trans (hindex.trans ((hnodup.subperm hsub).length_le))
  · exact Nat.zero_le 3

theorem chosenRequests_inBounds_iff (res : Addr → Bool) {v : Candidates}
    {cell : Nat → BitVec 32} {l : List (BitVec 32)} (h : Collects cell v l) :
    InBounds (chosenRequests g res v) ↔ l.length ≤ 4 ∧ ∀ k ∈
      (chooseAll (fun cand => res (g.requestAddr cand)) (cell 2) l
        (chosenBefore (v.row.read 2).2)).prefetch.writes, k < DELTAS - 4 := by
  have hstart : (v.row.read 2).2.Within OPEN_COLS := h.within.read (by decide)
  have hchosen : Chooses l.length (chooseAll (fun cand => res (g.requestAddr cand)) (cell 2) l
      (chosenBefore (v.row.read 2).2)) := by
    rw [← Nat.zero_add l.length]
    exact (Chooses.before hstart).chooseAll _ _ l
  rw [chosenRequests, h.counter, h.cands, h.row]
  constructor
  · rintro ⟨-, hcand, hprefetch, -⟩
    refine ⟨?_, hprefetch⟩
    -- Five candidates write past the array of four.
    by_contra hlong
    exact absurd (hcand 4 ((h.writes 4).mpr (by omega))) (by decide)
  · rintro ⟨hlength, hprefetch⟩
    refine ⟨hchosen.row, fun i hi => ?_, hprefetch, fun i hi => ?_⟩
    · exact lt_of_lt_of_le ((h.writes i).mp hi) hlength
    · rcases List.mem_append.mp hi with hi | hi
      · refine hchosen.filled i ?_
        exact lt_of_lt_of_le (List.mem_range.mp (List.mem_reverse.mp hi)) (min_le_left _ _)
      · exact absurd (hchosen.unread ▸ hi) List.not_mem_nil

theorem Entered.candidatesAt_eight {addr : Addr} {row : Nat → BitVec 32} {r : Traced (BitVec 32)}
    (h : Entered addr row r) : candidatesAt addr r.cell 8 =
      if Repeats addr row 6 then [addr + row 5, addr + row 4, addr + row 3] else [] := by
  have h3 := h.older 3 (by decide)
  have h4 := h.older 4 (by decide)
  have h5 := h.older 5 (by decide)
  refine if_congr ?_ ?_ rfl
  · rw [h.newest, h.older 7 (by decide), h.older 6 (by decide), h3]
    exact Iff.rfl
  · rw [← h5, ← h4, ← h3]
    rfl

theorem Entered.candidatesAt_seven {addr : Addr} {row : Nat → BitVec 32} {r : Traced (BitVec 32)}
    (h : Entered addr row r) : candidatesAt addr r.cell 7 =
      if Repeats addr row 5 then [addr + row 4, addr + row 3] else [] := by
  have h3 := h.older 3 (by decide)
  have h4 := h.older 4 (by decide)
  refine if_congr ?_ ?_ rfl
  · rw [h.newest, h.older 6 (by decide), h.older 5 (by decide), h3]
    exact Iff.rfl
  · rw [← h4, ← h3]
    rfl

/-- When a call stays inside its arrays. -/
theorem openEndedCall_inBounds_iff (g : Geometry) (res : Addr → Bool) (PC addr : Addr)
    (row : Nat → BitVec 32) :
    InBounds (openEndedCall g res PC addr row) ↔ ¬ Overruns g res PC addr row := by
  rw [openEndedCall]
  by_cases hmoved : row 0 = PC ∧ addr ≠ row 1
  · rcases recordDelta_moved hmoved.1 hmoved.2 with ⟨htrue, hr⟩
    have hfound := findCandidates_collects addr hr.within
    have hstart : ((findCandidates addr (recordDelta PC addr (.of row)).2).row.read 2).2.Within
        OPEN_COLS := hfound.within.read (by decide)
    rw [if_pos htrue, chosenRequests_inBounds_iff res hfound, candidates, hr.candidatesAt_eight,
      hr.candidatesAt_seven, hr.lastPrefetch]
    by_cases h6 : Repeats addr row 6
    · rw [if_pos h6]
      -- Found at both places, three and two candidates are collected.
      by_cases h5 : Repeats addr row 5
      · rw [if_pos h5]
        refine iff_of_false (fun h => ?_) fun h => h ⟨hmoved.1, hmoved.2, h6, .inl h5⟩
        exact absurd h.1 (Nat.lt_irrefl 4)
      · rw [if_neg h5, List.append_nil]
        refine (and_iff_right (Nat.le_succ 3)).trans
          ((three_bounded_iff _ _ hstart _ _ _).trans (not_congr ⟨fun h => ?_, fun h => ?_⟩))
        · exact ⟨hmoved.1, hmoved.2, h6, .inr h⟩
        · exact h.2.2.2.resolve_left h5
    · rw [if_neg h6, List.nil_append]
      refine iff_of_true ?_ fun h => h6 h.2.2.1
      -- the loop of `n` candidates writes below `n` or initializes the array
      have hbounded := fun cands : List (BitVec 32) => ((Chooses.before hstart).chooseAll
        (fun cand => res (g.requestAddr cand)) (row 2) cands).bounded
      split
      · exact ⟨Nat.le_add_left 2 2, hbounded _⟩
      · exact ⟨Nat.zero_le 4, hbounded _⟩
  · have hrow := recordDelta_within PC addr row
    rw [if_neg (by rw [recordDelta_still hmoved]; exact Bool.false_ne_true)]
    exact iff_of_true ⟨hrow, List.forall_mem_nil _, List.forall_mem_nil _, List.forall_mem_nil _⟩
      fun h => hmoved ⟨h.1, h.2.1⟩

/-- A call that enters no delta, or does not find the newest pair further
    back, requests nothing. -/
theorem openEndedCall_of_not_repeats {PC addr : Addr} {row : Nat → BitVec 32} (g : Geometry)
    (res : Addr → Bool) (h : NotFound PC addr row) :
    (openEndedCall g res PC addr row).requests = [] ∧
      (openEndedCall g res PC addr row).row.cell = (recordDelta PC addr (.of row)).2.cell := by
  rw [openEndedCall]
  by_cases hmoved : row 0 = PC ∧ addr ≠ row 1
  · rcases recordDelta_moved hmoved.1 hmoved.2 with ⟨htrue, hr⟩
    have hfound := findCandidates_collects addr hr.within
    rw [candidates, hr.candidatesAt_eight, hr.candidatesAt_seven,
      if_neg fun h6 => h ⟨hmoved.1, hmoved.2, .inl h6⟩,
      if_neg fun h5 => h ⟨hmoved.1, hmoved.2, .inr h5⟩] at hfound
    rw [if_pos htrue, chosenRequests, hfound.counter]
    exact ⟨rfl, hfound.row⟩
  · -- Nothing was entered, so the call ends before it looks for the pair.
    rw [if_neg (by rw [recordDelta_still hmoved]; exact Bool.false_ne_true)]
    exact ⟨rfl, rfl⟩

/-- A call that finds the pair at the newer place, and whose second candidate
    is in the cache, requests the first one. -/
theorem openEndedCall_requests {PC addr : Addr} {row : Nat → BitVec 32} {g : Geometry}
    {res : Addr → Bool} (hmoved : row 0 = PC ∧ addr ≠ row 1) (h6 : ¬ Repeats addr row 6)
    (h5 : Repeats addr row 5) (hnew : addr + row 4 ≠ -1) (hlast : addr + row 4 ≠ row 2)
    (hlast' : addr + row 3 ≠ row 2) (hres : res (g.requestAddr (addr + row 4)) = false)
    (hres' : res (g.requestAddr (addr + row 3)) = true) :
    (openEndedCall g res PC addr row).requests = [g.requestAddr (addr + row 4)] := by
  rcases recordDelta_moved hmoved.1 hmoved.2 with ⟨htrue, hr⟩
  have hfound := findCandidates_collects addr hr.within
  rw [candidates, hr.candidatesAt_eight, hr.candidatesAt_seven, if_neg h6, if_pos h5] at hfound
  let v := (findCandidates addr (recordDelta PC addr (.of row)).2).row.read 2
  have hfirst : choose false (row 2) (chosenBefore v.2) (addr + row 4) =
      { row := v.2.write 2 (addr + row 4)
        prefetch := (chosenBefore v.2).prefetch.write 0 (addr + row 4)
        prefIndex := 1, inFlight := (addr + row 4) :: List.replicate 31 (-1) } := by
    unfold choose
    rw [if_neg hlast]
    exact if_pos ⟨(notMem_replicate _ 31).mpr hnew, rfl⟩
  -- A candidate that is in the cache changes nothing.
  have hsecond : ∀ u, choose true (row 2) u (addr + row 3) = u := by
    intro u
    unfold choose
    rw [if_neg hlast']
    exact if_neg fun h => Bool.false_ne_true h.2.symm
  rw [openEndedCall, if_pos htrue, chosenRequests, hfound.counter]
  dsimp only
  rw [hfound.cands, hfound.row, hr.lastPrefetch, List.nil_append, List.foldl_cons, List.foldl_cons,
    List.foldl_nil, hres, hres', hsecond, hfirst]
  rfl

/-- The calls of `open_ended_prefetcher` in runs, by the state in which they
    are made: an access to the address, at any `PC`, has just been served. -/
def Called (g : Geometry) (out : Outside (Tables × ω)) (t : Tables) (w : ω) (addr : Addr)
    (s : Sys g (Tables × ω)) : Prop :=
  g.prefetchType = 2 ∧ ∃ ops s₀ cmd nbytes now answer, run g out t w ops = .ok s₀ ∧
    checkAccess g addr nbytes = .ok () ∧ serve out cmd addr now false s₀ = .ok (answer, s)

theorem Called.inv {out : Outside (Tables × ω)} {t : Tables} {w : ω} {addr : Addr}
    {s : Sys g (Tables × ω)} (h : Called g out t w addr s) : ∃ ord, Inv s.cache ord := by
  rcases h with ⟨-, ops, s₀, cmd, nbytes, now, answer, hrun, -, hserve⟩
  exact served_inv hrun hserve

/-- Every call in every run stays inside its arrays if and only if it does not
    overrun them. -/
theorem calls_in_bounds_iff (g : Geometry) (out : Outside (Tables × ω)) (t : Tables) (w : ω)
    (PC addr : Addr) (s : Sys g (Tables × ω)) (h : Called g out t w addr s) :
    ∃ v, openEndedRow g s.cache.probe (PC >>> 2) addr (s.tables.DCPT (dcptIndex PC)) = .ok v ∧
      (InBounds v ↔
        ¬ Overruns g s.cache.resident (PC >>> 2) addr (s.tables.DCPT (dcptIndex PC))) := by
  rcases h.inv with ⟨ord, hc⟩
  rw [probe_eq hc, openEndedRow_eq]
  exact ⟨_, rfl, openEndedCall_inBounds_iff g _ _ _ _⟩

/-- A cache of one block with this prefetcher. -/
def oneBlockDelta : Geometry :=
  { oneBlock with prefetchType := 2, prefetchType_lt := two_lt_int }

/-- The program has read one byte and reads the one before it. -/
theorem descending_called : ∃ s, Called oneBlockDelta memory (Tables.initial.create 2) () 8 s ∧
    Overruns oneBlockDelta s.cache.resident (4 >>> 2) 8 (s.tables.DCPT (dcptIndex 4)) := by
  refine ⟨_, ⟨rfl, [.demand 4 .Read 9 1 0], _, .Read, 1, 0, _, rfl, rfl, rfl⟩, ?_⟩
  exact ⟨rfl, by decide, ⟨rfl, rfl⟩, .inl ⟨rfl, rfl⟩⟩

/-- A call with a delta of minus one is made in a run, which overruns. -/
theorem calls_in_bounds_descending : ∃ s v,
    openEndedRow oneBlockDelta s.cache.probe (4 >>> 2) 8 (s.tables.DCPT (dcptIndex 4)) = .ok v ∧
      Called oneBlockDelta memory (Tables.initial.create 2) () 8 s ∧ ¬ InBounds v := by
  rcases descending_called with ⟨s, hcalled, hoverruns⟩
  rcases calls_in_bounds_iff _ _ _ _ 4 8 s hcalled with ⟨v, hv, hiff⟩
  exact ⟨s, v, hv, hcalled, fun h => hiff.mp h hoverruns⟩

/-- The program reads a byte, and then the one before it at the same `PC`. The
    second call collects five candidates. -/
theorem descending_overruns : ¬ ∀ (PC addr : Addr) (s : Sys oneBlockDelta (Tables × Unit)),
    Called oneBlockDelta memory (Tables.initial.create 2) () addr s →
      ∃ v, openEndedRow oneBlockDelta s.cache.probe (PC >>> 2) addr
        (s.tables.DCPT (dcptIndex PC)) = .ok v ∧ InBounds v := by
  intro h
  rcases descending_called with ⟨s, hcalled, hoverruns⟩
  rcases h 4 8 s hcalled with ⟨v, hv, hbounds⟩
  rcases hcalled.inv with ⟨ord, hc⟩
  rw [probe_eq hc, openEndedRow_eq] at hv
  cases hv
  exact (openEndedCall_inBounds_iff _ _ _ _ _).mp hbounds hoverruns

end Cache

end MicroArch
