import MicroArch.Cache.Delta
import MicroArch.Cache.Stride

/-!
# The History of the Delta Correlation Prefetcher

What the rows of the table of deltas hold, and which patterns of deltas the
prefetcher finds in them.

A row belongs to the last `PC` that has used it, and remembers the differences
between the addresses of that `PC`, the newest one in front, from the access
on that the row became its own. A difference of zero is not entered. What is
not filled yet holds minus one.

The newest pair of differences is looked for further back, with its two
members exchanged: the newest one is compared with the older member of a pair.
In a pattern of one or two differences this finds the pair as well. In a
pattern of three or four it does so only where two of the differences happen
to be equal.

## Main definitions

* `dcptUses`: Who has used a row.
* `deltas`: The differences between addresses.
* `Remembers`: The row holds the history of its owner.
* `streamAddr`: The addresses of a stream with given differences.
* `OpenEnded.candidates`: The candidates of a call.
* `Predictable`: When the next difference of a pattern is found.

## Theorems

* `recordDelta_remembers`: A call enters its access in the history.
* `run_remembers`: In a run, every row holds the history of its owner.
* `next_candidate_iff`: When the next address of a stream is a candidate.
* `predictable_forever_iff`: Which patterns are found at every access.
-/

namespace MicroArch

namespace Cache

variable {g : Geometry} {ω : Type}

/-! ### Histories -/

/-- The use an operation makes of a row of the table of deltas. -/
def Op.dcptUse (r : Nat) : Op → Option (Addr × Addr)
  | .demand PC _ addr _ _ => if dcptIndex PC = r then some (PC >>> 2, addr) else none
  | _ => none

theorem dcptUse_own {PC : Addr} {r : Nat} (h : dcptIndex PC = r) (cmd : Cmd) (addr : Addr)
    (nbytes : BitVec 32) (now : Tick) :
    Op.dcptUse r (.demand PC cmd addr nbytes now) = some (PC >>> 2, addr) :=
  if_pos h

theorem dcptUse_other {PC : Addr} {r : Nat} (h : dcptIndex PC ≠ r) (cmd : Cmd) (addr : Addr)
    (nbytes : BitVec 32) (now : Tick) : Op.dcptUse r (.demand PC cmd addr nbytes now) = none :=
  if_neg h

/-- The uses of a row, the latest first. -/
def dcptUses (r : Nat) (ops : List Op) : List (Addr × Addr) :=
  (ops.filterMap (Op.dcptUse r)).reverse

/-- The tag of a row. No `PC` has the tag of an unused row. -/
def dcptOwner : List (Addr × Addr) → Addr
  | [] => -1
  | (PC, _) :: _ => PC

/-- The differences between addresses that follow each other, where they
    differ. The latest come first. -/
def deltas : List Addr → List (BitVec 32)
  | addr :: last :: l =>
    if addr - last ≠ 0 then (addr - last) :: deltas (last :: l) else deltas (last :: l)
  | _ => []

/-- The row holds its owner, the owner's last address, and its latest
    differences. -/
structure Remembers (l : List (Addr × Addr)) (cell : Nat → BitVec 32) : Prop where
  tag : cell 0 = dcptOwner l
  last : ∀ addr ∈ (ownAddrs l).head?, cell 1 = addr
  deltas : ∀ j < DELTAS, cell (3 + j) = (deltas (ownAddrs l)).getD j (-1)

/-- The addresses of the owner, after a use of the row. -/
theorem ownAddrs_use (u : Addr × Addr) (l : List (Addr × Addr)) :
    ownAddrs (u :: l) = u.2 :: if owner l = u.1 then ownAddrs l else [] :=
  ownAddrs_cons u.1 u.2 l

/-- Column 1 holds the address of the latest use. -/
theorem Remembers.latest {u : Addr × Addr} {l : List (Addr × Addr)} {cell : Nat → BitVec 32}
    (h : Remembers (u :: l) cell) : cell 1 = u.2 := by
  refine h.last u.2 ?_
  rw [ownAddrs_use]
  rfl

theorem recordDelta_tag (PC addr : Addr) (row : Nat → BitVec 32) :
    (recordDelta PC addr (.of row)).2.cell 0 = PC := by
  unfold recordDelta
  dsimp only [Traced.read, Traced.of]
  by_cases hPC : row 0 = PC
  · rw [if_neg (not_not.mpr hPC)]
    split
    · exact hPC
    · exact hPC
  · rw [if_pos hPC]
    rfl

theorem recordDelta_last (PC addr : Addr) (row : Nat → BitVec 32) :
    (recordDelta PC addr (.of row)).2.cell 1 = addr := by
  unfold recordDelta
  dsimp only [Traced.read, Traced.of]
  split
  · rfl
  · split
    · rfl
    · rename_i hsame
      -- The address did not move, so the old one is the new one.
      have hzero : addr - row 1 = 0 := not_not.mp hsame
      change row 1 = addr
      bv_omega

/-- A row that is given away forgets its differences. -/
theorem recordDelta_given {PC addr : Addr} {row : Nat → BitVec 32} (h : row 0 ≠ PC) {j : Nat}
    (hj : j < DELTAS) : (recordDelta PC addr (.of row)).2.cell (3 + j) = -1 := by
  unfold recordDelta
  dsimp only [Traced.read, Traced.of]
  rw [if_pos h]
  have hall : ∀ j ∈ List.range DELTAS,
      ((List.range' (OPEN_COLS - DELTAS) DELTAS).foldl (fun r i => Traced.write r i (-1))
        ((((Traced.mk row [0] []).write 0 PC).write 1 addr).write 2 0)).cell (3 + j) = -1 := by
    change ∀ j ∈ [0, 1, 2, 3, 4, 5], _
    simp only [List.forall_mem_cons]
    exact ⟨rfl, rfl, rfl, rfl, rfl, rfl, List.forall_mem_nil _⟩
  exact hall j (List.mem_range.mpr hj)

/-- An access to the same address leaves the row alone. -/
theorem recordDelta_same {PC : Addr} {row : Nat → BitVec 32} (h : row 0 = PC) :
    (recordDelta PC (row 1) (.of row)).2.cell = row := by
  have hzero : row 1 - row 1 = 0 := BitVec.sub_self _
  unfold recordDelta
  dsimp only [Traced.read, Traced.of]
  rw [if_neg (not_not.mpr h), if_neg (not_not.mpr hzero)]

/-- A call enters its access in the history of the row. -/
theorem recordDelta_remembers {l : List (Addr × Addr)} {cell : Nat → BitVec 32}
    (h : Remembers l cell) {PC : Addr} (hPC : PC ≠ -1) (addr : Addr) :
    Remembers ((PC, addr) :: l) (recordDelta PC addr (.of cell)).2.cell := by
  refine ⟨recordDelta_tag PC addr cell, fun a ha => ?_, fun j hj => ?_⟩
  · rw [ownAddrs_cons, List.head?_cons, Option.mem_some_iff] at ha
    rw [recordDelta_last, ha]
  · rw [ownAddrs_cons]
    cases l with
    | nil =>
        -- the row has not been used
        have hne : cell 0 ≠ PC := fun heq => hPC (heq.symm.trans h.tag)
        rw [recordDelta_given hne hj]
        split <;> rfl
    | cons u l =>
        by_cases howner : u.1 = PC
        · have htag : cell 0 = PC := h.tag.trans howner
          have hlast := h.latest
          have hhist := h.deltas
          rw [if_pos (show owner (u :: l) = PC from howner)]
          rw [ownAddrs_use] at hhist ⊢
          generalize (if owner l = u.1 then ownAddrs l else []) = rest at hhist ⊢
          -- The owner stays where it was, and its differences do not grow.
          by_cases haddr : addr = u.2
          · subst haddr
            have hzero : cell 1 - cell 1 = 0 := BitVec.sub_self _
            rw [← hlast] at hhist ⊢
            rw [recordDelta_same htag, deltas, if_neg (not_not.mpr hzero)]
            exact hhist j hj
          · -- The owner moved: the difference comes first, and the others one place further back.
            have hdelta : addr - u.2 ≠ 0 := fun h0 => haddr (by bv_omega)
            have hentered := (recordDelta_moved htag (by rwa [hlast])).2
            rw [deltas, if_pos hdelta]
            cases j with
            | zero =>
                rw [List.getD_cons_zero, ← hlast]
                exact hentered.newest
            | succ j =>
                have hmem : 3 + j ∈ [3, 4, 5, 6, 7] := by
                  have hj : j + 1 < 6 := hj
                  simp only [List.mem_cons, List.not_mem_nil, or_false]
                  omega
                rw [List.getD_cons_succ, ← hhist j (by omega)]
                exact hentered.older (3 + j) hmem
        · -- The row is given to another owner, which has no differences yet.
          have htag : cell 0 ≠ PC := fun heq => howner (h.tag.symm.trans heq)
          rw [recordDelta_given htag hj, if_neg (show owner (u :: l) ≠ PC from howner)]
          rfl

/-! ### Runs -/

/-- The last prefetch is not a part of the history. -/
theorem Remembers.congr {l : List (Addr × Addr)} {cell cell' : Nat → BitVec 32}
    (h : Remembers l cell) (hcell : ∀ i, i ≠ 2 → cell' i = cell i) : Remembers l cell' where
  tag := (hcell 0 (by decide)).trans h.tag
  last addr haddr := (hcell 1 (by decide)).trans (h.last addr haddr)
  deltas j hj := (hcell (3 + j) (by omega)).trans (h.deltas j hj)

theorem remembers_nil : Remembers [] fun _ => -1 where
  tag := rfl
  last := nofun
  deltas _ _ := rfl

/-- The row of an operation with its access entered, but for the last
    prefetch. -/
def Op.dcptRow (r : Nat) (op : Op) (row : Nat → BitVec 32) : Nat → BitVec 32 :=
  match op.dcptUse r with
  | some (PC, addr) => (recordDelta PC addr (.of row)).2.cell
  | none => row

theorem choose_row (inCache : Bool) (last cand : BitVec 32) (v : Chosen) {i : Nat} (hi : i ≠ 2) :
    (choose inCache last v cand).row.cell i = v.row.cell i := by
  unfold choose
  split <;> split
  · exact Function.update_of_ne hi _ _
  · exact Function.update_of_ne hi _ _
  · rfl
  · rfl

/-- Whatever is requested, the rest of the row stays as it is. -/
theorem chooseRequests_row (probe : Addr → Except Fault Bool) (v : Candidates) :
    Ends (fun _ => True) (chooseRequests g probe v) fun u =>
      ∀ i, i ≠ 2 → u.row.cell i = v.row.cell i := by
  unfold chooseRequests
  dsimp only
  refine Ends.bind (P := fun u : Chosen => ∀ i, i ≠ 2 → u.row.cell i = v.row.cell i) ?_
    fun u hu => .ret hu
  refine Ends.foldlM (fun _ (u : Chosen) => ∀ i, i ≠ 2 → u.row.cell i = v.row.cell i) _
    (fun _ _ => rfl) fun _ cand u _ hu => ?_
  exact (Ends.any (probe _)).bind fun inCache _ =>
    .ret fun i hi => (choose_row inCache _ cand u hi).trans (hu i hi)

theorem openEndedRow_row (probe : Addr → Except Fault Bool) (PC addr : Addr)
    (row : Nat → BitVec 32) :
    Ends (fun _ => True) (openEndedRow g probe PC addr row) fun v =>
      ∀ i, i ≠ 2 → v.row.cell i = (recordDelta PC addr (.of row)).2.cell i := by
  have hfound := findCandidates_collects addr (recordDelta_within PC addr row)
  unfold openEndedRow
  dsimp only
  refine Ends.ite (fun _ => (chooseRequests_row probe _).mono fun v hv i hi => ?_)
    fun _ => .ret fun _ _ => rfl
  rw [hv i hi, hfound.row]

theorem generatePrefetch_delta (htype : g.prefetchType = 2) (probe : Addr → Except Fault Bool)
    (PC addr : Addr) (t : Tables) :
    generatePrefetch g probe PC addr t = openEndedPrefetcher g probe PC addr t := by
  unfold generatePrefetch
  rw [htype]
  rfl

/-- The rows of a table after an operation. -/
def Enters (op : Op) (t t' : Tables) : Prop :=
  ∀ r i, i ≠ 2 → t'.DCPT r i = op.dcptRow r (t.DCPT r) i

theorem generate_enters (htype : g.prefetchType = 2) (out : Outside ω) (PC addr : Addr)
    (s : Sys g (Tables × ω)) (cmd : Cmd) (nbytes : BitVec 32) (now : Tick) :
    Ends (fun _ => True) (generate out.alone PC addr s) fun s' =>
      Enters (.demand PC cmd addr nbytes now) s.tables s'.tables := by
  have hpredict : Ends (fun _ => True) (openEndedPrefetcher g s.cache.probe PC addr s.tables)
      fun r => Enters (.demand PC cmd addr nbytes now) s.tables r.1 := by
    unfold openEndedPrefetcher
    dsimp only
    refine (openEndedRow_row _ _ _ _).bind fun v hv => .ret fun r i hi => ?_
    -- The row of the `PC` is replaced, and every other one is kept.
    by_cases hr : dcptIndex PC = r
    · rw [Op.dcptRow, dcptUse_own hr]
      subst hr
      exact (congrFun (Function.update_self ..) i).trans (hv i hi)
    · rw [Op.dcptRow, dcptUse_other hr]
      exact congrFun (Function.update_of_ne (Ne.symm hr) ..) i
  unfold generate
  rw [generatePrefetch_delta htype]
  refine hpredict.bind fun r hr => ?_
  refine (requests_frame (keeps_alone out r.1) r.2 rfl).mono fun s' hs' => ?_
  have htables : s'.tables = r.1 := hs'.1
  rwa [htables]

theorem step_enters (htype : g.prefetchType = 2) (out : Outside ω) (s : Sys g (Tables × ω))
    (op : Op) : Ends (fun _ => True) (step out.alone s op) fun s' =>
      Enters op s.tables s'.tables := by
  have hout := keeps_alone out s.tables
  have hquiet : ∀ {op : Op} {s' : Sys g (Tables × ω)}, (∀ r, op.dcptUse r = none) →
      Frame (fun x => x.1 = s.tables) s.env s'.env → Enters op s.tables s'.tables := by
    -- Prefetches and flushes call no prefetcher, so no row is used.
    intro op s' huse hs' r i _
    have htables : s'.tables = s.tables := hs'.1
    rw [Op.dcptRow, huse, htables]
  cases op with
  | demand PC cmd addr nbytes now =>
      have hgenerate : ∀ s', Frame (fun x => x.1 = s.tables) s.env s'.env →
          Ends (fun _ => True) (generate out.alone PC addr s') fun s'' =>
            Enters (.demand PC cmd addr nbytes now) s.tables s''.tables := by
        intro s' hs'
        have htables : s'.tables = s.tables := hs'.1
        rw [← htables]
        exact generate_enters htype out PC addr s' cmd nbytes now
      exact (cacheAccess_ends (fun _ _ => trivial) (serveKeeps_frame hout s.env) hgenerate cmd addr
        nbytes now (.refl rfl)).bind fun _ hr => .ret hr
  | prefetch addr nbytes now =>
      exact (prefetchAccess_ends (fun _ _ => trivial) (serveKeeps_frame hout s.env) .Read addr
        nbytes now (.refl rfl)).bind fun _ hr => .ret (hquiet (fun _ => rfl) hr)
  | flush now =>
      exact (flush_frame hout now s.cache rfl).bind fun _ hr => .ret (hquiet (fun _ => rfl) hr)
  | flushAddr addr now =>
      exact (flushAddr_frame hout addr now s.cache rfl).bind fun _ hr =>
        .ret (hquiet (fun _ => rfl) hr)

theorem dcptUses_append (r : Nat) (ops : List Op) (op : Op) :
    dcptUses r (ops ++ [op]) = (op.dcptUse r).toList ++ dcptUses r ops :=
  reverse_filterMap_append _ _ _

/-- A shifted `PC` is not the tag of an unused row. -/
theorem shifted_ne (PC : Addr) : PC >>> 2 ≠ -1 := by
  intro h
  have hnat := congrArg BitVec.toNat h
  have hlt := PC.isLt
  rw [BitVec.toNat_ushiftRight, Nat.shiftRight_eq_div_pow] at hnat
  have hone : (-1 : BitVec 32).toNat = 4294967295 := rfl
  omega

/-- No use of a row has its tag. -/
theorem dcptUse_ne {r : Nat} {op : Op} {PC addr : Addr} (h : op.dcptUse r = some (PC, addr)) :
    PC ≠ -1 := by
  cases op with
  | demand PC' cmd addr' nbytes now =>
      by_cases hr : dcptIndex PC' = r
      · rw [dcptUse_own hr] at h
        cases h
        exact shifted_ne PC'
      · rw [dcptUse_other hr] at h
        exact absurd h nofun
  | prefetch _ _ _ => exact absurd h nofun
  | flush _ => exact absurd h nofun
  | flushAddr _ _ => exact absurd h nofun

/-- In a run, every row holds the history of its owner. -/
theorem run_remembers (htype : g.prefetchType = 2) (out : Outside ω) (t : Tables) (w : ω)
    (ops : List Op) : Ends (fun _ => True) (run g out.alone (t.create g.prefetchType) w ops)
      fun s => ∀ r, Remembers (dcptUses r ops) (s.tables.DCPT r) := by
  refine Ends.foldlM (fun pre (s : Sys g (Tables × ω)) =>
    ∀ r, Remembers (dcptUses r pre) (s.tables.DCPT r)) ops (fun r => ?_) ?_
  · change Remembers [] ((t.create g.prefetchType).DCPT r)
    rw [htype]
    exact remembers_nil
  · intro pre op s _ hs
    refine (step_enters htype out s op).mono fun s' hs' r => ?_
    refine Remembers.congr ?_ (hs' r)
    rw [dcptUses_append, Op.dcptRow]
    -- Uses of other rows leave this one as it is.
    rcases huse : op.dcptUse r with _ | ⟨PC, addr⟩
    · exact hs r
    · exact recordDelta_remembers (hs r) (dcptUse_ne huse) addr

/-- And so it does when the next access has been served. -/
theorem served_remembers (htype : g.prefetchType = 2) {out : Outside ω} {t : Tables} {w : ω}
    {ops : List Op} {cmd : Cmd} {addr : Addr} {now : Tick} {answer : Answer g}
    {s₀ s : Sys g (Tables × ω)} (hrun : run g out.alone (t.create g.prefetchType) w ops = .ok s₀)
    (hserve : serve out.alone cmd addr now false s₀ = .ok (answer, s)) :
    (∃ ord, Inv s.cache ord) ∧ ∀ r, Remembers (dcptUses r ops) (s.tables.DCPT r) := by
  have htables : s.tables = s₀.tables :=
    (((serve_frame (keeps_alone out s₀.tables) cmd trivial now false rfl).of_eq hserve).1 :)
  refine ⟨served_inv hrun hserve, ?_⟩
  rw [htables]
  exact (run_remembers htype out t w ops).of_eq hrun

/-! ### Streams -/

/-- The addresses of a stream, from the first one and the differences. -/
def streamAddr (a : Addr) (d : Nat → BitVec 32) : Nat → Addr
  | 0 => a
  | n + 1 => streamAddr a d n + d n

/-- The uses that `n` accesses of a stream make of a row, the latest first. -/
def streamUses (PC a : Addr) (d : Nat → BitVec 32) : Nat → List (Addr × Addr)
  | 0 => []
  | n + 1 => (PC, streamAddr a d n) :: streamUses PC a d n

/-- The first `n` differences, the latest first. -/
def latest (d : Nat → BitVec 32) : Nat → List (BitVec 32)
  | 0 => []
  | n + 1 => d n :: latest d n

/-- The candidates a call has computed. -/
def OpenEnded.candidates (v : OpenEnded) : List (BitVec 32) := v.cand.writes.map v.cand.cell

/-- The pair of the two latest differences is found in exchanged order, and
    the next difference is one of those behind it. -/
def Found (d : Nat → BitVec 32) (n : Nat) : Prop :=
  (d n = d (n + 5) ∧ d (n + 1) = d (n + 4) ∧
      (d (n + 6) = d (n + 2) ∨ d (n + 6) = d (n + 3) ∨ d (n + 6) = d (n + 4))) ∨
    (d (n + 1) = d (n + 5) ∧ d (n + 2) = d (n + 4) ∧
      (d (n + 6) = d (n + 3) ∨ d (n + 6) = d (n + 4)))

section Stream

variable {PC a : Addr} {d : Nat → BitVec 32}

theorem ownAddrs_streamUses (n : Nat) :
    ownAddrs (streamUses PC a d n) = (streamUses PC a d n).map Prod.snd := by
  induction n with
  | zero => rfl
  | succ n ih =>
      rw [streamUses, ownAddrs_cons, List.map_cons, ih]
      cases n with
      | zero => rw [streamUses, List.map_nil, ite_self]
      | succ n => exact congrArg _ (if_pos rfl)

theorem deltas_streamUses (hd : ∀ i, d i ≠ 0) (n : Nat) :
    deltas ((streamUses PC a d (n + 1)).map Prod.snd) = latest d n := by
  induction n with
  | zero => rfl
  | succ n ih =>
      have hdelta : streamAddr a d (n + 1) - streamAddr a d n = d n := by
        rw [streamAddr]
        bv_omega
      change deltas (streamAddr a d (n + 1) :: streamAddr a d n :: _) = _
      rw [deltas, hdelta, if_pos (hd n), latest, ← ih]
      rfl

/-- A row that remembers a stream is entered the next difference. -/
theorem Remembers.recorded {cell : Nat → BitVec 32} {n : Nat}
    (h : Remembers (streamUses PC a d (n + 1)) cell) (hd : ∀ i, d i ≠ 0) :
    (recordDelta PC (streamAddr a d (n + 1)) (.of cell)).1 = true := by
  have hlast : cell 1 = streamAddr a d n := by
    refine h.last _ ?_
    rw [ownAddrs_streamUses]
    rfl
  have hmoved : streamAddr a d (n + 1) ≠ cell 1 := by
    intro heq
    rw [hlast, streamAddr] at heq
    exact hd n (by bv_omega)
  exact (recordDelta_moved h.tag hmoved).1

/-- The candidates of a call that enters a difference. -/
theorem mem_candidates_iff (res : Addr → Bool) {addr : Addr} {row : Nat → BitVec 32}
    (htrue : (recordDelta PC addr (.of row)).1 = true) (cand : BitVec 32) :
    cand ∈ (openEndedCall g res PC addr row).candidates ↔
      cand ∈ candidates addr (recordDelta PC addr (.of row)).2.cell := by
  have hfound := findCandidates_collects addr (recordDelta_within PC addr row)
  have hcall : (openEndedCall g res PC addr row).candidates =
      (findCandidates addr (recordDelta PC addr (.of row)).2).cand.writes.map
        (findCandidates addr (recordDelta PC addr (.of row)).2).cand.cell := by
    rw [openEndedCall, if_pos htrue]
    rfl
  have hcands := hfound.cands
  rw [hcall, ← hcands, List.mem_map, List.mem_map]
  exact exists_congr fun i => and_congr_left fun _ => (hfound.writes i).trans List.mem_range.symm

/-- The next address of a stream is a candidate if and only if the next
    difference is found. -/
theorem Remembers.next_mem_iff (res : Addr → Bool) {cell : Nat → BitVec 32} {n : Nat}
    (h : Remembers (streamUses PC a d (n + 6)) cell) (hd : ∀ i, d i ≠ 0) (hPC : PC ≠ -1) :
    streamAddr a d (n + 7) ∈ (openEndedCall g res PC (streamAddr a d (n + 6)) cell).candidates ↔
      Found d n := by
  rw [mem_candidates_iff res (h.recorded hd)]
  have hcells := (recordDelta_remembers h hPC (streamAddr a d (n + 6))).deltas
  change ∀ j < DELTAS, _ = (Cache.deltas (ownAddrs (streamUses PC a d (n + 7)))).getD j (-1)
    at hcells
  rw [ownAddrs_streamUses, deltas_streamUses hd] at hcells
  -- The columns hold the six newest differences, the newest one first.
  generalize (recordDelta PC (streamAddr a d (n + 6)) (.of cell)).2.cell = cell' at hcells
  have h0 : cell' 3 = d (n + 5) := hcells 0 (by decide)
  have h1 : cell' 4 = d (n + 4) := hcells 1 (by decide)
  have h2 : cell' 5 = d (n + 3) := hcells 2 (by decide)
  have h3 : cell' 6 = d (n + 2) := hcells 3 (by decide)
  have h4 : cell' 7 = d (n + 1) := hcells 4 (by decide)
  have h5 : cell' 8 = d n := hcells 5 (by decide)
  -- The next address is a candidate where the next difference stands in a column looked at.
  have hmem : ∀ (c : Prop) [Decidable c] (js : List Nat),
      streamAddr a d (n + 7) ∈ (if c then js.map fun j => streamAddr a d (n + 6) + cell' j else [])
        ↔ c ∧ ∃ j ∈ js, d (n + 6) = cell' j := by
    intro c _ js
    by_cases hc : c
    · have hnext : streamAddr a d (n + 7) = streamAddr a d (n + 6) + d (n + 6) := rfl
      rw [if_pos hc, List.mem_map, and_iff_right hc, hnext]
      refine exists_congr fun j => and_congr_right fun _ => ?_
      rw [eq_comm, BitVec.add_right_inj]
    · rw [if_neg hc]
      exact iff_of_false List.not_mem_nil fun h => hc h.1
  rw [candidates, List.mem_append, candidatesAt, candidatesAt, hmem, hmem, h0, h1, h4, h5]
  change _ ∧ (∃ j ∈ [6, 5, 4], _) ∨ (_ ∧ cell' 6 = _) ∧ (∃ j ∈ [5, 4], _) ↔ _
  simp only [List.mem_cons, List.not_mem_nil, or_false, exists_eq_or_imp, exists_eq_left, h1, h2,
    h3, and_assoc]
  exact Iff.rfl

end Stream

/-- When the next difference of a pattern is found: always, if the pattern has
    at most two. In one of three, the latest difference has to be the same as
    the next one or the one before. In one of four, the one before the latest
    has to be the same as the latest or the next one. -/
def Predictable (p : Nat) (d : Nat → BitVec 32) (n : Nat) : Prop :=
  p ≤ 2 ∨ (p = 3 ∧ (d (n - 1) = d n ∨ d (n - 1) = d (n - 2))) ∨
    (p = 4 ∧ (d (n - 2) = d (n - 1) ∨ d (n - 2) = d n))

instance (p : Nat) (d : Nat → BitVec 32) (n : Nat) : Decidable (Predictable p d n) :=
  inferInstanceAs (Decidable (_ ∨ _))

section Pattern

variable {d : Nat → BitVec 32} {p : Nat}

theorem found_iff (hp : 1 ≤ p ∧ p ≤ 4) (hperiod : ∀ i, d (i + p) = d i) (n : Nat) :
    Found d n ↔ Predictable p d (n + 6) := by
  change _ ↔ p ≤ 2 ∨ (p = 3 ∧ (d (n + 5) = d (n + 6) ∨ d (n + 5) = d (n + 4))) ∨
    (p = 4 ∧ (d (n + 4) = d (n + 5) ∨ d (n + 4) = d (n + 6)))
  have h0 := hperiod n
  have h1 := hperiod (n + 1)
  have h2 := hperiod (n + 2)
  have h3 := hperiod (n + 3)
  have h4 := hperiod (n + 4)
  have h5 := hperiod (n + 5)
  unfold Found
  -- Each period closes in its own way on the six differences of the row.
  rcases (by omega : p = 1 ∨ p = 2 ∨ p = 3 ∨ p = 4) with rfl | rfl | rfl | rfl
  · grind
  · grind
  · grind
  · grind

/-- Every pattern whose next difference is always found is one of at most
    two. -/
theorem predictable_forever_iff (hp : 1 ≤ p ∧ p ≤ 4) (hperiod : ∀ i, d (i + p) = d i) :
    (∀ n, 6 ≤ n → Predictable p d n) ↔ ∀ i, d (i + 2) = d i := by
  constructor
  · intro h i
    have h0 := hperiod i
    have h1 := hperiod (i + 1)
    have h2 := hperiod (i + 2)
    have h3 := hperiod (i + 3)
    have h4 := hperiod (i + 4)
    have h5 := hperiod (i + 5)
    -- the accesses of one period
    have ha := (found_iff hp hperiod i).mpr (h _ (by omega))
    have hb := (found_iff hp hperiod (i + 1)).mpr (h _ (by omega))
    have hc := (found_iff hp hperiod (i + 2)).mpr (h _ (by omega))
    have hd := (found_iff hp hperiod (i + 3)).mpr (h _ (by omega))
    unfold Found at ha hb hc hd
    rcases (by omega : p = 1 ∨ p = 2 ∨ p = 3 ∨ p = 4) with rfl | rfl | rfl | rfl
    · exact h1.trans h0
    · exact h0
    · grind
    · grind
  · intro h n hn
    rcases (by omega : p ≤ 2 ∨ p = 3 ∨ p = 4) with hshort | rfl | rfl
    · -- Up to period two the pair is always found. Otherwise the shorter period makes two
      -- neighbouring differences agree, as the condition asks.
      exact .inl hshort
    · refine .inr (.inl ⟨rfl, .inl ?_⟩)
      have htwo := h (n - 1)
      have hthree := hperiod (n - 1)
      rw [show n - 1 + 2 = n + 1 by omega] at htwo
      rw [show n - 1 + 3 = n + 2 by omega, h n] at hthree
      exact hthree.symm
    · refine .inr (.inr ⟨rfl, .inr ?_⟩)
      have htwo := h (n - 2)
      rw [show n - 2 + 2 = n by omega] at htwo
      exact htwo.symm

end Pattern

/-- A row has been used by the first accesses of a stream alone, and the next
    one has been served: the next address but one is a candidate of its call
    if and only if the pattern is predictable there. -/
theorem next_candidate_iff (g : Geometry) (htype : g.prefetchType = 2) (out : Outside ω)
    (t : Tables) (w : ω) (ops : List Op) (PC a : Addr) (p : Nat) (hp : 1 ≤ p ∧ p ≤ 4)
    (d : Nat → BitVec 32) (hd : ∀ i, d i ≠ 0) (hperiod : ∀ i, d (i + p) = d i) (n : Nat)
    (hn : 6 ≤ n) (huses : dcptUses (dcptIndex PC) ops = streamUses (PC >>> 2) a d n) (cmd : Cmd)
    (now : Tick) (answer : Answer g) (s₀ s : Sys g (Tables × ω))
    (hrun : run g out.alone (t.create g.prefetchType) w ops = .ok s₀)
    (hserve : serve out.alone cmd (streamAddr a d n) now false s₀ = .ok (answer, s)) :
    ∃ v, openEndedRow g s.cache.probe (PC >>> 2) (streamAddr a d n) (s.tables.DCPT (dcptIndex PC))
        = .ok v ∧ (streamAddr a d (n + 1) ∈ v.candidates ↔ Predictable p d n) := by
  rcases served_remembers htype hrun hserve with ⟨⟨ord, hc⟩, hrows⟩
  have hrow := hrows (dcptIndex PC)
  rw [huses] at hrow
  rw [probe_eq hc, openEndedRow_eq]
  refine ⟨_, rfl, ?_⟩
  -- Six accesses fill the columns, and the row holds the last of them.
  rcases Nat.exists_eq_add_of_le' hn with ⟨m, rfl⟩
  exact (hrow.next_mem_iff _ hd (shifted_ne PC)).trans (found_iff hp hperiod m)

/-! ### Two patterns -/

/-- Strides of one and of two blocks in turn. -/
def alternating (i : Nat) : BitVec 32 := if i % 2 = 0 then 8 else 16

/-- Strides of one, two and three blocks in turn. -/
def growing (i : Nat) : BitVec 32 := if i % 3 = 0 then 8 else if i % 3 = 1 then 16 else 24

/-- A program that reads a stream, from address 8 on. -/
def reads (d : Nat → BitVec 32) (n : Nat) : List Op :=
  (List.range n).map fun i => .demand 4 .Read (streamAddr 8 d i) 1 0

/-- The seventh access of an alternating stream. -/
theorem next_candidate_alternating : ∃ (s₀ s : Sys oneBlockDelta (Tables × Unit))
    (answer : Answer oneBlockDelta) (v : OpenEnded),
    run oneBlockDelta plainMemory.alone (Tables.initial.create 2) () (reads alternating 6)
      = .ok s₀ ∧
    serve plainMemory.alone .Read (streamAddr 8 alternating 6) 0 false s₀ = .ok (answer, s) ∧
    openEndedRow oneBlockDelta s.cache.probe (4 >>> 2) (streamAddr 8 alternating 6)
      (s.tables.DCPT (dcptIndex 4)) = .ok v ∧ streamAddr 8 alternating 7 ∈ v.candidates := by
  have hends : ∃ s₀ r, run oneBlockDelta plainMemory.alone (Tables.initial.create 2) ()
      (reads alternating 6) = .ok s₀ ∧
      serve plainMemory.alone .Read (streamAddr 8 alternating 6) 0 false s₀ = .ok r :=
    ⟨_, _, rfl, rfl⟩
  rcases hends with ⟨s₀, ⟨answer, s⟩, hrun, hserve⟩
  have hd : ∀ i, alternating i ≠ 0 := by
    intro i
    unfold alternating
    split <;> decide
  have hperiod : ∀ i, alternating (i + 2) = alternating i := by
    intro i
    unfold alternating
    rw [Nat.add_mod_right]
  rcases next_candidate_iff oneBlockDelta rfl plainMemory .initial () (reads alternating 6) 4 8 2
    (by decide) alternating hd hperiod 6 (by decide) rfl .Read 0 answer s₀ s hrun hserve
    with ⟨v, hv, hiff⟩
  exact ⟨s₀, s, answer, v, hrun, hserve, hv, hiff.mpr (by decide)⟩

/-- In a pattern of three different strides the next address is not among the
    candidates. -/
theorem growing_missed : ¬ ∀ (ops : List Op) (PC a : Addr) (p : Nat) (d : Nat → BitVec 32) (n : Nat)
    (cmd : Cmd) (now : Tick) (answer : Answer oneBlockDelta)
    (s₀ s : Sys oneBlockDelta (Tables × Unit)),
    (1 ≤ p ∧ p ≤ 4) → (∀ i, d i ≠ 0) → (∀ i, d (i + p) = d i) → 6 ≤ n →
    dcptUses (dcptIndex PC) ops = streamUses (PC >>> 2) a d n →
    run oneBlockDelta plainMemory.alone (Tables.initial.create 2) () ops = .ok s₀ →
    serve plainMemory.alone cmd (streamAddr a d n) now false s₀ = .ok (answer, s) →
    ∃ v, openEndedRow oneBlockDelta s.cache.probe (PC >>> 2) (streamAddr a d n)
      (s.tables.DCPT (dcptIndex PC)) = .ok v ∧ streamAddr a d (n + 1) ∈ v.candidates := by
  intro h
  have hd : ∀ i, growing i ≠ 0 := by
    intro i
    unfold growing
    split
    · decide
    · split <;> decide
  have hperiod : ∀ i, growing (i + 3) = growing i := by
    intro i
    unfold growing
    rw [Nat.add_mod_right]
  rcases h (reads growing 6) 4 8 3 growing 6 .Read 0 _ _ _ (by decide) hd hperiod (by decide) rfl
    rfl rfl with ⟨v, hv, hmem⟩
  cases hv
  exact absurd hmem (by decide)

end Cache

end MicroArch
