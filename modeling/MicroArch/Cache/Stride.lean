import MicroArch.Cache.Surround

/-!
# The Automaton of the Stride Prefetcher

What a row of the Reference Prediction Table should hold, and what it does
hold. A row belongs to the last `PC` that has used it. The automaton follows
the distances between the addresses of that `PC`, from the access on that the
row became its own: the state is a guess at how far the last distance can be
trusted.

The source enters the initial state in column 3 when it gives a row away, and
reads and writes the state in column 4 from then on. A row has four columns.
So the row is right after the access that gives it away, and the next access
by the same `PC` leaves it.

The table of a cache whose table is not shared is part of what surrounds it,
and nothing but the cache changes it.

## Main definitions

* `Phase`, `StrideState`: The automaton.
* `uses`, `owner`: Who has used a row.
* `Follows`: The row holds what the automaton says.
* `Outside.alone`: An outside that does not use the tables.

## Theorems

* `step_tables`: What an operation does to the tables.
* `run_owner`: The tag of a row is that of its owner.
* `access_follows_iff`: After which accesses the row is right.
* `second_access_leaves`: After two accesses of one `PC` it is not.
-/

namespace MicroArch

namespace Cache

variable {g : Geometry} {ω : Type}

/-! ### The automaton -/

/-- The states of the automaton. -/
inductive Phase where
  | initial
  | transient
  | steady
  | nopred

namespace Phase

/-- How a state is stored. -/
def code : Phase → BitVec 32
  | initial => INITIAL
  | transient => TRANSIENT
  | steady => STEADY
  | nopred => NOPRED

/-- The next state, from whether the distance was the same again. -/
def next (same : Bool) : Phase → Phase
  | initial => if same then steady else transient
  | transient => if same then steady else nopred
  | steady => if same then steady else initial
  | nopred => if same then transient else nopred

/-- In the steady state the stride is kept. -/
def keepsStride : Phase → Bool
  | steady => true
  | _ => false

end Phase

/-- What is known of the addresses of a `PC`. -/
structure StrideState where
  last : Addr
  stride : BitVec 32
  phase : Phase

/-- One more address. -/
def StrideState.access (s : StrideState) (addr : Addr) : StrideState where
  last := addr
  stride := if s.phase.keepsStride then s.stride else addr - s.last
  phase := s.phase.next (addr - s.last = s.stride)

/-- The automaton over addresses, the latest first. -/
def automaton : List Addr → StrideState
  | [] => { last := 0, stride := 0, phase := .initial }
  | [addr] => { last := addr, stride := 0, phase := .initial }
  | addr :: l => (automaton l).access addr

/-! ### Rows -/

/-- The use an operation makes of a row: the shifted `PC` and the address. -/
def Op.use (g : Geometry) (r : Nat) : Op → Option (Addr × Addr)
  | .demand PC _ addr _ _ => if g.rptIndex PC = r then some (PC >>> 2, addr) else none
  | _ => none

theorem use_own {PC : Addr} {r : Nat} (h : g.rptIndex PC = r) (cmd : Cmd) (addr : Addr)
    (nbytes : BitVec 32) (now : Tick) :
    Op.use g r (.demand PC cmd addr nbytes now) = some (PC >>> 2, addr) :=
  if_pos h

theorem use_other {PC : Addr} {r : Nat} (h : g.rptIndex PC ≠ r) (cmd : Cmd) (addr : Addr)
    (nbytes : BitVec 32) (now : Tick) : Op.use g r (.demand PC cmd addr nbytes now) = none :=
  if_neg h

/-- The uses of a row, the latest first. -/
def uses (g : Geometry) (r : Nat) (ops : List Op) : List (Addr × Addr) :=
  (ops.filterMap (Op.use g r)).reverse

/-- The owner of a row. The memory of an unused row is zero. -/
def owner : List (Addr × Addr) → Addr
  | [] => 0
  | (PC, _) :: _ => PC

/-- The addresses that the owner has accessed since the row was its own. -/
def ownAddrs (l : List (Addr × Addr)) : List Addr :=
  (l.takeWhile fun u => u.1 = owner l).map Prod.snd

/-- The row holds the owner, and what the automaton says of its addresses. -/
structure Follows (l : List (Addr × Addr)) (cell : Nat → BitVec 32) : Prop where
  tag : cell 0 = owner l
  last : cell 1 = (automaton (ownAddrs l)).last
  stride : cell 2 = (automaton (ownAddrs l)).stride
  phase : cell 3 = (automaton (ownAddrs l)).phase.code

/-- One more element, of which a list may have a part. -/
theorem reverse_filterMap_append {α β : Type} (f : α → Option β) (l : List α) (a : α) :
    ((l ++ [a]).filterMap f).reverse = (f a).toList ++ (l.filterMap f).reverse := by
  rw [List.filterMap_append, List.reverse_append]
  rcases h : f a with _ | b
  · rw [List.filterMap_cons_none h]
    rfl
  · rw [List.filterMap_cons_some h]
    rfl

theorem uses_append (r : Nat) (ops : List Op) (op : Op) :
    uses g r (ops ++ [op]) = (op.use g r).toList ++ uses g r ops :=
  reverse_filterMap_append _ _ _

/-- One more use, by the owner or by another `PC`. -/
theorem ownAddrs_cons (PC addr : Addr) (l : List (Addr × Addr)) :
    ownAddrs ((PC, addr) :: l) = addr :: if owner l = PC then ownAddrs l else [] := by
  have hfirst : ((PC, addr) :: l).takeWhile (fun u => u.1 = PC)
      = (PC, addr) :: l.takeWhile fun u => u.1 = PC :=
    List.takeWhile_cons_of_pos (decide_eq_true rfl)
  change (((PC, addr) :: l).takeWhile fun u => u.1 = PC).map Prod.snd = _
  rw [hfirst, List.map_cons]
  -- The run of the owner goes on when the newest use is by the same `PC`, and starts anew
  -- otherwise.
  by_cases howner : owner l = PC
  · rw [if_pos howner, ← howner]
    rfl
  · rw [if_neg howner]
    cases l with
    | nil => rfl
    | cons u l => rw [List.takeWhile_cons_of_neg (by rwa [decide_eq_true_eq]), List.map_nil]

/-- A row that was given away. -/
theorem follows_cons {l : List (Addr × Addr)} {PC addr : Addr} {cell : Nat → BitVec 32}
    (hne : owner l ≠ PC) (h0 : cell 0 = PC) (h1 : cell 1 = addr) (h2 : cell 2 = 0)
    (h3 : cell 3 = INITIAL) : Follows ((PC, addr) :: l) cell := by
  have hown : ownAddrs ((PC, addr) :: l) = [addr] := by
    rw [ownAddrs_cons, if_neg hne]
  exact ⟨h0, by rw [hown]; exact h1, by rw [hown]; exact h2, by rw [hown]; exact h3⟩

/-! ### The table -/

/-- An outside that leaves the tables alone. -/
def Outside.alone (out : Outside ω) : Outside (Tables × ω) where
  blkAccess cmd baddr size now prefetch x :=
    (out.blkAccess cmd baddr size now prefetch x.2).map fun r => (r.1, x.1, r.2)
  myrand x := ((out.myrand x.2).1, x.1, (out.myrand x.2).2)

theorem keeps_tables (out : Outside ω) (K : Tables → Prop) :
    Keeps (fun _ => True) out.alone fun x => K x.1 where
  call cmd baddr size now prefetch x r hx hcall := by
    change (out.blkAccess cmd baddr size now prefetch x.2).map _ = .ok r at hcall
    rcases hanswer : out.blkAccess cmd baddr size now prefetch x.2 with fault | r'
    · rw [hanswer] at hcall
      cases hcall
    · rw [hanswer] at hcall
      cases hcall
      exact hx
  refuse _ _ _ _ _ _ _ _ _ := trivial
  nullPointer := trivial
  assertion _ := trivial
  endless := trivial
  draw _ hx := hx

theorem keeps_alone (out : Outside ω) (t : Tables) :
    Keeps (fun _ => True) out.alone fun x => x.1 = t :=
  keeps_tables out (· = t)

theorem strideSwitch_cell (same : Bool) (stride state : BitVec 32) (row : Traced (BitVec 32))
    {i : Nat} (h2 : i ≠ 2) (h4 : i ≠ 4) :
    (strideSwitch same stride state row).cell i = row.cell i := by
  have hwrite : ∀ a b, ((row.write 4 a).write 2 b).cell i = row.cell i := fun a b =>
    (Function.update_of_ne h2 _ _).trans (Function.update_of_ne h4 _ _)
  -- The switch writes the state to column 4 and the stride to column 2, and no other column.
  unfold strideSwitch
  split
  · exact hwrite _ _
  · split
    · exact hwrite _ _
    · split
      · exact Function.update_of_ne h4 _ _
      · split
        · exact hwrite _ _
        · rfl

/-- The row of an access has its tag afterwards. -/
theorem strideRow_tag (PC addr : Addr) (cell : Nat → BitVec 32) :
    -- A row of another tag is initialised with this one, and a row of the same tag keeps it.
    (strideRow PC addr (.of cell)).2.cell 0 = PC := by
  unfold strideRow
  dsimp only [Traced.read, Traced.of]
  split
  · rfl
  · split
    · exact strideSwitch_cell _ _ _ _ (by decide) (by decide)
    · exact strideSwitch_cell _ _ _ _ (by decide) (by decide)

/-- What the prefetcher of a row predicts for the `PC` that owns it. -/
theorem strideRow_target {PC addr : Addr} {cell : Nat → BitVec 32} (htag : cell 0 = PC)
    (hstate : (strideRow PC addr (.of cell)).2.cell 4 ≠ NOPRED) :
    (strideRow PC addr (.of cell)).1 = some (addr + (strideRow PC addr (.of cell)).2.cell 2) := by
  unfold strideRow at hstate ⊢
  dsimp only [Traced.read, Traced.of] at hstate ⊢
  rw [if_neg (not_not.mpr htag)] at hstate ⊢
  split
  · rfl
  · rename_i hnopred
    rw [if_neg hnopred] at hstate
    exact absurd hstate hnopred

/-- A row with another tag is given away. -/
theorem strideRow_of_ne {PC addr : Addr} {cell : Nat → BitVec 32} (h : cell 0 ≠ PC) :
    (strideRow PC addr (.of cell)).2.Within RPT_COLS ∧
      (strideRow PC addr (.of cell)).2.cell 1 = addr ∧
      (strideRow PC addr (.of cell)).2.cell 2 = 0 ∧
      (strideRow PC addr (.of cell)).2.cell 3 = INITIAL := by
  have htag := (Traced.within_of cell RPT_COLS).read (show 0 < RPT_COLS by decide)
  have htagne : ((Traced.of cell).read 0).1 ≠ PC := h
  unfold strideRow
  dsimp only
  rw [if_pos htagne]
  -- A new owner writes the columns 0 to 3, and the row has four.
  refine ⟨?_, rfl, rfl, rfl⟩
  exact (((htag.write (by decide) _).write (by decide) _).write (by decide) _).write (by decide) _

/-- A row with the same tag is left: the state is looked for in column 4. -/
theorem strideRow_of_eq {PC addr : Addr} {cell : Nat → BitVec 32} (h : cell 0 = PC) :
    ¬ (strideRow PC addr (.of cell)).2.Within RPT_COLS := by
  -- Both branches behind the test of the tag read the state, at an index past the row.
  have hread : 4 ∈ (strideRow PC addr (.of cell)).2.reads := by
    unfold strideRow
    dsimp only [Traced.read, Traced.of]
    rw [if_neg (not_not.mpr h)]
    split
    · exact List.mem_cons_of_mem 2 List.mem_cons_self
    · exact List.mem_cons_self
  exact fun hwithin => absurd (hwithin.1 4 hread) (by decide)

/-- The tables after an operation. -/
def Tables.after (g : Geometry) (t : Tables) : Op → Tables
  | .demand PC _ addr _ _ =>
      t.setRptRow (g.rptIndex PC)
        (strideRow (PC >>> 2) addr (.of (t.RPT.cell (g.rptIndex PC)))).2.cell
  | _ => t

/-- What uses make of a row. The latest come first. -/
def rowAfter (cell : Nat → BitVec 32) : List (Addr × Addr) → Nat → BitVec 32
  | [] => cell
  | (PC, addr) :: l => (strideRow PC addr (.of (rowAfter cell l))).2.cell

/-- An operation enters its use. -/
theorem after_row (t : Tables) (op : Op) (r : Nat) :
    (t.after g op).RPT.cell r = rowAfter (t.RPT.cell r) (op.use g r).toList := by
  cases op with
  | demand PC cmd addr nbytes now =>
      -- An access changes the row that its `PC` selects, and no other.
      by_cases hr : g.rptIndex PC = r
      · rw [use_own hr]
        subst hr
        exact Function.update_self ..
      · rw [use_other hr]
        exact Function.update_of_ne (Ne.symm hr) ..
  | prefetch _ _ _ => rfl
  | flush _ => rfl
  | flushAddr _ _ => rfl

theorem generatePrefetch_stride (htype : 2 < g.prefetchType) (probe : Addr → Except Fault Bool)
    (PC addr : Addr) (t : Tables) :
    generatePrefetch g probe PC addr t = stridePrefetcher g probe PC addr t := by
  unfold generatePrefetch
  split
  · omega
  · omega
  · omega
  · rfl

/-- Whatever is requested, the tables are those after the access. -/
theorem stridePrefetcher_tables (probe : Addr → Except Fault Bool) (PC addr : Addr) (t : Tables)
    (cmd : Cmd) (nbytes : BitVec 32) (now : Tick) :
    Ends (fun _ => True) (stridePrefetcher g probe PC addr t) fun r =>
      r.1 = t.after g (.demand PC cmd addr nbytes now) := by
  unfold stridePrefetcher
  dsimp only
  split
  · exact (Ends.any _).bind fun _ _ => .ret rfl
  · exact .ret rfl

section View

-- a part of the tables that the outside leaves alone
variable {α : Type} (view : Tables → α) {out : Outside (Tables × ω)}
  (hout : ∀ v, Keeps (fun _ => True) out fun x => view x.1 = v)

include hout

theorem generate_view (htype : 2 < g.prefetchType) (PC addr : Addr) (s : Sys g (Tables × ω))
    (cmd : Cmd) (nbytes : BitVec 32) (now : Tick) :
    Ends (fun _ => True) (generate out PC addr s) fun s' =>
      view s'.tables = view (s.tables.after g (.demand PC cmd addr nbytes now)) := by
  unfold generate
  rw [generatePrefetch_stride htype]
  refine (stridePrefetcher_tables _ PC addr s.tables cmd nbytes now).bind fun r hr => ?_
  have hpredicted : view (s.predicted PC addr r.1).tables
      = view (s.tables.after g (.demand PC cmd addr nbytes now)) := congrArg view hr
  exact (requests_frame (hout _) r.2 hpredicted).mono fun _ hs' => hs'.1

/-- What an operation does to a part of the tables, when the part after an
    access only depends on the part before it. -/
theorem step_view (htype : 2 < g.prefetchType)
    (hview : ∀ op t t', view t = view t' → view (t.after g op) = view (t'.after g op))
    (s : Sys g (Tables × ω)) (op : Op) : Ends (fun _ => True) (step out s op) fun s' =>
      view s'.tables = view (s.tables.after g op) := by
  have hkeeps := hout (view s.tables)
  cases op with
  | demand PC cmd addr nbytes now =>
      have hgenerate : ∀ s', Frame (fun x => view x.1 = view s.tables) s.env s'.env →
          Ends (fun _ => True) (generate out PC addr s') fun s'' =>
            view s''.tables = view (s.tables.after g (.demand PC cmd addr nbytes now)) := by
        intro s' hs'
        -- The view before the call is the one of the state at the start, so the tables after it
        -- are those of the view.
        rw [← hview _ s'.tables s.tables hs'.1]
        exact generate_view view hout htype PC addr s' cmd nbytes now
      exact (cacheAccess_ends (fun _ _ => trivial) (serveKeeps_frame hkeeps s.env) hgenerate cmd
        addr nbytes now (.refl rfl)).bind fun _ hr => .ret hr
  | prefetch addr nbytes now =>
      exact (prefetchAccess_ends (fun _ _ => trivial) (serveKeeps_frame hkeeps s.env) .Read addr
        nbytes now (.refl rfl)).bind fun _ hr => .ret hr.1
  | flush now => exact (flush_frame hkeeps now s.cache rfl).bind fun _ hr => .ret hr.1
  | flushAddr addr now =>
      exact (flushAddr_frame hkeeps addr now s.cache rfl).bind fun _ hr => .ret hr.1

end View

theorem step_tables (htype : 2 < g.prefetchType) (out : Outside ω) (s : Sys g (Tables × ω))
    (op : Op) : Ends (fun _ => True) (step out.alone s op) fun s' =>
      s'.tables = s.tables.after g op :=
  step_view id (keeps_alone out) htype
    (fun op _ _ h => congrArg (fun t : Tables => t.after g op) h) s op

/-- The tag of a row is that of its owner. -/
theorem run_owner (htype : 2 < g.prefetchType) (out : Outside ω) (t : Tables) (w : ω)
    (ops : List Op) : Ends (fun _ => True) (run g out.alone (t.create g.prefetchType) w ops)
      fun s => ∀ r, s.tables.RPT.cell r 0 = owner (uses g r ops) := by
  -- Every operation that uses the row leaves the tag of its `PC` there.
  refine Ends.foldlM (fun pre (s : Sys g (Tables × ω)) =>
    ∀ r, s.tables.RPT.cell r 0 = owner (uses g r pre)) ops (fun r => ?_) ?_
  · change (t.create g.prefetchType).RPT.cell r 0 = 0
    unfold Tables.create
    rw [if_pos htype]
  · intro pre op s _ hs
    refine (step_tables htype out s op).mono fun s' hs' r => ?_
    rw [hs', uses_append, after_row]
    rcases op.use g r with _ | ⟨PC, addr⟩
    · exact hs r
    · exact strideRow_tag PC addr _

/-- After an access in a run, its row holds what the automaton says of its
    owner's addresses, and has not been left, if and only if the `PC` was not
    the owner of the row before. -/
theorem access_follows_iff (g : Geometry) (htype : 2 < g.prefetchType) (out : Outside ω)
    (t : Tables) (w : ω) (ops : List Op) (PC addr : Addr) (cmd : Cmd) (nbytes : BitVec 32)
    (now : Tick) (s s' : Sys g (Tables × ω))
    (hrun : run g out.alone (t.create g.prefetchType) w ops = .ok s)
    (hstep : step out.alone s (.demand PC cmd addr nbytes now) = .ok s') :
    (Follows (uses g (g.rptIndex PC) (ops ++ [.demand PC cmd addr nbytes now]))
        (s'.tables.RPT.cell (g.rptIndex PC)) ∧
      (strideRow (PC >>> 2) addr (.of (s.tables.RPT.cell (g.rptIndex PC)))).2.Within RPT_COLS) ↔
    owner (uses g (g.rptIndex PC) ops) ≠ PC >>> 2 := by
  have howner := (run_owner htype out t w ops).of_eq hrun (g.rptIndex PC)
  have htables := (step_tables htype out s _).of_eq hstep
  have hrow : s'.tables.RPT.cell (g.rptIndex PC)
      = (strideRow (PC >>> 2) addr (.of (s.tables.RPT.cell (g.rptIndex PC)))).2.cell := by
    rw [htables, after_row, use_own rfl]
    rfl
  rw [hrow, uses_append, use_own rfl, ← howner]
  -- A row of the same tag is left at once, and one of another tag is made anew in its bounds.
  constructor
  · rintro ⟨-, hwithin⟩ heq
    exact strideRow_of_eq heq hwithin
  · intro hne
    rcases strideRow_of_ne hne with ⟨hwithin, h1, h2, h3⟩
    rw [howner] at hne
    exact ⟨follows_cons hne (strideRow_tag _ _ _) h1 h2 h3, hwithin⟩

/-! ### A cache with three rows -/

def oneBlockStride : Geometry := { oneBlock with prefetchType := 3, prefetchType_lt := by decide }

/-- A memory that answers at once. -/
def plainMemory : Outside Unit :=
  { blkAccess := fun _ _ _ _ _ σ => .ok (1, σ), myrand := fun σ => (0, σ) }

/-- One instruction walks through a table, in between the accesses of another
    row. A second instruction takes its row over. -/
theorem access_follows_taken : ∃ s s', run oneBlockStride plainMemory.alone
      (Tables.initial.create 3) ()
      [.demand 16 .Read 8 1 0, .demand 16 .Read 9 1 0, .demand 8 .Write 40 1 0,
        .demand 16 .Read 16 1 0] = .ok s ∧
    step plainMemory.alone s (.demand 4 .Read 32 1 0) = .ok s' ∧
    Follows (uses oneBlockStride 1 [.demand 16 .Read 8 1 0, .demand 16 .Read 9 1 0,
      .demand 8 .Write 40 1 0, .demand 16 .Read 16 1 0, .demand 4 .Read 32 1 0])
      (s'.tables.RPT.cell 1) := by
  have hends : ∃ s s', run oneBlockStride plainMemory.alone (Tables.initial.create 3) ()
        [.demand 16 .Read 8 1 0, .demand 16 .Read 9 1 0, .demand 8 .Write 40 1 0,
          .demand 16 .Read 16 1 0] = .ok s ∧
      step plainMemory.alone s (.demand 4 .Read 32 1 0) = .ok s' := ⟨_, _, rfl, rfl⟩
  rcases hends with ⟨s, s', hrun, hstep⟩
  refine ⟨s, s', hrun, hstep, ?_⟩
  exact ((access_follows_iff oneBlockStride (by decide) plainMemory .initial () _ 4 32 .Read 1 0
    s s' hrun hstep).mpr (by decide)).1

/-- The second access of a program that runs in a loop of one instruction
    leaves its row. -/
theorem second_access_leaves : ¬ ∀ (ops : List Op) (PC addr : Addr) (cmd : Cmd)
    (nbytes : BitVec 32) (now : Tick) (s s' : Sys oneBlockStride (Tables × Unit)),
    run oneBlockStride plainMemory.alone (Tables.initial.create 3) () ops = .ok s →
    step plainMemory.alone s (.demand PC cmd addr nbytes now) = .ok s' →
    Follows (uses oneBlockStride (oneBlockStride.rptIndex PC)
        (ops ++ [.demand PC cmd addr nbytes now]))
      (s'.tables.RPT.cell (oneBlockStride.rptIndex PC)) ∧
    (strideRow (PC >>> 2) addr
      (.of (s.tables.RPT.cell (oneBlockStride.rptIndex PC)))).2.Within RPT_COLS := by
  intro h
  have hsecond := h [.demand 4 .Read 8 1 0] 4 8 .Read 1 0 _ _ rfl rfl
  exact strideRow_of_eq rfl hsecond.2

end Cache

end MicroArch
