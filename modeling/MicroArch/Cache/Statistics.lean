import Mathlib.Data.Fintype.Prod
import MicroArch.Cache.Surround
import MicroArch.Cache.WellFormed

/-!
# The Statistics of a Cache

The counters of a cache against what has happened to it. Every access is
counted once, on the path it takes, and those of the program apart from the
prefetches. Every block that is filled is counted, and so is every block that
is replaced or invalidated, so the blocks that the cache holds are those that
came in and have not gone out.

The numbers here are those of `Cache.Blocks`, which do not overflow. A balance
of the source's own counters follows as long as none of them has wrapped around.

The accesses of a run are not all among its operations: a prefetcher makes some
on the way, and how many depends on what its probes find. They are read off the
log, which has the calls of the prefetcher with what it saw.

## Main definitions

* `State.valids`: The number of valid blocks.
* `Counts`: The numbers of accesses of each kind.
* `Balanced`: The counters agree with these, and with the blocks.
* `demands`, `demandReads`, `prefetches`: The accesses of a run.

## Theorems

* `serve_balanced`, `flush_balanced`, `flushAddr_balanced`: The operations.
* `statistics_balance`: The counters after every run.
-/

namespace MicroArch

namespace Cache

variable {g : Geometry} {σ ω : Type}

/-! ### The blocks that are valid -/

def State.validBlks (c : State g) : Finset (BlkPtr g) := Finset.univ.filter fun p => (c.blk p).valid

/-- The number of valid blocks. -/
def State.valids (c : State g) : Nat := c.validBlks.card

theorem mem_validBlks {c : State g} {p : BlkPtr g} : p ∈ c.validBlks ↔ (c.blk p).valid := by
  rw [State.validBlks, Finset.mem_filter]
  exact and_iff_right (Finset.mem_univ p)

theorem valids_le (c : State g) : c.valids ≤ g.nsets * g.assoc := by
  refine (Finset.card_filter_le _ _).trans ?_
  rw [Finset.card_univ, Fintype.card_prod, Fintype.card_fin, Fintype.card_fin]

theorem valids_congr {c c' : State g} (h : ∀ q, (c'.blk q).valid = (c.blk q).valid) :
    c'.valids = c.valids := by
  refine congrArg Finset.card (Finset.ext fun q => ?_)
  rw [mem_validBlks, mem_validBlks, h]

/-- One more block is valid, unless it was already. -/
theorem valids_insert {c c' : State g} {p : BlkPtr g}
    (h : ∀ q, (c'.blk q).valid ↔ q = p ∨ (c.blk q).valid) :
    c'.valids + (if (c.blk p).valid then 1 else 0) = c.valids + 1 := by
  have hset : c'.validBlks = insert p c.validBlks := by
    ext q
    rw [mem_validBlks, Finset.mem_insert, mem_validBlks, h]
  rw [State.valids, State.valids, hset]
  by_cases hp : (c.blk p).valid
  · rw [if_pos hp, Finset.insert_eq_of_mem (mem_validBlks.mpr hp)]
  · rw [if_neg hp, Finset.card_insert_of_notMem fun hmem => hp (mem_validBlks.mp hmem)]

/-- One block less is valid. -/
theorem valids_erase {c c' : State g} {p : BlkPtr g} (hp : (c.blk p).valid)
    (h : ∀ q, (c'.blk q).valid ↔ (c.blk q).valid ∧ q ≠ p) : c'.valids + 1 = c.valids := by
  have hset : c'.validBlks = c.validBlks.erase p := by
    ext q
    rw [mem_validBlks, Finset.mem_erase, mem_validBlks, h, and_comm]
  rw [State.valids, State.valids, hset]
  exact Finset.card_erase_add_one (mem_validBlks.mpr hp)

/-! ### Counters -/

/-- The counters of a cache. -/
structure Counters where
  hits : Nat
  misses : Nat
  replacements : Nat
  writebacks : Nat
  invalidations : Nat
  readHits : Nat
  readMisses : Nat
  prefetchHits : Nat
  prefetchMisses : Nat

def State.counters (c : State g) : Counters :=
  { hits := c.hits, misses := c.misses, replacements := c.replacements
    writebacks := c.writebacks, invalidations := c.invalidations, readHits := c.readHits
    readMisses := c.readMisses, prefetchHits := c.prefetchHits, prefetchMisses := c.prefetchMisses }

/-- The numbers of accesses: of the program, how many of them read, and of the
    prefetchers. -/
structure Counts where
  demands : Nat
  reads : Nat
  prefetches : Nat

/-- One more access. -/
def Counts.access (n : Counts) (cmd : Cmd) (prefetch : Bool) : Counts :=
  if prefetch then { n with prefetches := n.prefetches + 1 }
  else
    { n with demands := n.demands + 1, reads := if cmd = .Read then n.reads + 1 else n.reads }

/-- The counters agree with the accesses and with the number of valid
    blocks. -/
structure Balances (k : Counters) (valids : Nat) (n : Counts) : Prop where
  demands : k.hits + k.misses = n.demands
  reads : k.readHits + k.readMisses = n.reads
  prefetches : k.prefetchHits + k.prefetchMisses = n.prefetches
  blocks : valids + k.replacements + k.invalidations = k.misses + k.prefetchMisses
  writebacks : k.writebacks ≤ k.replacements + k.invalidations

/-- The counters of a cache agree with the accesses made to it. -/
abbrev Balanced (c : State g) (n : Counts) : Prop := Balances c.counters c.valids n

theorem SameRest.counters {c c' : State g} (h : SameRest c c') : c'.counters = c.counters := by
  rw [SameRest] at h
  rw [h]
  rfl

/-- A hit is counted. -/
def Counters.hit (k : Counters) (cmd : Cmd) (prefetch : Bool) : Counters :=
  if prefetch then { k with prefetchHits := k.prefetchHits + 1 }
  else
    { k with hits := k.hits + 1, readHits := if cmd = .Read then k.readHits + 1 else k.readHits }

/-- A miss is counted. -/
def Counters.miss (k : Counters) (cmd : Cmd) (prefetch : Bool) : Counters :=
  if prefetch then { k with prefetchMisses := k.prefetchMisses + 1 }
  else
    { k with
      misses := k.misses + 1
      readMisses := if cmd = .Read then k.readMisses + 1 else k.readMisses }

theorem counters_countHit (c : State g) (cmd : Cmd) (prefetch : Bool) :
    (c.countHit cmd prefetch).counters = c.counters.hit cmd prefetch := by
  cases prefetch <;> rfl

theorem counters_countMiss (c : State g) (cmd : Cmd) (prefetch : Bool) :
    (c.countMiss cmd prefetch).counters = c.counters.miss cmd prefetch := by
  cases prefetch <;> rfl

section Arithmetic

variable {k : Counters} {n : Counts} {v v' : Nat}

theorem Balances.hit (h : Balances k v n) (cmd : Cmd) (prefetch : Bool) :
    Balances (k.hit cmd prefetch) v (n.access cmd prefetch) := by
  rcases h with ⟨hdemands, hreads, hprefetches, hblocks, hwb⟩
  -- A hit of the prefetcher and one of the program go to different counters.
  cases prefetch with
  | true =>
      rw [Counters.hit, Counts.access, if_pos rfl, if_pos rfl]
      exact ⟨hdemands, hreads, by dsimp only; omega, hblocks, hwb⟩
  | false =>
      rw [Counters.hit, Counts.access, if_neg Bool.false_ne_true, if_neg Bool.false_ne_true]
      refine ⟨by dsimp only; omega, ?_, hprefetches, hblocks, hwb⟩
      dsimp only
      split <;> omega

/-- The counters of a block that takes the place of `x` blocks, `y` of which
    are written back. -/
def Counters.replace (k : Counters) (x y : Nat) : Counters :=
  { k with replacements := k.replacements + x, writebacks := k.writebacks + y }

theorem Balances.miss (h : Balances k v n) (cmd : Cmd) (prefetch : Bool) {x y : Nat}
    (hv : v' + x = v + 1) (hxy : y ≤ x) :
    Balances ((k.miss cmd prefetch).replace x y) v' (n.access cmd prefetch) := by
  rcases h with ⟨hdemands, hreads, hprefetches, hblocks, hwb⟩
  -- Every write-back has a block to write: one that went out now, or one before.
  have hout : k.writebacks + y ≤ k.replacements + x + k.invalidations := by omega
  rw [Counters.replace]
  cases prefetch with
  | true =>
      rw [Counters.miss, Counts.access, if_pos rfl, if_pos rfl]
      exact ⟨hdemands, hreads, by dsimp only; omega, by dsimp only; omega, hout⟩
  | false =>
      rw [Counters.miss, Counts.access, if_neg Bool.false_ne_true, if_neg Bool.false_ne_true]
      refine ⟨by dsimp only; omega, ?_, hprefetches, by dsimp only; omega, hout⟩
      dsimp only
      split <;> omega

/-- The counters of a block that is invalidated. -/
def Counters.invalidate (k : Counters) (y : Nat) : Counters :=
  { k with invalidations := k.invalidations + 1, writebacks := k.writebacks + y }

theorem Balances.invalidate (h : Balances k v n) {y : Nat} (hv : v' + 1 = v) (hy : y ≤ 1) :
    Balances (k.invalidate y) v' n := by
  rcases h with ⟨hdemands, hreads, hprefetches, hblocks, hwb⟩
  dsimp only [Counters.invalidate]
  exact ⟨hdemands, hreads, hprefetches, by dsimp only; omega, by dsimp only; omega⟩

end Arithmetic

/-! ### Operations -/

section Operations

variable {c : State g} {ord : Order g} {out : Outside σ} {e : Env g σ} {n : Counts}

theorem writeBack_counters (now : Tick) (p : BlkPtr g) (r : State.Timed g σ) :
    Ends (fun _ => True) (State.writeBack out now p r) fun r' =>
      r'.cache.sets = r.cache.sets ∧ r'.cache.counters = { r.cache.counters with
        writebacks := r.cache.writebacks + if (r.cache.blk p).dirty then 1 else 0 } := by
  rw [State.writeBack]
  split
  · exact (Ends.any _).bind fun _ _ => .ret ⟨rfl, rfl⟩
  · exact .ret ⟨rfl, rfl⟩

/-- Whether a block is valid, as a number. -/
def occupied (c : State g) (p : BlkPtr g) : Nat := if (c.blk p).valid then 1 else 0

theorem writesBack_le (c : State g) (p : BlkPtr g) : writesBack c p ≤ occupied c p := by
  rw [writesBack, occupied]
  split
  · rename_i h
    rw [if_pos h.1]
  · exact Nat.zero_le _

theorem evict_counters (now : Tick) (p : BlkPtr g) (c : State g) (e : Env g σ) :
    Ends (fun _ => True) (State.evict out now p c e) fun r =>
      r.cache.counters = c.counters.replace (occupied c p) (writesBack c p) := by
  rw [State.evict]
  split
  · -- Only a valid block counts as replaced, and only a dirty one of them is written back.
    rename_i hvalid
    refine (writeBack_counters now p _).mono fun r hr => ?_
    rw [hr.2, occupied, writesBack, if_pos hvalid]
    simp only [hvalid, true_and]
    rfl
  · rename_i hvalid
    refine .ret ?_
    rw [occupied, writesBack, if_neg hvalid, if_neg fun h => hvalid h.1]
    rfl

theorem load_counters (cmd : Cmd) (addr : Addr) (now : Tick) (prefetch : Bool) (p : BlkPtr g)
    (r : State.Timed g σ) :
    Ends (fun _ => True) (State.load out cmd addr now prefetch p r) fun r' =>
      r'.cache.counters = r.cache.counters := by
  rw [State.load]
  refine (Ends.any _).bind fun a _ => .ret ?_
  let c : State g := r.cache.modifyBlk p fun b =>
    { b with tag := g.cacheTag addr, status := CACHE_BLK_VALID }
  let c' := (c.markDirty cmd p).modifyBlk p fun b => { b with ready := now + ticks (r.lat + a.1) }
  have hloaded : SameRest r.cache c' := (sameRest_markDirty c cmd p).trans rfl
  exact (hloaded.trans (sameRest_linkHash c' p)).counters

/-- The counters of a miss. The block is the one of the latest entry in the
    log. -/
theorem fill_counters (hc : Inv c ord) (cmd : Cmd) (addr : Addr) (now : Tick) (prefetch : Bool) :
    Ends (fun _ => True) (State.fill out cmd addr now prefetch c e) fun r => ∃ p replaced,
      r.env.log.head? = some (.fill p cmd addr prefetch replaced) ∧
      r.cache.counters
        = (c.counters.miss cmd prefetch).replace (occupied c p) (writesBack c p) := by
  rcases fill_eq hc out cmd addr now prefetch e with ⟨p, c₁, e₁, hfill, hsel⟩
  have hcounters : c₁.counters = c.counters.miss cmd prefetch :=
    hsel.rest.counters.trans (counters_countMiss c cmd prefetch)
  have hoccupied : occupied c₁ p = occupied c p := by
    rw [occupied, Blk.valid_of_data (hsel.data p), ← occupied]
  have hwb : writesBack c₁ p = writesBack c p :=
    writesBack_congr (Blk.status_of_data (hsel.data p))
  rw [hfill, State.refill]
  refine (evict_counters now p c₁ e₁).bind fun r hr => ?_
  -- The place of the event is the victim, so the counters look at the block it held before.
  refine (load_counters cmd addr now prefetch p r).bind fun r' hr' => .ret ⟨p, _, rfl, ?_⟩
  rw [← hcounters, ← hoccupied, ← hwb, ← hr]
  exact hr'

theorem counters_markDirty (c : State g) (cmd : Cmd) (prefetch : Bool) (p : BlkPtr g) :
    ((c.countHit cmd prefetch).markDirty cmd p).counters = c.counters.hit cmd prefetch :=
  (sameRest_markDirty _ cmd p).counters.trans (counters_countHit c cmd prefetch)

theorem touch_counters (c : State g) (cmd : Cmd) (addr : Addr) (prefetch : Bool) (p : BlkPtr g) :
    Ends (fun _ => True) (c.touch cmd addr prefetch p) fun c' =>
      c'.counters = c.counters.hit cmd prefetch := by
  have hmarked := counters_markDirty c cmd prefetch p
  unfold State.touch
  refine Ends.bind (P := fun c' => c'.counters = c.counters.hit cmd prefetch) ?_
    fun _ hc' => .ret hc'
  unfold State.reorder
  exact Ends.ite (fun _ => (Ends.any _).bind fun _ _ => .ret hmarked) fun _ => .ret hmarked

theorem fastTouch_counters (c : State g) (cmd : Cmd) (addr : Addr) (prefetch : Bool)
    (blk : Option (BlkPtr g)) : Ends (fun _ => True) (c.fastTouch cmd addr prefetch blk) fun c' =>
      c'.counters = c.counters.hit cmd prefetch := by
  unfold State.fastTouch
  cases blk with
  | some p => exact .ret (counters_markDirty c cmd prefetch p)
  | none => exact Ends.ite (fun _ => .fail trivial) fun _ => .ret (counters_countHit c cmd prefetch)

/-- An access is counted, and so is the block that a miss replaces. -/
theorem serve_balanced {s : Sys g σ} (hc : Inv s.cache ord) (h : Balanced s.cache n) (cmd : Cmd)
    (addr : Addr) (now : Tick) (prefetch : Bool) :
    Ends (Expected g) (serve out cmd addr now prefetch s) fun r =>
      Balanced r.2.cache (n.access cmd prefetch) := by
  have hhit : ∀ {c' : State g}, c'.valids = s.cache.valids →
      c'.counters = s.cache.counters.hit cmd prefetch → Balanced c' (n.access cmd prefetch) := by
    intro c' hvalids hcounters
    rw [Balanced, hvalids, hcounters]
    exact h.hit cmd prefetch
  refine serve_rule hc (fun hmiss => ?_) (fun p hp => ?_) (fun p hlast hp => ?_) fun hzero => ?_
  · refine ((fill_ends hc cmd addr now prefetch hmiss).meet (fill_counters hc cmd addr now prefetch)
      fun _ he _ => he).mono fun r hr => ?_
    rcases hr with ⟨⟨p, ord', -, hreplaced⟩, q, replaced, hhead, hcounters⟩
    -- The log names the block of both descriptions.
    have hpq : p = q := by
      have hlog := hreplaced.log
      dsimp only at hlog
      rw [hlog, List.head?_cons, Option.some.injEq] at hhead
      exact (Event.fill.inj hhead).1
    subst hpq
    have hvalids : r.cache.valids + occupied s.cache p = s.cache.valids + 1 :=
      valids_insert hreplaced.valid_iff
    have hmissed := h.miss cmd prefetch hvalids (writesBack_le s.cache p)
    rwa [← hcounters] at hmissed
  · -- Neither kind of hit changes which blocks are valid.
    rcases touch_eq hc hp cmd prefetch with ⟨c', ord', heq, -, htouched⟩
    have hcounters := (touch_counters s.cache cmd addr prefetch p).of_eq heq
    rw [heq]
    exact .ret (hhit (valids_congr htouched.valid) hcounters)
  · rcases fastTouch_eq hc hlast hp cmd prefetch with ⟨c', heq, -, htouched⟩
    have hcounters := (fastTouch_counters s.cache cmd addr prefetch (some p)).of_eq heq
    rw [heq]
    exact .ret (hhit (valids_congr htouched.valid) hcounters)
  · have hsets := sets_countHit s.cache cmd prefetch
    have hvalids : (s.cache.countHit cmd prefetch).valids = s.cache.valids :=
      valids_congr fun q => congrArg Blk.valid (blk_congr hsets q)
    rw [State.fastTouch]
    cases cmd with
    | Write => exact .fail hzero
    | Read => exact .ret (hhit hvalids (counters_countHit s.cache .Read prefetch))

/-- A block that is invalidated goes out. -/
theorem invalidate_balanced {p : BlkPtr g} (now : Tick) (r : State.Timed g σ)
    (hvalid : (r.cache.blk p).valid) (h : Balanced r.cache n) :
    Ends (fun _ => True) (State.invalidate out now p r) fun r' => Balanced r'.cache n := by
  let c : State g := State.modifyBlk { r.cache with invalidations := r.cache.invalidations + 1 } p
    fun b => { b with status := b.status &&& ~~~ CACHE_BLK_VALID }
  have hvalids : c.valids + 1 = r.cache.valids := by
    refine valids_erase hvalid fun q => ?_
    have hblk : c.blk q = if q = p then
        { r.cache.blk q with status := clearedStatus (r.cache.blk q).status } else r.cache.blk q :=
      State.blk_modifyBlk _ p q _
    rw [hblk]
    -- The bit of this block is cleared, and the others keep theirs.
    by_cases heq : q = p
    · rw [if_pos heq]
      refine iff_of_false (fun hx => ?_) fun hx => hx.2 heq
      rw [Blk.valid] at hx
      exact absurd (valid_clearedStatus _) (bne_iff_ne.mp hx)
    · rw [if_neg heq]
      exact (and_iff_left heq).symm
  refine (writeBack_counters now p { r with cache := c, env := r.env.note (.leave p) }).mono
    fun r' hr' => ?_
  have hsame : r'.cache.valids = c.valids :=
    valids_congr fun q => congrArg Blk.valid (blk_congr hr'.1 q)
  rw [Balanced, hsame, hr'.2]
  exact Balances.invalidate h hvalids (by split <;> decide)

theorem flushSet_balanced (now : Tick) (i : Fin g.nsets) (fuel : Nat) :
    ∀ (b : Option (Fin g.assoc)) {r : State.Timed g σ}, Balanced r.cache n →
      Ends (fun _ => True) (State.flushSet out now i fuel b r) fun r' => Balanced r'.cache n := by
  -- By induction on the fuel, along the chain of the ways of the set.
  induction fuel with
  | zero =>
      intro b r h
      cases b with
      | none => exact .ret h
      | some b => exact .fail trivial
  | succ fuel ih =>
      intro b r h
      cases b with
      | none => exact .ret h
      | some b =>
          have hblk : Ends (fun _ => True) (State.flushBlk out now (i, b) r) fun r' =>
              Balanced r'.cache n :=
            Ends.ite (fun hvalid => invalidate_balanced now r hvalid h) fun _ => .ret h
          exact hblk.bind fun r' hr' => ih _ hr'

theorem flush_balanced (now : Tick) (c : State g) (e : Env g σ) (h : Balanced c n) :
    Ends (fun _ => True) (State.flush out now c e) fun r => Balanced r.cache n := by
  unfold State.flush
  refine Ends.foldlM (fun _ (r : State.Timed g σ) => Balanced r.cache n) _ h ?_
  exact fun _ i r _ hr => flushSet_balanced now i _ _ hr

theorem flushAddr_balanced (addr : Addr) (now : Tick) (e : Env g σ) (hc : Inv c ord)
    (h : Balanced c n) :
    Ends (Expected g) (State.flushAddr out addr now c e) fun r => Balanced r.cache n := by
  rcases hc.rep.searchSet (g.cacheSet addr) (g.cacheTag addr) with ⟨found, hsearch, hfound⟩
  rw [State.flushAddr, hsearch]
  -- Nothing to flush when the block is not there.
  rcases found with _ | b
  · exact .ret h
  · let p : BlkPtr g := (g.cacheSet addr, b)
    let r₀ : State.Timed g σ :=
      { lat := g.hitLatency, cache := { c with lastTagset := 0, lastBlk := none }
        env := e.note (.flushAddr addr) }
    change Ends _ (do
      let r ← State.invalidate out now p r₀
      let s ← (r.cache.sets p.1).updateWayList p.2 .Tail
      return { r with cache := r.cache.modifySet p.1 fun _ => s }) _
    have hvalid : (c.blk p).valid := ((hfound b).mp rfl).1
    refine ((invalidate_ends now r₀ (hc.rep.congr rfl) hvalid).meet
      (invalidate_balanced now r₀ hvalid h) fun _ he _ => he).bind fun r hr => ?_
    rcases hr with ⟨⟨hrep, -⟩, hbalanced⟩
    rcases hrep.move p .Tail with ⟨s, heq, -, hdata⟩
    rw [heq]
    refine .ret ?_
    have hvalids : (r.cache.modifySet p.1 fun _ => s).valids = r.cache.valids :=
      valids_congr fun q => Blk.valid_of_data (hdata q)
    dsimp only
    rwa [Balanced, hvalids]

end Operations

/-! ### Runs -/

def Op.isDemand : Op → Bool
  | .demand .. => true
  | _ => false

def Op.isRead : Op → Bool
  | .demand _ .Read _ _ _ => true
  | _ => false

def Op.isPrefetch : Op → Bool
  | .prefetch .. => true
  | _ => false

/-- The number of blocks that a call of the prefetcher requests. -/
def Event.requests : Event g → Nat
  | .generate PC addr c t =>
      match generatePrefetch g c.probe PC addr t with
      | .ok r => r.2.length
      | .error _ => 0
  | _ => 0

/-- The number of blocks that were requested by the prefetcher. -/
def requested (log : List (Event g)) : Nat := (log.map Event.requests).sum

/-- The accesses that a sequence of operations has made, with the requests in
    the log. -/
def accesses (ops : List Op) (log : List (Event g)) : Counts where
  demands := ops.countP Op.isDemand
  reads := ops.countP Op.isRead
  prefetches := ops.countP Op.isPrefetch + requested log

/-- Only the calls of the prefetcher request blocks. -/
theorem requested_congr {log log' : List (Event g)} (h : calls log' = calls log) :
    requested log' = requested log := by
  -- The other events add nothing, so the sum over the calls alone is the same.
  have hcalls : ∀ log : List (Event g), requested (calls log) = requested log := by
    intro log
    induction log with
    | nil => rfl
    | cons ev log ih =>
        have hcons : requested (ev :: log) = ev.requests + requested log := rfl
        rw [hcons, ← ih]
        cases ev with
        | generate => rfl
        | hit => exact (Nat.zero_add _).symm
        | fill => exact (Nat.zero_add _).symm
        | leave => exact (Nat.zero_add _).symm
        | call => exact (Nat.zero_add _).symm
        | flush => exact (Nat.zero_add _).symm
        | flushAddr => exact (Nat.zero_add _).symm
  rw [← hcalls log', h, hcalls]

section Run

variable {out : Outside (Tables × ω)} {n : Counts}

/-- A well-formed cache whose counters agree with the accesses, and the calls
    of the prefetcher. -/
structure Counted (s : Sys g (Tables × ω)) (n : Counts) (log : List (Event g)) : Prop where
  inv : ∃ ord, Inv s.cache ord
  balanced : Balanced s.cache n
  log : calls s.env.log = calls log

theorem keeps_true (out : Outside σ) : Keeps (fun _ => True) out fun _ => True where
  call _ _ _ _ _ _ _ _ _ := trivial
  refuse _ _ _ _ _ _ _ _ _ := trivial
  nullPointer := trivial
  assertion _ := trivial
  endless := trivial
  draw _ _ := trivial

theorem serve_counted {s : Sys g (Tables × ω)} {log : List (Event g)} (h : Counted s n log)
    (cmd : Cmd) (addr : Addr) (now : Tick) (prefetch : Bool) :
    Ends (Expected g) (serve out cmd addr now prefetch s) fun r =>
      Counted r.2 (n.access cmd prefetch) log ∧
        (r.1 = .hit none → Expected g (.nullBlock addr)) := by
  rcases h with ⟨⟨ord, hc⟩, hbalanced, hlog⟩
  have hinv := (runInvariant_inv out).serve s cmd addr now prefetch ⟨ord, hc⟩
  have hframe : Ends (fun _ => True) (serve out cmd addr now prefetch s) fun r =>
      Frame (fun _ => True) s.env r.2.env :=
    serve_frame (keeps_true out) cmd trivial now prefetch trivial
  -- What was counted, what is in the cache and what stands in the log are three facts about
  -- one and the same access.
  refine ((hinv.meet (serve_balanced hc hbalanced cmd addr now prefetch) fun _ he _ => he).meet
    hframe fun _ he _ => he).mono fun r hr => ?_
  rcases hr with ⟨⟨⟨hc', hnull⟩, hbalanced'⟩, hlog'⟩
  exact ⟨⟨hc', hbalanced', hlog'.2.trans hlog⟩, hnull⟩

/-- An access that is a prefetch. -/
theorem prefetch_counted {generate : Sys g (Tables × ω) → Except Fault (Sys g (Tables × ω))}
    {s : Sys g (Tables × ω)} {log : List (Event g)} (h : Counted s n log) (cmd : Cmd)
    (addr : Addr) (nbytes : BitVec 32) (now : Tick) :
    Ends (Expected g) (cacheAccess out generate cmd addr nbytes now true s) fun r =>
      Counted r.2 (n.access cmd true) log := by
  refine (checkAccess_ends (fun _ _ => trivial) addr nbytes).bind fun _ _ => ?_
  refine (serve_counted h cmd addr now true).bind fun r hr => ?_
  exact (latency_ends addr now r.2.cache hr.2).bind fun _ _ => .ret hr.1

/-- The requests of a call are counted as prefetches. -/
theorem generate_counted {s : Sys g (Tables × ω)} (h : Counted s n s.env.log) (PC addr : Addr) :
    Ends (Expected g) (generate out PC addr s) fun s' => ∃ k,
      Counted s' { n with prefetches := n.prefetches + k } s'.env.log ∧
        requested s'.env.log = k + requested s.env.log := by
  rcases h.inv with ⟨ord, hc⟩
  rw [generate, generatePrefetch_probe hc]
  let r := predictions g s.cache.resident PC addr s.tables
  let s₁ : Sys g (Tables × ω) := s.predicted PC addr r.1
  have hrequests : requested s₁.env.log = r.2.length + requested s.env.log := by
    have hevent : Event.requests (.generate PC addr s.cache s.tables) = r.2.length := by
      rw [Event.requests, generatePrefetch_probe hc]
    rw [← hevent]
    rfl
  -- The loop over the requests counts each of them when it is served.
  have hloop : Ends (Expected g) (r.2.foldlM (request out) s₁) fun s' =>
      Counted s' { n with prefetches := n.prefetches + r.2.length } s₁.env.log := by
    refine Ends.foldlM (fun pre s' =>
      Counted s' { n with prefetches := n.prefetches + pre.length } s₁.env.log) r.2 ?_ ?_
    · exact ⟨h.inv, h.balanced, rfl⟩
    · intro pre baddr s' _ hs'
      rw [List.length_append, List.length_singleton]
      exact (prefetch_counted hs' .Read baddr _ 0).bind fun _ hr => .ret hr
  refine Ends.mono hloop fun s' hs' => ⟨r.2.length, ⟨hs'.inv, hs'.balanced, rfl⟩, ?_⟩
  rw [requested_congr hs'.log, hrequests]

/-- One more operation, which has made `k` requests. -/
theorem accesses_append (ops : List Op) (op : Op) {k : Nat} {log log' : List (Event g)}
    (h : requested log' = k + requested log) :
    accesses (ops ++ [op]) log' =
      { demands := (accesses ops log).demands + [op].countP Op.isDemand
        reads := (accesses ops log).reads + [op].countP Op.isRead
        prefetches := (accesses ops log).prefetches + [op].countP Op.isPrefetch + k } := by
  unfold accesses
  rw [List.countP_append, List.countP_append, List.countP_append, h]
  exact congrArg _ (by dsimp only; omega)

/-- An operation that leaves the counters alone. -/
theorem Counted.quiet {ops : List Op} {op : Op} {s s' : Sys g (Tables × ω)}
    (h : Counted s' (accesses ops s.env.log) s.env.log) (hdemand : op.isDemand = false)
    (hread : op.isRead = false) (hprefetch : op.isPrefetch = false) :
    Counted s' (accesses (ops ++ [op]) s'.env.log) s'.env.log := by
  have hzero : requested s'.env.log = 0 + requested s.env.log :=
    (requested_congr h.log).trans (Nat.zero_add _).symm
  rw [accesses_append ops op hzero, List.countP_singleton, List.countP_singleton,
    List.countP_singleton, hdemand, hread, hprefetch]
  exact ⟨h.inv, h.balanced, rfl⟩

/-- Every operation is counted. -/
theorem step_counted {ops : List Op} {s : Sys g (Tables × ω)}
    (h : Counted s (accesses ops s.env.log) s.env.log) (op : Op) :
    Ends (Expected g) (step out s op) fun s' =>
      Counted s' (accesses (ops ++ [op]) s'.env.log) s'.env.log := by
  rcases h.inv with ⟨ord, hc⟩
  cases op with
  | demand PC cmd addr nbytes now =>
      refine (?_ : Ends _ (cacheAccess out _ cmd addr nbytes now false s) _).bind
        fun _ hr => .ret hr
      refine (checkAccess_ends (fun _ _ => trivial) addr nbytes).bind fun _ _ => ?_
      refine (serve_counted h cmd addr now false).bind fun r hr => ?_
      have hserved : Counted r.2 ((accesses ops s.env.log).access cmd false) r.2.env.log :=
        ⟨hr.1.inv, hr.1.balanced, rfl⟩
      refine (generate_counted hserved PC addr).bind fun s' hs' => ?_
      refine (latency_ends addr now s'.cache hr.2).bind fun _ _ => .ret ?_
      rcases hs' with ⟨k, hs', hk⟩
      rw [requested_congr hr.1.log] at hk
      rw [accesses_append ops (.demand PC cmd addr nbytes now) hk]
      cases cmd <;> exact hs'
  | prefetch addr nbytes now =>
      refine (prefetch_counted h .Read addr nbytes now).bind fun r hr => .ret ?_
      have hzero : requested r.2.env.log = 0 + requested s.env.log :=
        (requested_congr hr.log).trans (Nat.zero_add _).symm
      rw [accesses_append ops (.prefetch addr nbytes now) hzero]
      exact ⟨hr.inv, hr.balanced, rfl⟩
  | flush now =>
      refine ((flush_ends hc now s.env).meet ((flush_balanced now s.cache s.env h.balanced).meet
        (flush_frame (keeps_true out) now s.cache trivial) fun _ _ he => he) fun _ he _ => he).bind
        fun r hr => .ret ?_
      rcases hr with ⟨⟨hc', -⟩, hbalanced, hframe⟩
      exact Counted.quiet ⟨⟨ord, hc'⟩, hbalanced, hframe.2⟩ rfl rfl rfl
  | flushAddr addr now =>
      refine ((flushAddr_ends hc addr now s.env).meet ((flushAddr_balanced addr now s.env hc
        h.balanced).meet (flushAddr_frame (keeps_true out) addr now s.cache trivial)
        fun _ he _ => he) fun _ he _ => he).bind fun r hr => .ret ?_
      rcases hr with ⟨⟨ord', hc', -⟩, hbalanced, hframe⟩
      exact Counted.quiet ⟨⟨ord', hc'⟩, hbalanced, hframe.2⟩ rfl rfl rfl

end Run

/-- After every run, every access of the program has been counted as a hit or
    as a miss, and so has every read, and every prefetch of the level above or
    of the prefetcher. The valid blocks are those that were filled and have
    not been replaced or invalidated, there is room for them, and no more
    blocks were written back than have gone out. -/
theorem statistics_balance (g : Geometry) (out : Outside (Tables × ω)) (t : Tables) (w : ω)
    (ops : List Op) : Ends (Expected g) (run g out t w ops) fun s =>
      s.cache.hits + s.cache.misses = ops.countP Op.isDemand ∧
      s.cache.readHits + s.cache.readMisses = ops.countP Op.isRead ∧
      s.cache.prefetchHits + s.cache.prefetchMisses
        = ops.countP Op.isPrefetch + requested s.env.log ∧
      s.cache.valids + s.cache.replacements + s.cache.invalidations
        = s.cache.misses + s.cache.prefetchMisses ∧
      s.cache.valids ≤ g.nsets * g.assoc ∧
      s.cache.writebacks ≤ s.cache.replacements + s.cache.invalidations := by
  have hvalids : (cacheCreate g).valids = 0 := by
    refine Finset.card_eq_zero.mpr (Finset.filter_eq_empty_iff.mpr fun p _ => ?_)
    rw [Blk.valid_of_status (status_create p)]
    exact Bool.false_ne_true
  let s₀ := initial g t w
  have hinit : Counted s₀ (accesses [] s₀.env.log) s₀.env.log :=
    ⟨⟨_, Inv.create g⟩, ⟨rfl, rfl, rfl, hvalids, Nat.zero_le _⟩, rfl⟩
  have hrun : Ends (Expected g) (run g out t w ops) fun s =>
      Counted s (accesses ops s.env.log) s.env.log :=
    Ends.foldlM (fun pre s => Counted s (accesses pre s.env.log) s.env.log) ops hinit
      fun _ op _ _ hs => step_counted hs op
  refine hrun.mono fun s hs => ?_
  exact ⟨hs.balanced.demands, hs.balanced.reads, hs.balanced.prefetches, hs.balanced.blocks,
    valids_le s.cache, hs.balanced.writebacks⟩

end Cache

end MicroArch
