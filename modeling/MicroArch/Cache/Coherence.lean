import MicroArch.Cache.WellFormed

/-!
# Accesses and Probes

Whether an access hits and what a probe of the same address tells. Both search
the set in the same way, but an access looks at the last block to hit first.
It recognizes it by a block address, and when there is no such block the
recorded address is zero. That is also the address of a block of memory.

A block address tells the tag only where the sets fit into the memory. Beyond
that, the tag has bits of the offset in the block, and two addresses of one
block of memory may have two tags: after a hit on the one, an access to the
other is taken for a hit, and a probe does not find it.

The states are those of any run and also the ones between an access and the
requests of its prefetcher, in which probes are made. What surrounds the cache
may be any state at any time, so the result holds in a hierarchy as well.

## Main definitions

* `Reachable`: The states of a cache, also between an access and the prefetches
  it makes.
* `Agrees`: An access to an address hits if and only if the probe does, and the
  last block to hit is the one it is taken for.
* `Mistaken`: The last block to hit is one it is not.

## Theorems

* `reachable_run`: Runs go through reachable states.
* `agrees_iff`: Where accesses and probes agree.
* `block_zero_disagrees`: They do not in a new cache, at address zero.
-/

namespace MicroArch

namespace Cache

variable {g : Geometry} {σ ω : Type}

/-- The states of a cache. What surrounds it may change at any time, and a
    prefetch is an access. -/
inductive Reachable (out : Outside σ) : Sys g σ → Prop
  | create (e : Env g σ) : Reachable out { cache := cacheCreate g, env := e }
  | surround {s : Sys g σ} (e : Env g σ) (hs : Reachable out s) : Reachable out { s with env := e }
  | serve {s : Sys g σ} {cmd : Cmd} {addr : Addr} {now : Tick} {prefetch : Bool}
      {r : Answer g × Sys g σ} (hs : Reachable out s)
      (h : serve out cmd addr now prefetch s = .ok r) : Reachable out r.2
  | flush {s : Sys g σ} {now : Tick} {r : State.Timed g σ} (hs : Reachable out s)
      (h : State.flush out now s.cache s.env = .ok r) : Reachable out r.sys
  | flushAddr {s : Sys g σ} {addr : Addr} {now : Tick} {r : State.Timed g σ}
      (hs : Reachable out s) (h : State.flushAddr out addr now s.cache s.env = .ok r) :
      Reachable out r.sys

/-- The path of an access is one of the hits. -/
def State.Path.isHit : State.Path g → Bool
  | .miss => false
  | .hit _ => true
  | .fastHit _ => true

/-- An access to the address takes a hit path if and only if a probe finds its
    block, and if it is recognized as one to the last block to hit, that is a
    valid block of the address's set and holds its tag. -/
def Agrees (c : State g) (addr : Addr) : Prop :=
  (∃ path found, c.lookup addr = .ok path ∧ c.probe addr = .ok found ∧ path.isHit = found) ∧
    (g.cacheTagset addr = c.lastTagset → ∃ p, c.lastBlk = some p ∧ (c.blk p).valid ∧
      p.1 = g.cacheSet addr ∧ (c.blk p).tag = g.cacheTag addr)

/-- An address is recognized as one of the last block to hit, in a cache whose
    sets do not fit into the memory, and its tag is another one. -/
def Mistaken (c : State g) (addr : Addr) : Prop :=
  ¬ g.Fits ∧ g.cacheTagset addr = c.lastTagset ∧
    ∃ p, c.lastBlk = some p ∧ (c.blk p).tag ≠ g.cacheTag addr

theorem Reachable.inv {out : Outside σ} {s : Sys g σ} (hs : Reachable out s) :
    ∃ ord, Inv s.cache ord := by
  induction hs with
  | create e => exact ⟨_, Inv.create g⟩
  | surround e hs ih => exact ih
  | serve hs h ih =>
      rcases ih with ⟨ord, hc⟩
      rcases (serve_ends hc _ _ _ _).of_eq h with ⟨ord', hc', -⟩
      exact ⟨ord', hc'⟩
  | flush hs h ih =>
      rcases ih with ⟨ord, hc⟩
      exact ⟨ord, ((flush_ends hc _ _).of_eq h).1⟩
  | flushAddr hs h ih =>
      rcases ih with ⟨ord, hc⟩
      rcases (flushAddr_ends hc _ _ _).of_eq h with ⟨ord', hc', -⟩
      exact ⟨ord', hc'⟩

/-- Runs go through reachable states. -/
theorem reachable_run (g : Geometry) (out : Outside (Tables × ω)) (t : Tables) (w : ω)
    (ops : List Op) : Ends (Expected g) (run g out t w ops) (Reachable out) := by
  have hinv : RunInvariant (Expected g) out fun s : Sys g (Tables × ω) => Reachable out s := by
    have hinv := runInvariant_inv (g := g) out
    refine ⟨fun _ _ => trivial, fun s cmd addr now prefetch hs => ?_, fun s PC addr hs => ?_,
      fun s now hs => ?_, fun s addr now hs => ?_⟩
    · refine ((hinv.serve s cmd addr now prefetch hs.inv).and_of_ok fun r hr => hs.serve hr).mono
        fun r hr => ⟨hr.2, hr.1.2⟩
    · exact (hinv.predict s PC addr hs.inv).mono fun r _ => hs.surround _
    · exact ((hinv.flush s now hs.inv).and_of_ok fun r hr => hs.flush hr).mono fun r hr => hr.2
    · exact ((hinv.flushAddr s addr now hs.inv).and_of_ok fun r hr => hs.flushAddr hr).mono
        fun r hr => hr.2
  exact hinv.run (.create _) ops

/-- A block address that is recognized without a last block to hit. -/
theorem not_agrees_of_null {c : State g} {ord : Order g} (hc : Inv c ord) {addr : Addr}
    (hlast : c.lastBlk = none) (hzero : g.cacheBaddr addr = 0) : ¬ Agrees c addr := by
  intro h
  have htagset := hc.last
  rw [LastBlock, hlast] at htagset
  rcases h.2 (hzero.trans htagset.symm) with ⟨p, hp, -⟩
  exact absurd (hp.symm.trans hlast) (Option.some_ne_none p)

/-- A block that is recognized as the one of an address is mistaken for it, or
    it holds it. -/
theorem Covers.holds_of_not_mistaken {c : State g} {p : BlkPtr g} {addr : Addr}
    (h : Covers c p addr) (hlast : c.lastBlk = some p) (htagset : g.cacheTagset addr = c.lastTagset)
    (hnot : ¬ Mistaken c addr) : Holds c p addr := by
  by_cases hfits : g.Fits
  · exact h.holds hfits
  · have htag : (c.blk p).tag = g.cacheTag addr := by
      by_contra hne
      exact hnot ⟨hfits, htagset, p, hlast, hne⟩
    exact ⟨h.valid_set.1, h.valid_set.2, htag⟩

theorem not_agrees_of_mistaken {c : State g} {addr : Addr} (h : Mistaken c addr) :
    ¬ Agrees c addr := by
  rintro ⟨-, hagrees⟩
  rcases h with ⟨-, htagset, p, hlast, hne⟩
  -- The block it is taken for would have to have the tag of the address.
  rcases hagrees htagset with ⟨q, hq, -, -, htag⟩
  rw [hlast, Option.some.injEq] at hq
  subst hq
  exact hne htag

/-- A fast hit is one on the last block to hit. -/
theorem lookup_fastHit {c : State g} {ord : Order g} (hc : Inv c ord) {addr : Addr}
    {blk : Option (BlkPtr g)} (h : c.lookup addr = .ok (.fastHit blk)) :
    g.cacheTagset addr = c.lastTagset := by
  by_contra hne
  rcases hc.rep.searchSet (g.cacheSet addr) (g.cacheTag addr) with ⟨r, hsearch, -⟩
  rw [State.lookup, if_neg hne, hsearch] at h
  rcases r with _ | b <;> cases h

/-- In every reachable state of every cache, an access and a probe of an
    address agree except when the address is in block zero and there is no last
    block to hit, or the last block to hit is mistaken for its block. -/
theorem agrees_iff (out : Outside σ) (s : Sys g σ) (hs : Reachable out s) (addr : Addr) :
    Agrees s.cache addr ↔
      ¬ (g.cacheBaddr addr = 0 ∧ s.cache.lastBlk = none) ∧ ¬ Mistaken s.cache addr := by
  rcases hs.inv with ⟨ord, hc⟩
  constructor
  · intro h
    exact ⟨fun hnull => not_agrees_of_null hc hnull.2 hnull.1 h,
      fun hmistaken => not_agrees_of_mistaken hmistaken h⟩
  rintro ⟨hnull, hnot⟩
  constructor
  · -- An access hits if and only if the probe does.
    -- The paths of a lookup, each with what it says of the block.
    rcases lookup_eq hc addr with ⟨path, hlookup, hfinds⟩
    refine ⟨path, s.cache.resident addr, hlookup, congrFun (probe_eq hc) addr, ?_⟩
    have hresident : ∀ p, Holds s.cache p addr → s.cache.resident addr := fun p hp =>
      (resident_iff ..).mpr ⟨p.2, by rw [← hp.2.1]; exact hp⟩
    cases hfinds with
    | miss hmiss =>
        -- A miss has searched the set, as a probe does.
        have hnone : ¬ s.cache.resident addr := by
          rw [resident_iff]
          rintro ⟨b, hb⟩
          exact hmiss b hb
        rw [Bool.not_eq_true] at hnone
        exact hnone.symm
    | hit p hp => exact (hresident p hp).symm
    | fastHit p hlast hp =>
        -- A fast hit has not searched, so it tells nothing when the block is mistaken.
        have htagset := lookup_fastHit hc hlookup
        exact (hresident p (hp.holds_of_not_mistaken hlast htagset hnot)).symm
    | null hlast h => exact absurd ⟨h, hlast⟩ hnull
  · -- The last block to hit is the one it is taken for.
    intro htagset
    rcases hlast : s.cache.lastBlk with _ | p
    · have hzero := hc.last
      rw [LastBlock, hlast] at hzero
      exact absurd ⟨htagset.trans hzero, hlast⟩ hnull
    · exact ⟨p, rfl, (hc.last_covers hlast htagset).holds_of_not_mistaken hlast htagset hnot⟩

/-- Two sets of two blocks, with the prefetcher of the next block. -/
def nextLine : Geometry :=
  { oneBlock with
    nsets := 2, assoc := 2, prefetchType := 1
    nsets_pos := Nat.two_pos, nsets_pow := powerOfTwo_two, nsets_lt := two_lt_int
    assoc_pos := Nat.two_pos, assoc_pow := powerOfTwo_two, assoc_lt := two_lt_int
    prefetchType_lt := oneBlock.nsets_lt }

/-- After misses, prefetches, two hits and a flush of one block, an access and a
    probe agree at the last block to hit, at one that was prefetched, at one
    that was flushed, and in block zero. -/
theorem agrees_after_hits : ∃ s, run nextLine memory (Tables.initial.create 1) ()
      [.demand 4 .Read 8 1 0, .demand 4 .Write 40 1 0, .flushAddr 40 0, .demand 8 .Read 16 1 0,
        .demand 8 .Read 20 1 0] = .ok s ∧
    s.cache.lastBlk.isSome ∧ Agrees s.cache 16 ∧ Agrees s.cache 24 ∧ Agrees s.cache 40 ∧
    Agrees s.cache 0 := by
  have hends : ∃ s, run nextLine memory (Tables.initial.create 1) ()
      [.demand 4 .Read 8 1 0, .demand 4 .Write 40 1 0, .flushAddr 40 0, .demand 8 .Read 16 1 0,
        .demand 8 .Read 20 1 0] = .ok s ∧ s.cache.lastBlk.isSome :=
    ⟨_, rfl, by decide +kernel⟩
  have hfits : nextLine.Fits := by decide
  rcases hends with ⟨s, hrun, hlast⟩
  have hreachable := (reachable_run nextLine memory _ _ _).of_eq hrun
  have hsome : s.cache.lastBlk ≠ none := Option.isSome_iff_ne_none.mp hlast
  have hagrees : ∀ addr, Agrees s.cache addr := fun addr =>
    (agrees_iff memory s hreachable addr).mpr ⟨fun h => hsome h.2, fun h => h.1 hfits⟩
  exact ⟨s, hrun, hlast, hagrees 16, hagrees 24, hagrees 40, hagrees 0⟩

/-- In a new cache an access to address zero takes the hit path of no block. -/
theorem block_zero_disagrees :
    ¬ ∀ s : Sys oneBlock (Tables × Unit), Reachable memory s → ∀ addr, Agrees s.cache addr := by
  intro h
  have hzero : oneBlock.cacheBaddr 0 = 0 := by decide
  exact not_agrees_of_null (Inv.create oneBlock) rfl hzero (h _ (.create ⟨(.initial, ()), []⟩) 0)

end Cache

end MicroArch
