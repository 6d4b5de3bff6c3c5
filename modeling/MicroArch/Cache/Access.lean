import MicroArch.Cache.Prefetch

/-!
# Accesses and Flushes

The parts of `cache_access`, and `cache_probe`, `cache_flush` and
`cache_flush_addr`, as functions on one cache.

What lies behind the cache is a parameter: the function `blk_access_fn`, which
reads and writes whole blocks in the next level and answers with a latency,
and the source of random numbers. Both may depend on a state of their own and
change it, so they stand for any further levels and any random choices. The
next level may also have a fault of its own, which ends the program.

Along with the cache goes a log of what happens in it. Nothing reads the log;
the properties of a run are about it. It has an entry for every call of
`blk_access_fn`, for every hit and every block that is filled, and for every
valid block that is replaced or invalidated.

A latency is an `int` and a time a 64-bit integer, and so they are here.

## Main definitions

* `Outside`: What lies behind a cache.
* `Event`, `Env`: The log, and the state of the outside.
* `State.lookup`: How an access finds its block.
* `State.probe`: Whether a block would be found.
* `State.fill`, `State.touch`, `State.fastTouch`: A miss and the two hits.
* `State.flush`, `State.flushAddr`: The flushes.
-/

namespace MicroArch

namespace Cache

variable {g : Geometry}

/-- The next level, by its answer to a read or write of a block at a time,
    and the source of random numbers. -/
structure Outside (σ : Type) where
  blkAccess : Cmd → Addr → Nat → Tick → Bool → σ → Except Fault (BitVec 32 × σ)
  myrand : σ → BitVec 32 × σ

/-- An entry of the log. A fill also has the address of the block that was
    replaced, and the call of a prefetcher what the prefetcher looks at. -/
inductive Event (g : Geometry) where
  | hit (blk : BlkPtr g) (cmd : Cmd) (addr : Addr) (prefetch : Bool)
  | fill (blk : BlkPtr g) (cmd : Cmd) (addr : Addr) (prefetch : Bool) (replaced : Option Addr)
  | leave (blk : BlkPtr g)
  | call (cmd : Cmd) (baddr : Addr)
  | flush
  | flushAddr (addr : Addr)
  | generate (PC addr : Addr) (cache : State g) (tables : Tables)

/-- What surrounds the cache: the state of the outside and the log, with its
    latest entry first. -/
structure Env (g : Geometry) (σ : Type) where
  shared : σ
  log : List (Event g)

namespace Env

variable {σ : Type}

/-- An entry is made in the log. -/
def note (e : Env g σ) (ev : Event g) : Env g σ := { e with log := ev :: e.log }

/-- A call of `blk_access_fn`. -/
def call (out : Outside σ) (cmd : Cmd) (baddr : Addr) (now : Tick) (prefetch : Bool)
    (e : Env g σ) : Except Fault (BitVec 32 × Env g σ) :=
  match out.blkAccess cmd baddr g.bsize now prefetch e.shared with
  | .ok (lat, shared) => .ok (lat, { shared := shared, log := .call cmd baddr :: e.log })
  | .error fault => .error (.outside fault)

end Env

/-! ### Times -/

/-- A latency as a time. -/
def ticks (lat : BitVec 32) : Tick := lat.signExtend 64

/-- `MAX` of two times. -/
def maxTick (a b : Tick) : Tick := if b.slt a then a else b

/-- `BOUND_POS`. -/
def boundPos (t : Tick) : BitVec 32 :=
  if t.slt 0 then 0 else if (2147483647 : Tick).slt t then 2147483647 else t.setWidth 32

namespace State

/-- A set of the cache changed. -/
def modifySet (c : State g) (i : Fin g.nsets)
    (f : CacheSet g.assoc g.hsize → CacheSet g.assoc g.hsize) : State g :=
  { c with sets := Function.update c.sets i (f (c.sets i)) }

/-- The block behind a pointer. -/
def blk (c : State g) (p : BlkPtr g) : Blk g.assoc := (c.sets p.1).blks p.2

/-- The block behind a pointer changed. -/
def modifyBlk (c : State g) (p : BlkPtr g) (f : Blk g.assoc → Blk g.assoc) : State g :=
  c.modifySet p.1 fun s => s.modifyBlk p.2 f

/-! ### Lookup -/

/-- The result of a loop, which is missing if the loop does not end. -/
def orEndless {α : Type} : Option α → Except Fault α
  | some a => .ok a
  | none => .error .endless

/-- The block of a set that is valid and has the tag: along the bucket chain
    in a highly associative cache, along the way list otherwise. -/
def searchSet (c : State g) (set : Fin g.nsets) (tag : Addr) :
    Except Fault (Option (Fin g.assoc)) :=
  let s := c.sets set
  let test := fun b => (s.blks b).tag == tag && (s.blks b).valid
  orEndless (match g.bucket tag with
    | some hindex => Pointer.search (fun b => (s.blks b).hashNext) test g.assoc (s.hash hindex)
    | none => Pointer.search (fun b => (s.blks b).wayNext) test g.assoc s.wayHead)

/-- The ways an access can take. A fast hit is on whatever block was the last
    one to hit. -/
inductive Path (g : Geometry) where
  | miss
  | hit (blk : BlkPtr g)
  | fastHit (blk : Option (BlkPtr g))

/-- How an access finds its block: as the last one to hit, or by a search of
    its set. -/
def lookup (c : State g) (addr : Addr) : Except Fault (Path g) :=
  if g.cacheTagset addr = c.lastTagset then .ok (.fastHit c.lastBlk)
  else do
    match ← c.searchSet (g.cacheSet addr) (g.cacheTag addr) with
    | some blk => return .hit (g.cacheSet addr, blk)
    | none => return .miss

/-- `cache_probe`. -/
def probe (c : State g) (addr : Addr) : Except Fault Bool := do
  let blk ← c.searchSet (g.cacheSet addr) (g.cacheTag addr)
  return blk.isSome

/-! ### Hits -/

/-- The counters of a hit. -/
def countHit (c : State g) (cmd : Cmd) (prefetch : Bool) : State g :=
  if prefetch then { c with prefetchHits := c.prefetchHits + 1 }
  else
    { c with
      hits := c.hits + 1
      readHits := if cmd = .Read then c.readHits + 1 else c.readHits }

/-- A write makes the block dirty. -/
def markDirty (c : State g) (cmd : Cmd) (p : BlkPtr g) : State g :=
  if cmd = .Write then c.modifyBlk p fun b => { b with status := b.status ||| CACHE_BLK_DIRTY }
  else c

/-- Records the last block to hit. -/
def recordLast (c : State g) (addr : Addr) (blk : Option (BlkPtr g)) : State g :=
  { c with lastTagset := g.cacheTagset addr, lastBlk := blk }

/-- If LRU replacement and this is not the first element of list, reorder. -/
def reorder (c : State g) (p : BlkPtr g) : Except Fault (State g) :=
  if (c.blk p).wayPrev ≠ none ∧ g.policy = .LRU then do
    let s ← (c.sets p.1).updateWayList p.2 .Head
    return c.modifySet p.1 fun _ => s
  else .ok c

/-- `cache_hit`, up to the prefetch. -/
def touch (c : State g) (cmd : Cmd) (addr : Addr) (prefetch : Bool) (p : BlkPtr g) :
    Except Fault (State g) := do
  let c ← ((c.countHit cmd prefetch).markDirty cmd p).reorder p
  return c.recordLast addr (some p)

/-- `cache_fast_hit`, up to the prefetch. A write to no block dereferences the
    null pointer; a read does so only when it returns. -/
def fastTouch (c : State g) (cmd : Cmd) (addr : Addr) (prefetch : Bool) (blk : Option (BlkPtr g)) :
    Except Fault (State g) :=
  let c := c.countHit cmd prefetch
  match blk with
  | some p => .ok ((c.markDirty cmd p).recordLast addr (some p))
  | none => if cmd = .Write then .error (.nullBlock addr) else .ok (c.recordLast addr none)

/-- The latency of a hit. -/
def hitLatency (c : State g) (now : Tick) (p : BlkPtr g) : BitVec 32 :=
  (maxTick (g.hitLatency.zeroExtend 64) ((c.blk p).ready - now)).setWidth 32

/-! ### Misses -/

/-- The counters of a miss. -/
def countMiss (c : State g) (cmd : Cmd) (prefetch : Bool) : State g :=
  if prefetch then { c with prefetchMisses := c.prefetchMisses + 1 }
  else
    { c with
      misses := c.misses + 1
      readMisses := if cmd = .Read then c.readMisses + 1 else c.readMisses }

variable {σ : Type}

/-- The block to replace. In LRU and FIFO order it is the last one of the way
    list and becomes the first. -/
def selectVictim (out : Outside σ) (set : Fin g.nsets) (c : State g) (e : Env g σ) :
    Except Fault (Fin g.assoc × State g × Env g σ) :=
  match g.policy with
  | .Random =>
      let (r, shared) := out.myrand e.shared
      .ok (⟨(r &&& BitVec.ofNat 32 (g.assoc - 1)).toNat, by
        rw [Geometry.toNat_and_mask _ g.assoc_pos g.assoc_pow g.assoc_lt]
        exact Nat.mod_lt _ g.assoc_pos⟩, c, { e with shared := shared })
  | _ =>
      match (c.sets set).wayTail with
      | none => .error .nullPointer
      | some repl => do
          let s ← (c.sets set).updateWayList repl .Head
          return (repl, c.modifySet set fun _ => s, e)

/-- Removes a block from its bucket chain, if there is one. -/
def unlinkHash (c : State g) (p : BlkPtr g) : Except Fault (State g) :=
  match g.bucket (c.blk p).tag with
  | none => .ok c
  | some index => do
      let s ← (c.sets p.1).unlinkHtabEnt index p.2
      return c.modifySet p.1 fun _ => s

/-- Links a block into the bucket chain of its tag, if there is one. -/
def linkHash (c : State g) (p : BlkPtr g) : State g :=
  match g.bucket (c.blk p).tag with
  | none => c
  | some index => c.modifySet p.1 fun s => s.linkHtabEnt index p.2

/-- The address a block is written back to. -/
def baddr (c : State g) (p : BlkPtr g) : Addr :=
  g.cacheMkBaddr (c.blk p).tag (BitVec.ofNat 32 p.1.val)

/-- The result of an operation that took some time. -/
structure Timed (g : Geometry) (σ : Type) where
  lat : BitVec 32
  cache : State g
  env : Env g σ

/-- A dirty block is written back. -/
def writeBack (out : Outside σ) (now : Tick) (p : BlkPtr g) (r : Timed g σ) :
    Except Fault (Timed g σ) :=
  if (r.cache.blk p).dirty then do
    let c := { r.cache with writebacks := r.cache.writebacks + 1 }
    let (l, e) ← r.env.call out .Write (c.baddr p) (now + ticks r.lat) false
    return { lat := r.lat + l, cache := c, env := e }
  else .ok r

/-- The block that is replaced gives up its data: if it is valid, it waits for
    its own miss and for the bus, and is written back when it is dirty. -/
def evict (out : Outside σ) (now : Tick) (p : BlkPtr g) (c : State g) (e : Env g σ) :
    Except Fault (Timed g σ) :=
  if (c.blk p).valid then
    -- don't replace the block until outstanding misses are satisfied
    let lat := boundPos ((c.blk p).ready - now)
    -- stall until the bus to next level of memory is available
    let lat := lat + boundPos (c.busFree - (now + ticks lat))
    let c := { c with
      replacements := c.replacements + 1
      busFree := maxTick c.busFree (now + ticks lat) + 1 }
    writeBack out now p { lat := lat, cache := c, env := e.note (.leave p) }
  else .ok { lat := 0, cache := c, env := e }

/-- The new block is read and its status set. -/
def load (out : Outside σ) (cmd : Cmd) (addr : Addr) (now : Tick) (prefetch : Bool)
    (p : BlkPtr g) (r : Timed g σ) : Except Fault (Timed g σ) := do
  let c := r.cache.modifyBlk p fun b => { b with tag := g.cacheTag addr, status := CACHE_BLK_VALID }
  let (l, e) ← r.env.call out .Read (g.cacheBaddr addr) (now + ticks r.lat) prefetch
  let lat := r.lat + l
  let c := (c.markDirty cmd p).modifyBlk p fun b => { b with ready := now + ticks lat }
  return { lat := lat, cache := c.linkHash p, env := e }

/-- A miss, up to the prefetch. -/
def fill (out : Outside σ) (cmd : Cmd) (addr : Addr) (now : Tick) (prefetch : Bool)
    (c : State g) (e : Env g σ) : Except Fault (Timed g σ) := do
  let (repl, c, e) ← selectVictim out (g.cacheSet addr) (c.countMiss cmd prefetch) e
  let p := (g.cacheSet addr, repl)
  let c ← c.unlinkHash p
  -- blow away the last block to hit
  let c := { c with lastTagset := 0, lastBlk := none }
  let replaced := if (c.blk p).valid then some (c.baddr p) else none
  let r ← evict out now p c e
  let r ← load out cmd addr now prefetch p r
  return { r with env := r.env.note (.fill p cmd addr prefetch replaced) }

/-! ### Flushes -/

/-- A valid block is invalidated, and written back when it is dirty. -/
def invalidate (out : Outside σ) (now : Tick) (p : BlkPtr g) (r : Timed g σ) :
    Except Fault (Timed g σ) :=
  let c := { r.cache with invalidations := r.cache.invalidations + 1 }
  let c := c.modifyBlk p fun b => { b with status := b.status &&& ~~~ CACHE_BLK_VALID }
  writeBack out now p { r with cache := c, env := r.env.note (.leave p) }

/-- A block that a flush comes to. -/
def flushBlk (out : Outside σ) (now : Tick) (p : BlkPtr g) (r : Timed g σ) :
    Except Fault (Timed g σ) :=
  if (r.cache.blk p).valid then invalidate out now p r else .ok r

/-- The loop of a flush along the way list of a set. -/
def flushSet (out : Outside σ) (now : Tick) (i : Fin g.nsets) :
    Nat → Option (Fin g.assoc) → Timed g σ → Except Fault (Timed g σ)
  | _, none, r => .ok r
  | 0, some _, _ => .error .endless
  | fuel + 1, some b, r => do
      let r ← flushBlk out now (i, b) r
      flushSet out now i fuel (r.cache.blk (i, b)).wayNext r

/-- `cache_flush`. -/
def flush (out : Outside σ) (now : Tick) (c : State g) (e : Env g σ) :
    Except Fault (Timed g σ) :=
  let c := { c with lastTagset := 0, lastBlk := none }
  (List.finRange g.nsets).foldlM
    (fun r i => flushSet out now i g.assoc (r.cache.sets i).wayHead r)
    { lat := g.hitLatency, cache := c, env := e.note .flush }

/-- `cache_flush_addr`. -/
def flushAddr (out : Outside σ) (addr : Addr) (now : Tick) (c : State g) (e : Env g σ) :
    Except Fault (Timed g σ) := do
  let r := { lat := g.hitLatency, cache := c, env := e.note (.flushAddr addr) }
  match ← c.searchSet (g.cacheSet addr) (g.cacheTag addr) with
  | none => return r
  | some blk =>
      let p := (g.cacheSet addr, blk)
      -- Resetting the last block to hit first is no different: the write back does not read it.
      let r ← invalidate out now p { r with cache := { c with lastTagset := 0, lastBlk := none } }
      -- move this block to tail of the way (LRU) list
      let s ← (r.cache.sets p.1).updateWayList p.2 .Tail
      return { r with cache := r.cache.modifySet p.1 fun _ => s }

end State

end Cache

end MicroArch
