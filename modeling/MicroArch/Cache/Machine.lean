import MicroArch.Cache.Access

/-!
# Runs of a Cache

`cache_access` as a whole, with the prefetches it makes, and the sequences of
operations a cache goes through.

An access is served first, by a hit or a miss, then calls its prefetcher, and
last looks up its latency. The prefetcher requests blocks by accesses to the
same cache, which are served in the same way but call no prefetcher. The
tables of the prefetchers are global, so they are part of the state that the
outside may change.

The source decides by a flag whether an access calls the prefetcher. Here the
call is an argument of `cacheAccess`, so that the recursion is visible: the
accesses that a prefetcher makes are given none.

## Main definitions

* `serve`: An access up to the prefetch.
* `cacheAccess`: A whole access.
* `generate`: `generate_prefetch`, with the accesses it makes.
* `Op`, `run`: The operations, and the run of a sequence of them.
* `Expected`: The faults that a well-formed cache can have.
* `oneBlock`, `memory`: A small cache in front of a memory.
-/

namespace MicroArch

namespace Cache

variable {g : Geometry} {σ : Type}

/-- A cache and what surrounds it. -/
structure Sys (g : Geometry) (σ : Type) where
  cache : State g
  env : Env g σ

/-- The cache and its surroundings after an operation. -/
def State.Timed.sys (r : State.Timed g σ) : Sys g σ := { cache := r.cache, env := r.env }

/-- How an access was answered: by a miss, whose latency is known, or by a
    hit, which waits for its block. -/
inductive Answer (g : Geometry) where
  | miss (lat : BitVec 32)
  | hit (blk : Option (BlkPtr g))

/-- The checks of an access. -/
def checkAccess (g : Geometry) (addr : Addr) (nbytes : BitVec 32) : Except Fault Unit :=
  -- The test for a power of two lets 0 pass, and the sum below wraps around, as in the source.
  if nbytes &&& (nbytes - 1) ≠ 0 ∨ addr &&& (nbytes - 1) ≠ 0 then
    .error (.fatal "cache: access error: bad size or alignment, addr 0x%08x" addr)
  else if addr + nbytes > g.cacheBaddr addr + BitVec.ofNat 32 g.bsize then
    .error (.fatal "cache: access error: access spans block, addr 0x%08x" addr)
  else .ok ()

/-- An access up to the prefetch. -/
def serve (out : Outside σ) (cmd : Cmd) (addr : Addr) (now : Tick) (prefetch : Bool)
    (s : Sys g σ) : Except Fault (Answer g × Sys g σ) := do
  match ← s.cache.lookup addr with
  | .miss =>
      let r ← State.fill out cmd addr now prefetch s.cache s.env
      return (.miss r.lat, { cache := r.cache, env := r.env })
  | .hit p =>
      let c ← s.cache.touch cmd addr prefetch p
      return (.hit (some p), { cache := c, env := s.env.note (.hit p cmd addr prefetch) })
  | .fastHit blk =>
      let c ← s.cache.fastTouch cmd addr prefetch blk
      -- Without a block there is no hit to note; the access ends when it looks at its latency.
      let e := match blk with
        | some p => s.env.note (.hit p cmd addr prefetch)
        | none => s.env
      return (.hit blk, { cache := c, env := e })

/-- The latency of an access. A hit looks at its block only now. -/
def latency (addr : Addr) (now : Tick) (c : State g) : Answer g → Except Fault (BitVec 32)
  | .miss lat => .ok lat
  | .hit (some p) => .ok (c.hitLatency now p)
  | .hit none => .error (.nullBlock addr)

/-- Only regular cache accesses can generate a prefetch. -/
def afterwards (generate : Sys g σ → Except Fault (Sys g σ)) (prefetch : Bool) (s : Sys g σ) :
    Except Fault (Sys g σ) :=
  if prefetch then .ok s else generate s

/-- `cache_access`, with the call of the prefetcher as an argument. -/
def cacheAccess (out : Outside σ) (generate : Sys g σ → Except Fault (Sys g σ)) (cmd : Cmd)
    (addr : Addr) (nbytes : BitVec 32) (now : Tick) (prefetch : Bool) (s : Sys g σ) :
    Except Fault (BitVec 32 × Sys g σ) := do
  checkAccess g addr nbytes
  let (answer, s) ← serve out cmd addr now prefetch s
  -- The prefetch comes before the latency of a hit is looked up.
  let s ← afterwards generate prefetch s
  let lat ← latency addr now s.cache answer
  return (lat, s)

/-- A block is requested by a prefetcher. -/
def request (out : Outside σ) (s : Sys g σ) (baddr : Addr) : Except Fault (Sys g σ) := do
  let (_, s) ← cacheAccess out pure .Read baddr (BitVec.ofNat 32 g.bsize) 0 true s
  return s

/-! ### With tables -/

variable {ω : Type}

/-- The tables the prefetchers use. -/
def Sys.tables (s : Sys g (Tables × ω)) : Tables := s.env.shared.1

/-- The call of a prefetcher is entered in the log and has changed the
    tables. -/
def Sys.predicted (s : Sys g (Tables × ω)) (PC addr : Addr) (t : Tables) : Sys g (Tables × ω) :=
  { s with env :=
      { shared := (t, s.env.shared.2), log := .generate PC addr s.cache s.tables :: s.env.log } }

/-- `generate_prefetch`. -/
def generate (out : Outside (Tables × ω)) (PC addr : Addr) (s : Sys g (Tables × ω)) :
    Except Fault (Sys g (Tables × ω)) := do
  let (t, requests) ← generatePrefetch g s.cache.probe PC addr s.tables
  -- The requests were chosen by the cache as it was before the first of them.
  requests.foldlM (request out) (s.predicted PC addr t)

/-- The operations on a cache: an access of the program, which runs at `PC`,
    or of the level above; a prefetch of the level above, which is a read;
    and the flushes. -/
inductive Op where
  | demand (PC : Addr) (cmd : Cmd) (addr : Addr) (nbytes : BitVec 32) (now : Tick)
  | prefetch (addr : Addr) (nbytes : BitVec 32) (now : Tick)
  | flush (now : Tick)
  | flushAddr (addr : Addr) (now : Tick)

/-- One operation. -/
def step (out : Outside (Tables × ω)) (s : Sys g (Tables × ω)) :
    Op → Except Fault (Sys g (Tables × ω))
  | .demand PC cmd addr nbytes now => do
      let (_, s) ← cacheAccess out (generate out PC addr) cmd addr nbytes now false s
      return s
  | .prefetch addr nbytes now => do
      let (_, s) ← cacheAccess out pure .Read addr nbytes now true s
      return s
  | .flush now => do
      let r ← State.flush out now s.cache s.env
      return { cache := r.cache, env := r.env }
  | .flushAddr addr now => do
      let r ← State.flushAddr out addr now s.cache s.env
      return { cache := r.cache, env := r.env }

/-- A cache as it is created, between tables and an outside in some state. -/
def initial (g : Geometry) (t : Tables) (w : ω) : Sys g (Tables × ω) :=
  { cache := cacheCreate g, env := { shared := (t, w), log := [] } }

/-- The run of a sequence of operations on a new cache. -/
def run (g : Geometry) (out : Outside (Tables × ω)) (t : Tables) (w : ω) (ops : List Op) :
    Except Fault (Sys g (Tables × ω)) :=
  ops.foldlM (step out) (initial g t w)

/-- The faults that a well-formed cache can have: the two checks of an access,
    any fault of the next level, and an access to block address zero when no
    block was the last one to hit. -/
def Expected (g : Geometry) : Fault → Prop
  | .fatal _ _ => True
  | .outside _ => True
  | .nullBlock addr => g.cacheBaddr addr = 0
  | .nullPointer => False
  | .assertion _ => False
  | .endless => False

/-! ### A small cache -/

/-- A cache of one block. -/
def oneBlock : Geometry :=
  { nsets := 1, bsize := 8, assoc := 1, policy := .LRU, hitLatency := 1, prefetchType := 0
    nsets_pos := by decide, nsets_pow := by decide, bsize_le := by decide, bsize_pow := by decide
    assoc_pos := by decide, assoc_pow := by decide, nsets_lt := by decide, bsize_lt := by decide
    assoc_lt := by decide, prefetchType_lt := by decide }

/-! Two and four are accepted as numbers of sets and of blocks in a set. -/

theorem powerOfTwo_two : powerOfTwo 2 := by decide

theorem powerOfTwo_four : powerOfTwo 4 := by decide

theorem two_lt_int : 2 < 2147483648 := by decide

theorem four_lt_int : 4 < 2147483648 := by decide

theorem pos_four : 0 < 4 := by decide

/-- A memory behind a cache, which answers at once, and random numbers that
    are all zero. -/
def memory : Outside (Tables × Unit) :=
  { blkAccess := fun _ _ _ _ _ σ => .ok (1, σ), myrand := fun σ => (0, σ) }

end Cache

end MicroArch
