import MicroArch.Cache.Geometry
import MicroArch.Library.Linked

/-!
# Blocks and Sets

The data structures of a cache and the three functions that move pointers.
The blocks of a set are numbered, and a pointer to a block is its number. A
block is on the way list of its set, which is linked in both directions and
orders the set for replacement, and, in a highly associative cache, on the
bucket chain of its tag.

The data and the user data of a block are left out; nothing reads them, since
every cache of the simulators is created without its contents. The counters are
numbers that do not overflow. They are signed integers of 64 bits in the source,
so the two agree as long as every counter stays below 9223372036854775808, which
takes as many accesses, or as many blocks that were flushed.

A dereference of the null pointer, a failed assertion and a loop along a
chain that goes on past all blocks are faults, and so are the two checks that
end the program.

## Main definitions

* `Blk`, `CacheSet`, `State`: The data structures.
* `Fault`: Ways in which an operation can be stopped.
* `CacheSet.unlinkHtabEnt`, `CacheSet.linkHtabEnt`: The bucket chains.
* `CacheSet.updateWayList`: The way list.
* `cacheCreate`: The cache as it is created.
-/

namespace MicroArch

namespace Cache

/-- A time in cycles. -/
abbrev Tick := BitVec 64

def CACHE_BLK_VALID : BitVec 32 := 1

def CACHE_BLK_DIRTY : BitVec 32 := 2

/-- The commands of an access. -/
inductive Cmd where
  | Read
  | Write
  deriving DecidableEq

/-- A block of a set of `n` blocks. -/
structure Blk (n : Nat) where
  wayNext : Option (Fin n)
  wayPrev : Option (Fin n)
  hashNext : Option (Fin n)
  tag : Addr
  status : BitVec 32
  ready : Tick

/-- The block holds data. -/
def Blk.valid {n : Nat} (b : Blk n) : Bool := b.status &&& CACHE_BLK_VALID != 0

/-- The block has been written. -/
def Blk.dirty {n : Nat} (b : Blk n) : Bool := b.status &&& CACHE_BLK_DIRTY != 0

/-- A set of `n` blocks with `h` buckets. -/
structure CacheSet (n h : Nat) where
  hash : Fin h → Option (Fin n)
  wayHead : Option (Fin n)
  wayTail : Option (Fin n)
  blks : Fin n → Blk n

/-- A pointer to a block of a cache: its set and its number there. -/
abbrev BlkPtr (g : Geometry) := Fin g.nsets × Fin g.assoc

/-- A cache of the given geometry. -/
structure State (g : Geometry) where
  sets : Fin g.nsets → CacheSet g.assoc g.hsize
  busFree : Tick
  hits : Nat
  misses : Nat
  replacements : Nat
  writebacks : Nat
  invalidations : Nat
  readHits : Nat
  readMisses : Nat
  prefetchHits : Nat
  prefetchMisses : Nat
  lastTagset : Addr
  lastBlk : Option (BlkPtr g)

/-- What can stop an operation: a call of `fatal` with its text, a fault of the
    next level, or a behaviour that the source excludes. Of the
    null pointers, the one of a fast hit on no block is kept apart, with the
    address of the access. -/
inductive Fault where
  | fatal (text : String) (addr : Addr)
  | outside (fault : Fault)
  | nullBlock (addr : Addr)
  | nullPointer
  | assertion (name : String)
  | endless
  deriving DecidableEq

variable {n h : Nat}

namespace CacheSet

/-- A block of the set changed. -/
def modifyBlk (s : CacheSet n h) (b : Fin n) (f : Blk n → Blk n) : CacheSet n h :=
  { s with blks := Function.update s.blks b (f (s.blks b)) }

/-! ### Bucket chains -/

/-- `unlink_htab_ent`, for a block whose tag is hashed to the bucket. -/
def unlinkHtabEnt (s : CacheSet n h) (index : Fin h) (blk : Fin n) :
    Except Fault (CacheSet n h) :=
  -- locate the block in the hash table bucket chain
  match Pointer.locate (fun b => (s.blks b).hashNext) blk n none (s.hash index) with
  | none => .error .endless
  | some (_, none) => .error (.assertion "unlink_htab_ent")
  | some (none, some ent) =>
      -- head of hash bucket list
      .ok ({ s with hash := Function.update s.hash index (s.blks ent).hashNext }.modifyBlk ent
        fun b => { b with hashNext := none })
  | some (some prev, some ent) =>
      -- middle or end of hash bucket list
      .ok ((s.modifyBlk prev fun b => { b with hashNext := (s.blks ent).hashNext }).modifyBlk ent
        fun b => { b with hashNext := none })

/-- `link_htab_ent`. -/
def linkHtabEnt (s : CacheSet n h) (index : Fin h) (blk : Fin n) : CacheSet n h :=
  let s := s.modifyBlk blk fun b => { b with hashNext := s.hash index }
  { s with hash := Function.update s.hash index (some blk) }

/-! ### The way list -/

/-- Where to insert a block onto the way list. -/
inductive ListLoc where
  | Head
  | Tail
  deriving DecidableEq

/-- The second half of `update_way_list`: link the block back into the
    list. -/
def linkWay (s : CacheSet n h) (blk : Fin n) (loc : ListLoc) : Except Fault (CacheSet n h) :=
  match loc with
  | .Head =>
      match s.wayHead with
      | none => .error .nullPointer
      | some head =>
          let s := s.modifyBlk blk fun b => { b with wayNext := some head, wayPrev := none }
          let s := s.modifyBlk head fun b => { b with wayPrev := some blk }
          .ok { s with wayHead := some blk }
  | .Tail =>
      match s.wayTail with
      | none => .error .nullPointer
      | some tail =>
          let s := s.modifyBlk blk fun b => { b with wayPrev := some tail, wayNext := none }
          let s := s.modifyBlk tail fun b => { b with wayNext := some blk }
          .ok { s with wayTail := some blk }

/-- `update_way_list`. -/
def updateWayList (s : CacheSet n h) (blk : Fin n) (loc : ListLoc) :
    Except Fault (CacheSet n h) :=
  match (s.blks blk).wayPrev, (s.blks blk).wayNext with
  | none, none =>
      -- only one entry in list (direct-mapped), no action
      if s.wayHead = some blk ∧ s.wayTail = some blk then .ok s
      else .error (.assertion "update_way_list")
  | none, some next =>
      if s.wayHead = some blk ∧ s.wayTail ≠ some blk then
        if loc = .Head then .ok s
        else
          linkWay ({ s with wayHead := some next }.modifyBlk next
            fun b => { b with wayPrev := none }) blk loc
      else .error (.assertion "update_way_list")
  | some prev, none =>
      -- end of list (and not front of list)
      if s.wayHead ≠ some blk ∧ s.wayTail = some blk then
        if loc = .Tail then .ok s
        else
          linkWay ({ s with wayTail := some prev }.modifyBlk prev
            fun b => { b with wayNext := none }) blk loc
      else .error (.assertion "update_way_list")
  | some prev, some next =>
      -- middle of list (and not front or end of list)
      if s.wayHead ≠ some blk ∧ s.wayTail ≠ some blk then
        linkWay ((s.modifyBlk prev fun b => { b with wayNext := some next }).modifyBlk next
          fun b => { b with wayPrev := some prev }) blk loc
      else .error (.assertion "update_way_list")

/-! ### Creation -/

/-- A set before its blocks are linked. -/
def empty (n h : Nat) : CacheSet n h :=
  { hash := fun _ => none, wayHead := none, wayTail := none
    blks := fun _ =>
      { wayNext := none, wayPrev := none, hashNext := none, tag := 0, status := 0, ready := 0 } }

/-- A block is inserted into the bucket of tag zero and at the head of the
    way list. -/
def slice (bucket : Option (Fin h)) (s : CacheSet n h) (blk : Fin n) : CacheSet n h :=
  let s := match bucket with
    | some index => s.linkHtabEnt index blk
    | none => s
  let s := s.modifyBlk blk fun b => { b with wayNext := s.wayHead, wayPrev := none }
  let s := match s.wayHead with
    | some head => s.modifyBlk head fun b => { b with wayPrev := some blk }
    | none => s
  { s with wayHead := some blk, wayTail := s.wayTail.or (some blk) }

end CacheSet

/-- The bucket of a tag, if the cache has buckets. -/
def Geometry.bucket (g : Geometry) (tag : Addr) : Option (Fin g.hsize) :=
  if hpos : 0 < g.hsize then some (g.cacheHash hpos tag) else none

/-- `cache_create`, for parameters that passed the checks. -/
def cacheCreate (g : Geometry) : State g :=
  { sets := fun _ => (List.finRange g.assoc).foldl (CacheSet.slice (g.bucket 0))
      (CacheSet.empty g.assoc g.hsize)
    busFree := 0, hits := 0, misses := 0, replacements := 0, writebacks := 0, invalidations := 0
    readHits := 0, readMisses := 0, prefetchHits := 0, prefetchMisses := 0
    lastTagset := 0, lastBlk := none }

end Cache

end MicroArch
