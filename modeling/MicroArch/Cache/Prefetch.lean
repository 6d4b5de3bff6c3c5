import MicroArch.Cache.Blocks
import MicroArch.Library.Traced

/-!
# Prefetchers

What `generate_prefetch` does after an access of the program: the changes it
makes to the prediction tables, and the block addresses it requests. The
requests are carried out by the cache; here they are a list, since none of the
prefetchers looks at its table or at the cache again once it has made the
first one.

The tables are global variables of the source. The rows of the Reference
Prediction Table are allocated with four integers each, and what lies behind
them is kept as well, zero at first: an access that leaves its row is not
stopped. In the same way the local arrays of the delta correlation prefetcher
are followed past their ends. A record of the indices tells where an array was
used.

`get_PC` is the argument `PC`. A probe of the cache is a parameter, and may
fail where the search it makes does.

## Main definitions

* `Tables`: The prediction tables.
* `nextLinePrefetcher`, `openEndedPrefetcher`, `stridePrefetcher`: The three
  prefetchers.
* `generatePrefetch`: The choice between them.
-/

namespace MicroArch

namespace Cache

/-! ### Tables -/

/-- The Reference Prediction Table: the number of its rows and the memory
    behind the pointer of each. -/
structure Rpt where
  rows : Nat
  cell : Nat → Nat → BitVec 32

/-- The global tables of all prefetchers. -/
structure Tables where
  RPT : Rpt
  DCPT : Nat → Nat → BitVec 32

def INITIAL : BitVec 32 := 0

def TRANSIENT : BitVec 32 := 1

def STEADY : BitVec 32 := 2

def NOPRED : BitVec 32 := 3

/-- Columns of a row of the Reference Prediction Table. -/
def RPT_COLS : Nat := 4

def OPEN_ROWS : Nat := 512

def OPEN_COLS : Nat := 9

def DELTAS : Nat := 6

namespace Tables

/-- The tables at the start of the program. -/
def initial : Tables := { RPT := { rows := 0, cell := fun _ _ => 0 }, DCPT := fun _ _ => 0 }

/-- What `cache_create` does to the tables. -/
def create (prefetchType : Nat) (t : Tables) : Tables :=
  if prefetchType > 2 then { t with RPT := { rows := prefetchType, cell := fun _ _ => 0 } }
  else if prefetchType = 2 then { t with DCPT := fun _ _ => -1 }
  else t

def setRptRow (t : Tables) (index : Nat) (row : Nat → BitVec 32) : Tables :=
  { t with RPT := { t.RPT with cell := Function.update t.RPT.cell index row } }

def setDcptRow (t : Tables) (index : Nat) (row : Nat → BitVec 32) : Tables :=
  { t with DCPT := Function.update t.DCPT index row }

end Tables

/-- The block address of an address, taken apart and put together again. -/
def Geometry.requestAddr (g : Geometry) (addr : Addr) : Addr :=
  g.cacheMkBaddr (g.cacheTag addr) (BitVec.ofNat 32 (g.cacheSet addr).val)

/-- Requests a block unless the cache holds it. -/
def requestUnlessProbed (probe : Addr → Except Fault Bool) (baddr : Addr) :
    Except Fault (List Addr) := do
  if ← probe baddr then return [] else return [baddr]

/-! ### Next line -/

/-- `next_line_prefetcher`. -/
def nextLinePrefetcher (g : Geometry) (probe : Addr → Except Fault Bool) (addr : Addr) :
    Except Fault (List Addr) :=
  requestUnlessProbed probe (g.requestAddr (addr + BitVec.ofNat 32 g.bsize))

/-! ### Stride -/

/-- The row of an access in the Reference Prediction Table. -/
def Geometry.rptIndex (g : Geometry) (PC : Addr) : Nat := (PC >>> 2).toNat % g.prefetchType

/-- The `switch` on the state of a row. -/
def strideSwitch (strideCondition : Bool) (stride state : BitVec 32) (row : Traced (BitVec 32)) :
    Traced (BitVec 32) :=
  if state = INITIAL then
    (row.write 4 (if strideCondition then STEADY else TRANSIENT)).write 2 stride
  else if state = TRANSIENT then
    (row.write 4 (if strideCondition then STEADY else NOPRED)).write 2 stride
  else if state = STEADY then row.write 4 (if strideCondition then STEADY else INITIAL)
  else if state = NOPRED then
    (row.write 4 (if strideCondition then TRANSIENT else NOPRED)).write 2 stride
  else row

/-- What `stride_prefetcher` does to its row, for the shifted `PC`. Also
    returns the address it predicts. -/
def strideRow (PC addr : Addr) (row : Traced (BitVec 32)) : Option Addr × Traced (BitVec 32) :=
  let (tag, row) := row.read 0
  if tag ≠ PC then
    let row := row.write 0 PC
    let row := row.write 1 addr
    let row := row.write 2 0
    (none, row.write 3 INITIAL)
  else
    let (last, row) := row.read 1
    let stride := addr - last
    let (previous, row) := row.read 2
    -- update the previous address and the tag always
    let row := row.write 1 addr
    let row := row.write 0 PC
    -- update the stride and the state
    let (state, row) := row.read 4
    let row := strideSwitch (stride = previous) stride state row
    let (state, row) := row.read 4
    if state ≠ NOPRED then
      let (stride, row) := row.read 2
      (some (addr + stride), row)
    else (none, row)

/-- `stride_prefetcher`. -/
def stridePrefetcher (g : Geometry) (probe : Addr → Except Fault Bool) (PC addr : Addr)
    (t : Tables) : Except Fault (Tables × List Addr) := do
  let index := g.rptIndex PC
  let (target, row) := strideRow (PC >>> 2) addr (.of (t.RPT.cell index))
  let requests ←
    match target with
    | some target => requestUnlessProbed probe (g.requestAddr target)
    | none => pure []
  return (t.setRptRow index row.cell, requests)

/-! ### Delta correlation -/

/-- The row of an access in the table of deltas. -/
def dcptIndex (PC : Addr) : Nat := (PC >>> 2).toNat % OPEN_ROWS

/-- The values of a counter that runs from `hi` down to `lo`, which it does
    not reach. -/
def downFrom (hi lo : Nat) : List Nat := (List.range (hi - lo)).map (hi - ·)

/-- The row of a call, with the access entered. Also returns whether a delta
    was. -/
def recordDelta (PC addr : Addr) (row : Traced (BitVec 32)) : Bool × Traced (BitVec 32) :=
  let (tag, row) := row.read 0
  if tag ≠ PC then
    let row := row.write 0 PC
    let row := row.write 1 addr
    let row := row.write 2 0
    (false, (List.range' (OPEN_COLS - DELTAS) DELTAS).foldl (fun row i => row.write i (-1)) row)
  else
    let (last, row) := row.read 1
    if addr - last ≠ 0 then
      let row := (downFrom (OPEN_COLS - 1) (OPEN_COLS - DELTAS)).foldl
        (fun row i =>
          let (delta, row) := row.read (i - 1)
          row.write i delta) row
      let (last, row) := row.read 1
      let row := row.write (OPEN_COLS - DELTAS) (addr - last)
      (true, row.write 1 addr)
    else (false, row)

/-- The variables of the loops that collect candidates. -/
structure Candidates where
  row : Traced (BitVec 32)
  cand : Traced (BitVec 32)
  counter : Nat

/-- The deltas between column `i - 2` and the newest one are added to the
    address. -/
def addCandidates (addr : Addr) (i : Nat) (v : Candidates) : Candidates :=
  (downFrom (i - 2) (OPEN_COLS - DELTAS)).foldl
    (fun v j =>
      let (delta, row) := v.row.read j
      { row := row, cand := v.cand.write v.counter (addr + delta), counter := v.counter + 1 }) v

/-- The loop that looks for the newest pair of deltas further back. -/
def findCandidates (addr : Addr) (row : Traced (BitVec 32)) : Candidates :=
  let (d1, row) := row.read (OPEN_COLS - DELTAS)
  let (d2, row) := row.read (OPEN_COLS - DELTAS + 1)
  (downFrom (OPEN_COLS - 1) (OPEN_COLS - DELTAS + 3)).foldl
    (fun v i =>
      let (u, row) := v.row.read i
      let (w, row) := row.read (i - 1)
      let v := { v with row := row }
      if u = d1 ∧ w = d2 then addCandidates addr i v else v)
    { row := row, cand := .of fun _ => 0, counter := 0 }

/-- The variables of the loop that goes through the candidates. -/
structure Chosen where
  row : Traced (BitVec 32)
  prefetch : Traced (BitVec 32)
  prefIndex : Nat
  inFlight : List (BitVec 32)

/-- One candidate is chosen or passed over, from whether the cache holds it. -/
def choose (inCache : Bool) (lastPrefetch : BitVec 32) (v : Chosen) (cand : BitVec 32) : Chosen :=
  let v :=
    if cand ∉ v.inFlight ∧ inCache = false then
      { row := v.row.write 2 cand, prefetch := v.prefetch.write v.prefIndex cand
        prefIndex := v.prefIndex + 1, inFlight := cand :: v.inFlight.dropLast }
    else v
  if cand = lastPrefetch then
    { v with
      prefetch := (List.range v.prefIndex).foldl (fun p j => p.write j (-1)) v.prefetch
      prefIndex := 0 }
  else v

/-- The loop body that goes through the candidates. -/
def chooseCandidate (g : Geometry) (probe : Addr → Except Fault Bool) (lastPrefetch : BitVec 32)
    (v : Chosen) (cand : BitVec 32) : Except Fault Chosen := do
  let inCache ← probe (g.requestAddr cand)
  return choose inCache lastPrefetch v cand

/-- What a call of `open_ended_prefetcher` has done: its row, its two local
    arrays, and the blocks it requests. -/
structure OpenEnded where
  row : Traced (BitVec 32)
  cand : Traced (BitVec 32)
  prefetch : Traced (BitVec 32)
  requests : List Addr

/-- The second half of `open_ended_prefetcher`, after a delta was entered. -/
def chooseRequests (g : Geometry) (probe : Addr → Except Fault Bool) (v : Candidates) :
    Except Fault OpenEnded := do
  let prefetch : Traced (BitVec 32) :=
    (List.range (DELTAS - 4)).foldl (fun p i => p.write i (-1)) (.of fun _ => 0)
  let (lastPrefetch, row) := v.row.read 2
  let (cands, cand) := v.cand.readAll (List.range v.counter)
  let v ← cands.foldlM (chooseCandidate g probe lastPrefetch)
    { row := row, prefetch := prefetch, prefIndex := 0, inFlight := List.replicate 32 (-1) }
  let (requests, prefetch) := v.prefetch.readAll (List.range (min v.prefIndex 5))
  return { row := v.row, cand := cand, prefetch := prefetch
           requests := requests.map g.requestAddr }

/-- What `open_ended_prefetcher` does with its row, for the shifted `PC`. -/
def openEndedRow (g : Geometry) (probe : Addr → Except Fault Bool) (PC addr : Addr)
    (row : Nat → BitVec 32) : Except Fault OpenEnded :=
  let (recorded, row) := recordDelta PC addr (.of row)
  if recorded then chooseRequests g probe (findCandidates addr row)
  else .ok { row := row, cand := .of fun _ => 0, prefetch := .of fun _ => 0, requests := [] }

/-- `open_ended_prefetcher`. -/
def openEndedPrefetcher (g : Geometry) (probe : Addr → Except Fault Bool) (PC addr : Addr)
    (t : Tables) : Except Fault (Tables × List Addr) := do
  let index := dcptIndex PC
  let v ← openEndedRow g probe (PC >>> 2) addr (t.DCPT index)
  return (t.setDcptRow index v.row.cell, v.requests)

/-- `generate_prefetch`, up to the accesses it makes. -/
def generatePrefetch (g : Geometry) (probe : Addr → Except Fault Bool) (PC addr : Addr)
    (t : Tables) : Except Fault (Tables × List Addr) :=
  match g.prefetchType with
  | 0 => .ok (t, [])
  | 1 => do return (t, ← nextLinePrefetcher g probe addr)
  | 2 => openEndedPrefetcher g probe PC addr t
  | _ => stridePrefetcher g probe PC addr t

end Cache

end MicroArch
