import MicroArch.Cache.Delta
import MicroArch.Cache.Middle
import MicroArch.Cache.Stride

/-!
# Shared Tables

Two caches whose prefetchers use the same part of the tables do interfere. One
of them reads at two addresses in turn, until its prefetcher would request the
one at the same distance on the other side. If the other cache reads once in
between, with an instruction that belongs to the same row, the request is not
made. Without its prefetcher the other cache makes no difference.

The addresses are the one in the middle of memory and the one near it, and all
caches read the memory. So a cache holds what it has read, whatever its geometry
is, and what is requested for one of the two addresses is there. The distance is
the one of the reading cache, which is another one in a cache whose sets do not
fit into the memory, but what the tables make of it is the same.

## Main definitions

* `Read`, `Reads`: Reads that request nothing.
* `addrsOf`, `ownReads`: What they leave in a cache, and the calls of its
  prefetcher.

## Theorems

* `read_in`: What a read does to the world.
* `stride_interferes`, `delta_interferes`: Two caches that interfere.
* `noninterference_iff`: Prefetchers do not interfere if and only if no two
  share a part of the tables.
-/

namespace MicroArch

namespace Cache

variable {g : Geometry}

/-! ### Caches that read the memory -/

section World

variable {k : Nat} {G : Fin k → Geometry}

/-- Random numbers that are all zero. -/
def zeros (_ : Unit) : BitVec 32 × Unit := (0, ())

theorem inert_flat (PC : Addr) (i : Fin k) :
    Inert (behind (.flat k) zeros PC i : Outside (World G Unit)) where
  call cmd baddr size now prefetch x := ⟨1, behind_none rfl zeros PC cmd baddr size now prefetch x⟩
  draw x := by
    rw [behind_myrand]

/-- A read of a byte in a cache, at a `PC`. -/
structure Read (k : Nat) where
  cache : Fin k
  PC : Addr
  addr : Addr

def Read.op (a : Read k) : SysOp k := ⟨a.cache, a.PC, .access .Read a.addr 1 0⟩

/-- The addresses that were read in a cache, the latest first. -/
def addrsOf (i : Fin k) (as : List (Read k)) : List Addr :=
  (as.filter fun a => a.cache = i).map Read.addr

theorem addrsOf_cons (a : Read k) (as : List (Read k)) :
    addrsOf a.cache (a :: as) = a.addr :: addrsOf a.cache as := by
  unfold addrsOf
  rw [List.filter_cons, if_pos (decide_eq_true rfl), List.map_cons]

theorem addrsOf_cons_of_ne {i : Fin k} {a : Read k} (h : a.cache ≠ i) (as : List (Read k)) :
    addrsOf i (a :: as) = addrsOf i as := by
  unfold addrsOf
  rw [List.filter_cons, if_neg (by rwa [decide_eq_true_eq])]

theorem forall_addrsOf {P : Addr → Prop} {as : List (Read k)} (h : ∀ a ∈ as, P a.addr)
    (i : Fin k) : ∀ x ∈ addrsOf i as, P x := by
  intro x hx
  rcases List.mem_map.mp hx with ⟨a, ha, rfl⟩
  exact h a (List.mem_of_mem_filter ha)

/-- What the prefetcher makes of the last read. -/
def Read.predicted (G : Fin k → Geometry) (a : Read k) (as : List (Read k)) (t : Tables) :
    Tables × List Addr :=
  predictions (G a.cache) (held (G a.cache) (addrsOf a.cache (a :: as))) a.PC a.addr t

/-- The calls that the reads make in a cache with this geometry, the latest
    first. -/
def ownReads (g : Geometry) (i : Fin k) : List (Read k) → List Own
  | [] => []
  | a :: as =>
      if a.cache = i then ownRead g (addrsOf i (a :: as)) a.PC a.addr :: ownReads g i as
      else ownReads g i as

/-- The effect of one more read. -/
structure ReadIn (a : Read k) (as : List (Read k)) (r : Tables × List Addr)
    (x x' : World G Unit) : Prop where
  step : sysStep (.flat k) zeros x a.op = .ok x'
  tables : x'.1 = r.1
  history : ∃ rows, history x' a.cache =
    { toOwn := ownRead (G a.cache) (addrsOf a.cache (a :: as)) a.PC a.addr
      rows := rows, requests := .ok r.2 } :: history x a.cache
  other : ∀ i, i ≠ a.cache → x'.2.caches i = x.2.caches i ∧ x'.2.logs i = x.2.logs i
  ready : r.2 = [] → (∃ ord, Inv (x'.2.caches a.cache) ord) ∧
    Only (x'.2.caches a.cache) (addrsOf a.cache (a :: as))

theorem read_in {x : World G Unit} {a : Read k} {as : List (Read k)}
    (hs : ∃ ord, Inv (x.2.caches a.cache) ord)
    (honly : Only (x.2.caches a.cache) (addrsOf a.cache as)) (haddr : Readable a.addr)
    (hapart : Apart (G a.cache) (addrsOf a.cache (a :: as)))
    (hrequests : ∀ baddr ∈ (a.predicted G as x.1).2, LaterBlock (G a.cache) baddr) :
    ∃ x', ReadIn a as (a.predicted G as x.1) x x' := by
  have hcons := addrsOf_cons a as
  unfold Read.predicted at hrequests ⊢
  rw [hcons] at hapart hrequests ⊢
  -- The access itself, in the cache; the rest is how the world puts it back.
  have htotal := read_total (inert_flat a.PC a.cache) (s := x.sys a.cache) hs honly a.PC haddr
    hapart hrequests
  rcases htotal.exists_ok with ⟨s', hs', heffect⟩
  have htables : s'.env.shared.1 = (predictions (G a.cache)
      (held (G a.cache) (a.addr :: addrsOf a.cache as)) a.PC a.addr x.1).1 := by
    rw [heffect.shared]
    rfl
  have hother : s'.env.shared.2 = x.2 := by
    rw [heffect.shared]
    rfl
  have hcache : (put a.cache s').2.caches a.cache = s'.cache := Function.update_self ..
  have hlog : (put a.cache s').2.logs a.cache = s'.env.log := Function.update_self ..
  refine ⟨put a.cache s', ?_, htables, ⟨x.1.RPT.rows, ?_⟩, fun i hi => ⟨?_, ?_⟩, fun hnone => ?_⟩
  · exact congrArg (Except.map (put a.cache)) hs'
  · unfold history
    rw [hlog, hcons]
    exact heffect.calls
  · refine (Function.update_of_ne hi ..).trans ?_
    rw [hother]
  · refine (Function.update_of_ne hi ..).trans ?_
    rw [hother]
  · rw [hcache, hcons]
    exact heffect.ready hnone

/-- The world after reads that have requested nothing, the latest first. -/
structure Reads (G : Fin k → Geometry) (as : List (Read k)) (x : World G Unit) : Prop where
  run : sysRun G (.flat k) zeros () (as.reverse.map Read.op) = .ok x
  wellFormed : ∀ i, ∃ ord, Inv (x.2.caches i) ord
  only : ∀ i, Only (x.2.caches i) (addrsOf i as)
  own : ∀ i, (history x i).map Call.toOwn = ownReads (G i) i as

theorem Reads.nil : Reads G [] (created G ()) where
  run := rfl
  wellFormed i := ⟨_, Inv.create (G i)⟩
  only i := by
    refine ⟨fun p hp => ?_, fun _ ha => absurd ha List.not_mem_nil⟩
    have hinvalid : ((cacheCreate (G i)).blk p).valid = false :=
      Blk.valid_of_status (status_create p)
    exact absurd (hinvalid.symm.trans hp) Bool.false_ne_true
  own _ := rfl

theorem Reads.run_cons {as : List (Read k)} {x x' : World G Unit} {a : Read k}
    {r : Tables × List Addr} (h : Reads G as x) (ha : ReadIn a as r x x') :
    sysRun G (.flat k) zeros () ((a :: as).reverse.map Read.op) = .ok x' := by
  have hrun := h.run
  unfold sysRun at hrun ⊢
  rw [List.reverse_cons, List.map_append, List.foldlM_append, hrun]
  change (sysStep (.flat k) zeros x a.op >>= pure) = _
  rw [ha.step]
  rfl

theorem Reads.own_cons {as : List (Read k)} {x x' : World G Unit} {a : Read k}
    {r : Tables × List Addr} (h : Reads G as x) (ha : ReadIn a as r x x') (i : Fin k) :
    (history x' i).map Call.toOwn = ownReads (G i) i (a :: as) := by
  rw [ownReads, ← h.own i]
  -- The log of the cache that was read has one more call, the others are as they were.
  by_cases hi : a.cache = i
  · subst hi
    rcases ha.history with ⟨rows, hhistory⟩
    rw [if_pos rfl, hhistory]
    rfl
  · rw [if_neg hi]
    unfold history
    rw [(ha.other i (Ne.symm hi)).2]

theorem Reads.step {as : List (Read k)} {x x' : World G Unit} {a : Read k}
    {r : Tables × List Addr} (h : Reads G as x) (ha : ReadIn a as r x x') (hnone : r.2 = []) :
    Reads G (a :: as) x' where
  run := h.run_cons ha
  own := h.own_cons ha
  wellFormed i := by
    by_cases hi : i = a.cache
    · subst hi
      exact (ha.ready hnone).1
    · rw [(ha.other i hi).1]
      exact h.wellFormed i
  only i := by
    by_cases hi : i = a.cache
    · subst hi
      exact (ha.ready hnone).2
    · -- A cache that was not read is the same, and so are the addresses read in it.
      rw [(ha.other i hi).1, addrsOf_cons_of_ne (Ne.symm hi)]
      exact h.only i

/-- One more read that requests nothing. -/
theorem Reads.next {as : List (Read k)} {x : World G Unit} (h : Reads G as x) (a : Read k)
    (haddr : Readable a.addr) (hapart : Apart (G a.cache) (addrsOf a.cache (a :: as)))
    (hnone : (a.predicted G as x.1).2 = []) :
    ∃ x', Reads G (a :: as) x' ∧ x'.1 = (a.predicted G as x.1).1 := by
  rcases read_in (h.wellFormed _) (h.only _) haddr hapart (by rw [hnone]; nofun) with ⟨x', ha⟩
  exact ⟨x', h.step ha hnone, ha.tables⟩

/-- A last read that requests nothing, and the address on the other side if the
    other caches have no prefetcher. -/
theorem not_noninterference {as : List (Read k)} {a : Read k} {x : World G Unit}
    {y : World (quiet G a.cache) Unit} (hx : Reads G as x) (hy : Reads (quiet G a.cache) as y)
    (haddr : Readable a.addr) (hapart : Apart (G a.cache) (addrsOf a.cache (a :: as)))
    (hnone : (a.predicted G as x.1).2 = [])
    (hone : (a.predicted (quiet G a.cache) as y.1).2
      = [(G a.cache).requestAddr (-(G a.cache).near)]) : ¬ Noninterference G := by
  intro hnon
  have hquiet := quiet_self G a.cache
  have hapart' : Apart (quiet G a.cache a.cache) (addrsOf a.cache (a :: as)) := by rwa [hquiet]
  have hrequests' : ∀ baddr ∈ (a.predicted (quiet G a.cache) as y.1).2,
      LaterBlock (quiet G a.cache a.cache) baddr := by
    rw [hone, hquiet]
    exact List.forall_mem_singleton.mpr (laterBlock_across _)
  rcases read_in (hx.wellFormed _) (hx.only _) haddr hapart (by rw [hnone]; nofun) with ⟨x', hx'⟩
  rcases read_in (hy.wellFormed _) (hy.only _) haddr hapart' hrequests' with ⟨y', hy'⟩
  -- Both caches have made the same calls with the same contents.
  have hown : (history y' a.cache).map Call.toOwn = (history x' a.cache).map Call.toOwn := by
    rw [hy.own_cons hy', hx.own_cons hx', hquiet]
  have hequal := (hnon _ _ _ _ _ _ (hx.run_cons hx') a.cache).2 _ _ _ _ _ _
    (hy.run_cons hy') hown
  rcases hx'.history with ⟨_, hhistory⟩
  rcases hy'.history with ⟨_, hhistory'⟩
  rw [hhistory, hhistory', hnone, hone] at hequal
  exact List.cons_ne_nil _ _ (Except.ok.inj (List.cons.inj hequal).1)

theorem predictions_none (htype : g.prefetchType = 0) (res : Addr → Bool) (PC addr : Addr)
    (t : Tables) : predictions g res PC addr t = (t, []) := by
  unfold predictions
  rw [htype]
  rfl

/-- A read in a cache without a prefetcher. -/
theorem Reads.next_quiet {as : List (Read k)} {x : World G Unit} (h : Reads G as x) {j : Fin k}
    (htype : (G j).prefetchType = 0) (PC : Addr) {addr : Addr} (haddr : Readable addr)
    (hapart : Apart (G j) (addrsOf j (⟨j, PC, addr⟩ :: as))) :
    ∃ x', Reads G (⟨j, PC, addr⟩ :: as) x' ∧ x'.1 = x.1 := by
  have hpredicted : Read.predicted G ⟨j, PC, addr⟩ as x.1 = (x.1, []) :=
    predictions_none htype _ _ _ _
  rcases h.next ⟨j, PC, addr⟩ haddr hapart (by rw [hpredicted]) with ⟨x', hx', htables⟩
  exact ⟨x', hx', by rw [htables, hpredicted]⟩

/-! ### Two stride prefetchers -/

theorem Tables.rpt_setRptRow (t : Tables) (index : Nat) (row : Nat → BitVec 32) :
    (t.setRptRow index row).RPT.cell index = row := by
  unfold setRptRow
  dsimp only
  rw [Function.update_self]

theorem rptIndex_four (htype : 2 < g.prefetchType) : g.rptIndex 4 = 1 :=
  Nat.mod_eq_of_lt (show 1 < g.prefetchType by omega)

/-- The blocks that a stride prefetcher requests for its target. -/
def targetRequests (g : Geometry) (res : Addr → Bool) : Option Addr → List Addr
  | some target => unlessResident res (g.requestAddr target)
  | none => []

theorem predictions_stride (htype : 2 < g.prefetchType) (res : Addr → Bool) (addr : Addr)
    {t : Tables} {row : Nat → BitVec 32} (hrow : t.RPT.cell 1 = row) :
    predictions g res 4 addr t =
      (t.setRptRow 1 (strideRow 1 addr (.of row)).2.cell,
        targetRequests g res (strideRow 1 addr (.of row)).1) := by
  unfold predictions
  split
  · omega
  · omega
  · omega
  · rw [rptIndex_four htype, hrow]
    rfl

theorem targetRequests_held {l : List Addr} {target : Addr} (h : held g l target) :
    targetRequests g (held g l) (some target) = [] :=
  if_pos ((held_requestAddr l target).trans h)

theorem targetRequests_new {l : List Addr} {target : Addr} (h : held g l target = false) :
    targetRequests g (held g l) (some target) = [g.requestAddr target] := by
  unfold targetRequests unlessResident
  dsimp only
  rw [held_requestAddr, h]
  exact if_neg Bool.false_ne_true

/-- The row after reads at these addresses, the latest first. -/
def strideRowAfter : List Addr → Nat → BitVec 32
  | [] => fun _ => 0
  | addr :: l => (strideRow 1 addr (.of (strideRowAfter l))).2.cell

/-- A read in a cache with a stride prefetcher that requests nothing. -/
theorem Reads.next_stride {as : List (Read k)} {x : World G Unit} (h : Reads G as x) {i : Fin k}
    (htype : 2 < (G i).prefetchType) {addr : Addr} (haddr : Readable addr)
    (hapart : Apart (G i) (addrsOf i (⟨i, 4, addr⟩ :: as)))
    {l : List Addr} (hrow : x.1.RPT.cell 1 = strideRowAfter l)
    (hnone : targetRequests (G i) (held (G i) (addrsOf i (⟨i, 4, addr⟩ :: as)))
      (strideRow 1 addr (.of (strideRowAfter l))).1 = []) :
    ∃ x', Reads G (⟨i, 4, addr⟩ :: as) x' ∧ x'.1.RPT.cell 1 = strideRowAfter (addr :: l) := by
  have hpredicted := predictions_stride htype (held (G i) (addrsOf i (⟨i, 4, addr⟩ :: as))) addr
    hrow
  have hnone' : (Read.predicted G ⟨i, 4, addr⟩ as x.1).2 = [] :=
    (congrArg Prod.snd hpredicted).trans hnone
  rcases h.next ⟨i, 4, addr⟩ haddr hapart hnone' with ⟨x', hx', htables⟩
  refine ⟨x', hx', ?_⟩
  rw [htables]
  refine (congrArg (fun r => r.1.RPT.cell 1) hpredicted).trans ?_
  exact x.1.rpt_setRptRow 1 _

theorem rpt_create (type : Nat) {t : Tables} (h : t.RPT.cell = fun _ _ => 0) :
    (t.create type).RPT.cell = fun _ _ => 0 := by
  unfold Tables.create
  split
  · rfl
  · split
    · exact h
    · exact h

theorem rpt_createAll (G : Fin k → Geometry) :
    (createAll G).RPT.cell = fun _ => strideRowAfter [] := by
  unfold createAll
  refine List.foldlRecOn (motive := fun t : Tables => t.RPT.cell = fun _ _ => 0) _ _ rfl ?_
  exact fun t ht i _ => rpt_create _ ht

/-- What is predicted after reads at the address near the middle. A second one
    makes the distance zero look steady. -/
theorem strideRow_near (g : Geometry) :
    (strideRow 1 g.near (.of (strideRowAfter []))).1 = none ∧
    (strideRow 1 g.near (.of (strideRowAfter [g.near]))).1 = some g.near ∧
    (strideRow 1 middle (.of (strideRowAfter [g.near]))).1 = some (-g.near) ∧
    (strideRow 1 middle (.of (strideRowAfter [g.near, g.near]))).1 = some middle := by
  -- The address depends on the geometry, but only two are possible.
  rcases near_eq g with h | h
  · rw [h]
    exact ⟨rfl, rfl, rfl, rfl⟩
  · rw [h]
    exact ⟨rfl, rfl, rfl, rfl⟩

/-- A cache that is read at the two addresses. -/
theorem apart_addrsOf {i : Fin k} {as : List (Read k)}
    (h : ∀ a ∈ as, a.addr = middle ∨ a.addr = (G i).near) : Apart (G i) (addrsOf i as) :=
  apart_near (forall_addrsOf h i)

theorem mem_addrsOf (a : Read k) (as : List (Read k)) : a.addr ∈ addrsOf a.cache (a :: as) := by
  rw [addrsOf_cons]
  exact List.mem_cons_self

/-- Two caches with stride prefetchers interfere. One of them reads near the
    middle and then in the middle. In between the other one reads near the
    middle as well. -/
theorem stride_interferes {i j : Fin k} (hij : i ≠ j) (hi : 2 < (G i).prefetchType)
    (hj : 2 < (G j).prefetchType) : ¬ Noninterference G := by
  have hi' : 2 < (quiet G i i).prefetchType := by rwa [quiet_self]
  have hj' : (quiet G i j).prefetchType = 0 := prefetchType_quiet G (Ne.symm hij)
  have hnear := readable_near (G i)
  rcases strideRow_near (G i) with ⟨hfirst, hagain, hacross, hmiddle⟩
  -- All reads near the middle are at one address.
  let a₁ : Read k := ⟨i, 4, (G i).near⟩
  let a₂ : Read k := ⟨j, 4, (G i).near⟩
  let a₃ : Read k := ⟨i, 4, middle⟩
  have hall : ∀ a ∈ [a₁], a.addr = (G i).near := List.forall_mem_singleton.mpr rfl
  have hall' : ∀ a ∈ [a₂, a₁], a.addr = (G i).near := List.forall_mem_cons.mpr ⟨rfl, hall⟩
  have hone : ∀ G' : Fin k → Geometry, Apart (G' i) (addrsOf i [a₁]) := fun G' =>
    apart_of_forall_eq (forall_addrsOf hall i)
  have htwo : ∀ G' : Fin k → Geometry, Apart (G' j) (addrsOf j [a₂, a₁]) := fun G' =>
    apart_of_forall_eq (forall_addrsOf hall' j)
  have hpair : ∀ a ∈ [a₃, a₂, a₁], a.addr = middle ∨ a.addr = (G i).near :=
    List.forall_mem_cons.mpr ⟨.inl rfl, fun a ha => .inr (hall' a ha)⟩
  -- The other cache has its prefetcher.
  rcases Reads.nil.next_stride hi hnear (hone G) (congrFun (rpt_createAll G) 1)
    (congrArg (targetRequests _ _) hfirst) with ⟨x₁, hx₁, hrow₁⟩
  have hheld : held (G j) (addrsOf j [a₂, a₁]) (G i).near := held_of_mem (mem_addrsOf a₂ [a₁])
  rcases hx₁.next_stride hj hnear (htwo G) hrow₁
    ((congrArg (targetRequests _ _) hagain).trans (targetRequests_held hheld)) with ⟨x₂, hx₂, hrow₂⟩
  have hrequests : (a₃.predicted G [a₂, a₁] x₂.1).2 = [] := by
    refine (congrArg Prod.snd (predictions_stride hi _ middle hrow₂)).trans ?_
    rw [hmiddle]
    exact targetRequests_held (held_of_mem (mem_addrsOf a₃ _))
  -- The other cache has none.
  rcases Reads.nil.next_stride hi' hnear (hone _) (congrFun (rpt_createAll (quiet G i)) 1)
    (congrArg (targetRequests _ _) hfirst) with ⟨y₁, hy₁, hrow₁'⟩
  rcases hy₁.next_quiet hj' 4 hnear (htwo _) with ⟨y₂, hy₂, htables⟩
  rw [← htables] at hrow₁'
  have hrequests' : (a₃.predicted (quiet G i) [a₂, a₁] y₂.1).2
      = [(G i).requestAddr (-(G i).near)] := by
    refine (congrArg Prod.snd (predictions_stride hi' _ middle hrow₁')).trans ?_
    rw [quiet_self, hacross]
    exact targetRequests_new (held_across (forall_addrsOf hpair i))
  exact not_noninterference (a := a₃) hx₂ hy₂ readable_middle (apart_addrsOf hpair) hrequests
    hrequests'

/-! ### Two delta correlation prefetchers -/

theorem Tables.dcpt_setDcptRow (t : Tables) (index : Nat) (row : Nat → BitVec 32) :
    (t.setDcptRow index row).DCPT index = row := by
  unfold setDcptRow
  dsimp only
  rw [Function.update_self]

theorem predictions_delta (htype : g.prefetchType = 2) {PC : Addr} {tag : BitVec 32}
    (hindex : dcptIndex PC = 1) (htag : PC >>> 2 = tag) (res : Addr → Bool) (addr : Addr)
    {t : Tables} {row : Nat → BitVec 32} (hrow : t.DCPT 1 = row) : predictions g res PC addr t =
      (t.setDcptRow 1 (openEndedCall g res tag addr row).row.cell,
        (openEndedCall g res tag addr row).requests) := by
  unfold predictions
  rw [htype, hindex, htag, hrow]
  rfl

theorem predictions_notFound (htype : g.prefetchType = 2) {PC addr : Addr} {tag : BitVec 32}
    (hindex : dcptIndex PC = 1) (htag : PC >>> 2 = tag) (res : Addr → Bool) {t : Tables}
    {row : Nat → BitVec 32} (hrow : t.DCPT 1 = row) (hnone : NotFound tag addr row) :
    (predictions g res PC addr t).2 = [] ∧
      (predictions g res PC addr t).1.DCPT 1 = (recordDelta tag addr (.of row)).2.cell := by
  have hcall := openEndedCall_of_not_repeats g res hnone
  rw [predictions_delta htype hindex htag res addr hrow]
  refine ⟨hcall.1, ?_⟩
  rw [← hcall.2]
  exact t.dcpt_setDcptRow 1 _

/-- A row in which the newest pair is found, with its two candidates. The second
    one is in the cache. -/
structure FoundPair (addr cand cand' : Addr) (tag : BitVec 32) (row : Nat → BitVec 32) : Prop where
  moved : row 0 = tag ∧ addr ≠ row 1
  once : ¬ Repeats addr row 6 ∧ Repeats addr row 5
  first : addr + row 4 = cand
  second : addr + row 3 = cand'
  new : cand ≠ -1
  last : cand ≠ row 2 ∧ cand' ≠ row 2

theorem predictions_found (htype : g.prefetchType = 2) {PC addr cand cand' : Addr}
    {tag : BitVec 32} (hindex : dcptIndex PC = 1) (htag : PC >>> 2 = tag) {res : Addr → Bool}
    {t : Tables} {row : Nat → BitVec 32} (hrow : t.DCPT 1 = row)
    (h : FoundPair addr cand cand' tag row)
    (hres : res (g.requestAddr cand) = false) (hres' : res (g.requestAddr cand') = true) :
    (predictions g res PC addr t).2 = [g.requestAddr cand] := by
  rcases h with ⟨hmoved, honce, rfl, rfl, hnew, hlast⟩
  rw [predictions_delta htype hindex htag res addr hrow]
  exact openEndedCall_requests hmoved honce.1 honce.2 hnew hlast.1 hlast.2 hres hres'

/-- A read in a cache with a delta correlation prefetcher that requests
    nothing. -/
theorem Reads.next_delta {as : List (Read k)} {x : World G Unit} (h : Reads G as x) {i : Fin k}
    (htype : (G i).prefetchType = 2) {PC addr : Addr} {tag : BitVec 32} (hindex : dcptIndex PC = 1)
    (htag : PC >>> 2 = tag) (haddr : Readable addr)
    (hapart : Apart (G i) (addrsOf i (⟨i, PC, addr⟩ :: as)))
    {row : Nat → BitVec 32} (hrow : x.1.DCPT 1 = row) (hnone : NotFound tag addr row) :
    ∃ x', Reads G (⟨i, PC, addr⟩ :: as) x' ∧
      x'.1.DCPT 1 = (recordDelta tag addr (.of row)).2.cell := by
  have hpredicted := predictions_notFound htype hindex htag
    (held (G i) (addrsOf i (⟨i, PC, addr⟩ :: as))) hrow hnone
  rcases h.next ⟨i, PC, addr⟩ haddr hapart hpredicted.1 with ⟨x', hx', htables⟩
  refine ⟨x', hx', ?_⟩
  rw [htables]
  exact hpredicted.2

/-- The row after reads at these addresses, the latest first. -/
def deltaRowAfter : List Addr → Nat → BitVec 32
  | [] => fun _ => -1
  | addr :: l => (recordDelta 1 addr (.of (deltaRowAfter l))).2.cell

/-- A read at the `PC` of all reads but one. -/
theorem Reads.next_alternate {as : List (Read k)} {x : World G Unit} (h : Reads G as x) {i : Fin k}
    (htype : (G i).prefetchType = 2) {addr : Addr} (haddr : Readable addr)
    (hapart : Apart (G i) (addrsOf i (⟨i, 4, addr⟩ :: as))) {l : List Addr}
    (hrow : x.1.DCPT 1 = deltaRowAfter l) (hnone : NotFound 1 addr (deltaRowAfter l)) :
    ∃ x', Reads G (⟨i, 4, addr⟩ :: as) x' ∧ x'.1.DCPT 1 = deltaRowAfter (addr :: l) :=
  h.next_delta htype (by decide) (by decide) haddr hapart hrow hnone

theorem dcpt_create (type : Nat) {t : Tables} (h : t.DCPT = fun _ _ => -1) :
    (t.create type).DCPT = fun _ _ => -1 := by
  unfold Tables.create
  split
  · exact h
  · split
    · rfl
    · exact h

theorem dcpt_createAll {i : Fin k} (hi : (G i).prefetchType = 2) :
    (createAll G).DCPT = fun _ _ => -1 := by
  rcases List.append_of_mem (List.mem_finRange i) with ⟨pre, post, hsplit⟩
  unfold createAll
  rw [hsplit, List.foldl_append, List.foldl_cons]
  refine List.foldlRecOn (motive := fun t : Tables => t.DCPT = fun _ _ => -1) _ _ ?_ ?_
  · rw [hi]
    rfl
  · exact fun t ht j _ => dcpt_create _ ht

/-- Five reads at the two addresses in turn do not repeat a pair. -/
theorem notFound_near (g : Geometry) :
    NotFound 1 g.near (deltaRowAfter []) ∧ NotFound 1 middle (deltaRowAfter [g.near]) ∧
    NotFound 1 g.near (deltaRowAfter [middle, g.near]) ∧
    NotFound 1 middle (deltaRowAfter [g.near, middle, g.near]) ∧
    NotFound 1 g.near (deltaRowAfter [middle, g.near, middle, g.near]) := by
  rcases near_eq g with h | h
  · rw [h]
    decide
  · rw [h]
    decide

/-- The row after five reads at the two addresses in turn. -/
def Geometry.alternateRow (g : Geometry) : Nat → BitVec 32 :=
  deltaRowAfter [g.near, middle, g.near, middle, g.near]

/-- What the sixth one finds in its row. The first candidate is on the other side
    of the middle, the second one is the address near it. -/
theorem alternateRow_found (g : Geometry) : FoundPair middle (-g.near) g.near 1 g.alternateRow := by
  unfold Geometry.alternateRow
  rcases near_eq g with h | h
  · rw [h]
    exact ⟨by decide, by decide, by decide, by decide, by decide, by decide⟩
  · rw [h]
    exact ⟨by decide, by decide, by decide, by decide, by decide, by decide⟩

/-- Another instruction takes the row away. -/
theorem alternateRow_taken (g : Geometry) : NotFound 513 g.near g.alternateRow ∧
    NotFound 1 middle (recordDelta (513 : BitVec 32) g.near (.of g.alternateRow)).2.cell := by
  unfold Geometry.alternateRow
  rcases near_eq g with h | h
  · rw [h]
    decide
  · rw [h]
    decide

/-- Five reads that alternate between the two addresses, the latest first. -/
def alternateReads (addr : Addr) (i : Fin k) : List (Read k) :=
  [⟨i, 4, addr⟩, ⟨i, 4, middle⟩, ⟨i, 4, addr⟩, ⟨i, 4, middle⟩, ⟨i, 4, addr⟩]

theorem Reads.alternate {i : Fin k} (hi : (G i).prefetchType = 2) :
    ∃ x, Reads G (alternateReads (G i).near i) x ∧ x.1.DCPT 1 = (G i).alternateRow := by
  have hnear := readable_near (G i)
  have hrow₀ : (created G ()).1.DCPT 1 = deltaRowAfter [] := congrFun (dcpt_createAll hi) 1
  -- Each of the reads is at one of the two addresses.
  have happend : ∀ {as : List (Read k)} (a : Read k),
      (a.addr = middle ∨ a.addr = (G i).near) →
      (∀ a' ∈ as, a'.addr = middle ∨ a'.addr = (G i).near) →
      ∀ a' ∈ a :: as, a'.addr = middle ∨ a'.addr = (G i).near :=
    fun _ ha has => List.forall_mem_cons.mpr ⟨ha, has⟩
  have h₀ : ∀ a' ∈ ([] : List (Read k)), a'.addr = middle ∨ a'.addr = (G i).near :=
    List.forall_mem_nil _
  have h₁ := happend ⟨i, 4, (G i).near⟩ (.inr rfl) h₀
  have h₂ := happend ⟨i, 4, middle⟩ (.inl rfl) h₁
  have h₃ := happend ⟨i, 4, (G i).near⟩ (.inr rfl) h₂
  have h₄ := happend ⟨i, 4, middle⟩ (.inl rfl) h₃
  have h₅ := happend ⟨i, 4, (G i).near⟩ (.inr rfl) h₄
  rcases notFound_near (G i) with ⟨hn₁, hn₂, hn₃, hn₄, hn₅⟩
  rcases Reads.nil.next_alternate hi hnear (apart_addrsOf h₁) hrow₀ hn₁ with
    ⟨x₁, hx₁, hrow₁⟩
  rcases hx₁.next_alternate hi readable_middle (apart_addrsOf h₂) hrow₁ hn₂ with
    ⟨x₂, hx₂, hrow₂⟩
  rcases hx₂.next_alternate hi hnear (apart_addrsOf h₃) hrow₂ hn₃ with ⟨x₃, hx₃, hrow₃⟩
  rcases hx₃.next_alternate hi readable_middle (apart_addrsOf h₄) hrow₃ hn₄ with
    ⟨x₄, hx₄, hrow₄⟩
  rcases hx₄.next_alternate hi hnear (apart_addrsOf h₅) hrow₄ hn₅ with ⟨x₅, hx₅, hrow₅⟩
  exact ⟨x₅, hx₅, hrow₅⟩

/-- Two caches with delta correlation prefetchers interfere. One of them
    alternates between the two addresses. Before its sixth read the other one
    reads with an instruction that takes the row away. -/
theorem delta_interferes {i j : Fin k} (hij : i ≠ j) (hi : (G i).prefetchType = 2)
    (hj : (G j).prefetchType = 2) : ¬ Noninterference G := by
  have hi' : (quiet G i i).prefetchType = 2 := by rwa [quiet_self]
  have hj' : (quiet G i j).prefetchType = 0 := prefetchType_quiet G (Ne.symm hij)
  have hindex : dcptIndex 4 = 1 := by decide
  have hindex' : dcptIndex 2052 = 1 := by decide
  have htag : (4 : Addr) >>> 2 = 1 := by decide
  have htag' : (2052 : Addr) >>> 2 = 513 := by decide
  have hnear := readable_near (G i)
  let as := alternateReads (G i).near i
  let b : Read k := ⟨j, 2052, (G i).near⟩
  let a : Read k := ⟨i, 4, middle⟩
  have hpair : ∀ a' ∈ a :: b :: as, a'.addr = middle ∨ a'.addr = (G i).near := by
    simp [a, b, as, alternateReads]
  have hother : addrsOf j (b :: as) = [(G i).near] := by
    simp [b, as, alternateReads, addrsOf, hij]
  have hsingle : ∀ g : Geometry, Apart g (addrsOf j (b :: as)) := by
    intro g
    rw [hother]
    exact apart_of_forall_eq (List.forall_mem_singleton.mpr rfl)
  rcases alternateRow_taken (G i) with ⟨hother', hgone⟩
  -- The other cache has its prefetcher.
  rcases Reads.alternate hi with ⟨x₅, hx₅, hrow₅⟩
  rcases hx₅.next_delta hj hindex' htag' hnear (hsingle _) hrow₅ hother' with ⟨x₆, hx₆, hrow₆⟩
  have hrequests : (a.predicted G (b :: as) x₆.1).2 = [] :=
    (predictions_notFound hi hindex htag _ hrow₆ hgone).1
  -- The other cache has none.
  rcases Reads.alternate hi' with ⟨y₅, hy₅, hrow₅'⟩
  rw [quiet_self] at hy₅ hrow₅'
  rcases hy₅.next_quiet hj' 2052 hnear (hsingle _) with ⟨y₆, hy₆, htables⟩
  rw [← htables] at hrow₅'
  have hrequests' : (a.predicted (quiet G i) (b :: as) y₆.1).2
      = [(G i).requestAddr (-(G i).near)] := by
    refine (predictions_found hi' hindex htag hrow₅' (alternateRow_found (G i)) ?_ ?_).trans ?_
    · rw [held_requestAddr, quiet_self]
      exact held_across (forall_addrsOf hpair i)
    · rw [held_requestAddr]
      refine held_of_mem ?_
      rw [addrsOf_cons, addrsOf_cons_of_ne (Ne.symm hij)]
      exact List.mem_cons_of_mem _ (mem_addrsOf _ _)
    · rw [quiet_self]
  exact not_noninterference (a := a) hx₆ hy₆ readable_middle (apart_addrsOf hpair) hrequests
    hrequests'

end World

/-- Prefetchers of different caches do not interfere if and only if no two
    caches use the same part of the tables: at most one has a stride
    prefetcher, and at most one has the delta correlation prefetcher. -/
theorem noninterference_iff {k : Nat} (G : Fin k → Geometry) :
    Noninterference G ↔ ∀ i j, i ≠ j → ¬ Shares (G i).prefetchType (G j).prefetchType := by
  constructor
  · intro hnon i j hij hshares
    rcases hshares with ⟨hi, hj⟩ | ⟨hi, hj⟩
    · exact stride_interferes hij hi hj hnon
    · exact delta_interferes hij hi hj hnon
  · exact fun h => noninterference_of_unshared fun i j hji => h j i hji

/-- Two caches of one block with stride prefetchers of three rows. -/
theorem two_strides_interfere : ¬ Noninterference fun _ : Fin 2 => oneBlockStride :=
  stride_interferes (i := 0) (j := 1) (by decide) (by decide) (by decide)

end Cache

end MicroArch
