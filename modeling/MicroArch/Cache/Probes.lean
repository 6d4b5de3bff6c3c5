import MicroArch.Cache.Effect

/-!
# Probes

What a probe of a well-formed cache tells, and the prefetchers as functions of
that alone: a probe does not fail, so neither does a prefetcher.

A prefetcher takes the probe as an argument. In the source it calls
`cache_probe`, which runs along a bucket chain, and a broken chain would stop
it. The invariant rules that out, and what is left is a function of the tables
and of a predicate on addresses. Everything that is shown of prefetchers, their
histories, their interference and their requests, is shown of this function,
and `generatePrefetch_probe` brings it back to the code.

What is requested is put together from a tag and a set. In a cache whose sets
fit into the memory that is a block address. In others it need not be, but it
has the tag and the set of the address, and these are all that a probe sees.

## Main definitions

* `State.resident`: The cache holds the block of an address.
* `chosenRequests`, `openEndedCall`, `predictions`: The prefetchers, when
  probes do not fail.

## Theorems

* `probe_eq`: A probe tells whether the block is resident.
* `requestAddr_parts`: What is requested has the tag and the set of the address.
* `generatePrefetch_eq`: The prefetcher of a cache does not fail.
-/

namespace MicroArch

namespace Cache

variable {g : Geometry}

/-- A block of the address's set holds it. -/
def State.resident (c : State g) (addr : Addr) : Bool :=
  (List.finRange g.assoc).any fun b =>
    (c.blk (g.cacheSet addr, b)).valid && (c.blk (g.cacheSet addr, b)).tag == g.cacheTag addr

theorem resident_iff (c : State g) (addr : Addr) :
    c.resident addr ↔ ∃ b, Holds c (g.cacheSet addr, b) addr := by
  simp only [State.resident, List.any_eq_true, List.mem_finRange, true_and, Bool.and_eq_true,
    beq_iff_eq, Holds]

theorem resident_congr (hfits : g.Fits) (c : State g) {a b : Addr}
    (h : g.cacheBaddr a = g.cacheBaddr b) : c.resident a = c.resident b := by
  have hparts := (g.cacheBaddr_eq_iff hfits a b).mp h
  unfold State.resident
  rw [hparts.1, hparts.2]

theorem probe_eq {c : State g} {ord : Order g} (hc : Inv c ord) :
    c.probe = fun addr => .ok (c.resident addr) := by
  funext addr
  -- The search finds a block exactly if one holds the address, and it cannot fail.
  rcases hc.rep.searchSet (g.cacheSet addr) (g.cacheTag addr) with ⟨r, hsearch, hr⟩
  have hsome : r.isSome = c.resident addr := by
    rw [Bool.eq_iff_iff, resident_iff, Option.isSome_iff_exists]
    refine exists_congr fun b => (hr b).trans ⟨fun h => ⟨h.1, rfl, h.2⟩, fun h => ⟨h.1, h.2.2⟩⟩
  rw [State.probe, hsearch, ← hsome]
  rfl

theorem requestAddr_eq (hfits : g.Fits) (addr : Addr) :
    g.requestAddr addr = g.cacheBaddr addr := g.cacheMkBaddr_tag_set hfits addr

namespace Geometry

variable (g)

/-- A block address that is put together in such a cache is the address without
    the bits that are in no tag. -/
theorem getLsbD_requestAddr (h : ¬ g.Fits) (addr : Addr) (i : Nat) :
    (g.requestAddr addr).getLsbD i = (decide (g.tagShift % 32 ≤ i) && addr.getLsbD i) := by
  have hle := g.tagShift_mod_le h
  have hblocks := g.setShift_lt
  -- Only the tag is shifted by 32 or more, and so by the rest; the set is shifted as usual.
  have hmod : g.setShift % 32 = g.setShift := Nat.mod_eq_of_lt (by omega)
  rw [requestAddr, g.ofNat_cacheSet h, cacheMkBaddr, cacheTag, shiftLeft, shiftLeft, shiftRight,
    hmod, BitVec.getLsbD_or, BitVec.getLsbD_shiftLeft, BitVec.getLsbD_shiftLeft,
    BitVec.getLsbD_ushiftRight, BitVec.getLsbD_ushiftRight]
  by_cases hi : i < 32
  · by_cases htag : g.tagShift % 32 ≤ i
    · have hsum : g.tagShift % 32 + (i - g.tagShift % 32) = i := by omega
      by_cases hset : g.setShift ≤ i
      · have hsum' : g.setShift + (i - g.setShift) = i := by omega
        -- A bit of the set: the tag and the set give the same bit of the address.
        simp [hi, htag, hset, hsum, hsum', Nat.not_lt.mpr]
      · -- Below the set only the tag has the bit.
        simp [hi, htag, hset, hsum, Nat.not_lt.mpr, Nat.lt_of_not_le]
    · -- Below the tag, and so below the set: no bit.
      have hset : i < g.setShift := by omega
      simp [hi, htag, hset, Nat.lt_of_not_le]
  · simp [hi, BitVec.getLsbD_of_ge _ _ (Nat.le_of_not_lt hi)]

/-- It has the tag and the set of the address, in every cache. -/
theorem requestAddr_parts (addr : Addr) : g.cacheTag (g.requestAddr addr) = g.cacheTag addr ∧
    g.cacheSet (g.requestAddr addr) = g.cacheSet addr := by
  by_cases hfits : g.Fits
  · -- The block of the address has the address's parts.
    rw [← g.cacheBaddr_eq_iff hfits, requestAddr_eq hfits, g.cacheBaddr_baddr]
  · have hle := g.tagShift_mod_le hfits
    -- The bits that are lost are below the tag and below the set.
    have hshift : ∀ n, g.tagShift % 32 ≤ n → g.requestAddr addr >>> n = addr >>> n := by
      intro n hn
      apply BitVec.eq_of_getLsbD_eq
      intro i _
      rw [BitVec.getLsbD_ushiftRight, BitVec.getLsbD_ushiftRight, g.getLsbD_requestAddr hfits,
        decide_eq_true (show g.tagShift % 32 ≤ n + i by omega), Bool.true_and]
    refine ⟨hshift _ le_rfl, Fin.ext ?_⟩
    rw [val_cacheSet, val_cacheSet, ← toNat_set, ← toNat_set, hshift _ hle]

end Geometry

section Prefetch

variable (g) (res : Addr → Bool)

/-- The block, unless it is resident. -/
def unlessResident (baddr : Addr) : List Addr := if res baddr then [] else [baddr]

theorem requestUnlessProbed_eq (baddr : Addr) :
    requestUnlessProbed (fun a => .ok (res a)) baddr = .ok (unlessResident res baddr) := by
  rw [requestUnlessProbed, unlessResident]
  cases res baddr <;> rfl

theorem chooseCandidate_eq (lastPrefetch : BitVec 32) (v : Chosen) (cand : BitVec 32) :
    chooseCandidate g (fun a => .ok (res a)) lastPrefetch v cand
      = .ok (choose (res (g.requestAddr cand)) lastPrefetch v cand) := rfl

/-- The variables before the loop that goes through the candidates. -/
def chosenBefore (row : Traced (BitVec 32)) : Chosen :=
  { row := row
    prefetch := (List.range (DELTAS - 4)).foldl (fun p i => p.write i (-1)) (.of fun _ => 0)
    prefIndex := 0, inFlight := List.replicate 32 (-1) }

/-- `chooseRequests`. -/
def chosenRequests (v : Candidates) : OpenEnded :=
  let chosen := ((List.range v.counter).map v.cand.cell).foldl
    (fun u cand => choose (res (g.requestAddr cand)) (v.row.cell 2) u cand)
    (chosenBefore (v.row.read 2).2)
  { row := chosen.row
    cand := (v.cand.readAll (List.range v.counter)).2
    prefetch := (chosen.prefetch.readAll (List.range (min chosen.prefIndex 5))).2
    requests := ((List.range (min chosen.prefIndex 5)).map chosen.prefetch.cell).map g.requestAddr }

theorem chooseRequests_eq (v : Candidates) :
    chooseRequests g (fun a => .ok (res a)) v = .ok (chosenRequests g res v) := by
  -- Induction over the candidates: the choice fails only if a probe does.
  have hloop : ∀ (cands : List (BitVec 32)) (last : BitVec 32) (u : Chosen),
      cands.foldlM (chooseCandidate g (fun a => .ok (res a)) last) u
        = .ok (cands.foldl (fun u cand => choose (res (g.requestAddr cand)) last u cand) u) := by
    intro cands last
    induction cands with
    | nil => exact fun _ => rfl
    | cons cand cands ih =>
        intro u
        rw [List.foldlM_cons, chooseCandidate_eq]
        exact ih _
  rw [chooseRequests]
  simp only [Traced.readAll, Traced.read, hloop]
  rfl

/-- `openEndedRow`. -/
def openEndedCall (PC addr : Addr) (row : Nat → BitVec 32) : OpenEnded :=
  let r := recordDelta PC addr (.of row)
  if r.1 then chosenRequests g res (findCandidates addr r.2)
  else { row := r.2, cand := .of fun _ => 0, prefetch := .of fun _ => 0, requests := [] }

theorem openEndedRow_eq (PC addr : Addr) (row : Nat → BitVec 32) :
    openEndedRow g (fun a => .ok (res a)) PC addr row = .ok (openEndedCall g res PC addr row) := by
  rw [openEndedRow, openEndedCall]
  dsimp only
  split
  · exact chooseRequests_eq g res _
  · rfl

/-- `generatePrefetch`. -/
def predictions (PC addr : Addr) (t : Tables) : Tables × List Addr :=
  match g.prefetchType with
  | 0 => (t, [])
  | 1 => (t, unlessResident res (g.requestAddr (addr + BitVec.ofNat 32 g.bsize)))
  | 2 =>
      let v := openEndedCall g res (PC >>> 2) addr (t.DCPT (dcptIndex PC))
      (t.setDcptRow (dcptIndex PC) v.row.cell, v.requests)
  | _ =>
      let r := strideRow (PC >>> 2) addr (.of (t.RPT.cell (g.rptIndex PC)))
      (t.setRptRow (g.rptIndex PC) r.2.cell,
        match r.1 with
        | some target => unlessResident res (g.requestAddr target)
        | none => [])

theorem generatePrefetch_eq (PC addr : Addr) (t : Tables) :
    generatePrefetch g (fun a => .ok (res a)) PC addr t = .ok (predictions g res PC addr t) := by
  rw [generatePrefetch, predictions]
  rcases g.prefetchType with _ | _ | _ | type
  · rfl
  · dsimp only
    rw [nextLinePrefetcher, requestUnlessProbed_eq]
    rfl
  · dsimp only
    rw [openEndedPrefetcher, openEndedRow_eq]
    rfl
  · dsimp only
    rw [stridePrefetcher]
    dsimp only
    rcases (strideRow (PC >>> 2) addr (.of (t.RPT.cell (g.rptIndex PC)))).1 with _ | target
    · rfl
    · dsimp only
      rw [requestUnlessProbed_eq]
      rfl

end Prefetch

/-- The prefetcher of a well-formed cache does not fail. -/
theorem generatePrefetch_probe {c : State g} {ord : Order g} (hc : Inv c ord) (PC addr : Addr)
    (t : Tables) : generatePrefetch g c.probe PC addr t
      = .ok (predictions g c.resident PC addr t) := by
  rw [probe_eq hc, generatePrefetch_eq]

end Cache

end MicroArch
