import MicroArch.Cache.Coherence
import MicroArch.Cache.Crowding
import MicroArch.Cache.History

/-!
# Blocks After an Access

Which blocks an access with least recently used replacement leaves in the
cache: the one it was to, and the ones its prefetcher has asked for.

The block of the access is the first one of its set when the prefetcher is
called, so a set of two blocks has room for one more. All prefetchers but the
delta correlation prefetcher ask for one block at most. That one asks for up
to three, and two of them may replace the block that was just accessed.

With two blocks in a set the first request that comes into it replaces the
other block, and the second one the block of the access. So the property fails
exactly if two of the requested blocks are in the set of the access, which
`Crowded` reads off the cache and the tables before the prefetcher runs.

In a cache whose sets do not fit into the memory, an access may be taken for a
hit on a block with another tag. Its block is then not in the cache to begin
with, whatever its prefetcher does, so such caches are left out.

## Main definitions

* `Survives`: The blocks that should be in the cache.
* `Crowded`: The prefetcher asks for more blocks than there is room for.

## Theorems

* `survives_iff`: When they are in the cache.
* `alternating_replaced`: An access whose block is replaced at once.
-/

namespace MicroArch

namespace Cache

variable {g : Geometry} {σ ω : Type}

/-- After an access: its own block is in the cache, the next one if the next
    line prefetcher is used, and the predicted one if the stride prefetcher is
    used and makes a prediction. The tables are those at its call. -/
structure Survives (g : Geometry) (PC addr : Addr) (t : Tables) (c : State g) : Prop where
  accessed : c.resident addr
  nextLine : g.prefetchType = 1 → c.resident (addr + BitVec.ofNat 32 g.bsize)
  stride : 2 < g.prefetchType → t.RPT.cell (g.rptIndex PC) 0 = PC >>> 2 →
    let row := (strideRow (PC >>> 2) addr (.of (t.RPT.cell (g.rptIndex PC)))).2.cell
    row 4 ≠ NOPRED → c.resident (addr + row 2)

/-- Two places in a set, and two different blocks of it that the delta
    correlation prefetcher asks for. -/
def Crowded (g : Geometry) (PC addr : Addr) (t : Tables) (c : State g) : Prop :=
  g.assoc = 2 ∧ g.prefetchType = 2 ∧
    2 ≤ (crowd g (g.cacheSet addr) (predictions g c.resident PC addr t).2).card

instance (g : Geometry) (PC addr : Addr) (t : Tables) (c : State g) :
    Decidable (Crowded g PC addr t c) := inferInstanceAs (Decidable (_ ∧ _))

/-- More requests than there is room for are made only then. -/
theorem crowded_iff (g : Geometry) (hassoc : 2 ≤ g.assoc) (PC addr : Addr) (t : Tables)
    (c : State g) : Crowded g PC addr t c ↔
      g.assoc - 1 < (crowd g (g.cacheSet addr) (predictions g c.resident PC addr t).2).card := by
  have hlength := (card_crowd_le (g.cacheSet addr) _).trans
    (predictions_length_le g c.resident PC addr t)
  -- An associativity is a power of two, so three requests never just fit behind a block.
  have hthree : g.assoc ≠ 3 := by
    intro h
    have hpow := g.assoc_pow
    rw [h] at hpow
    exact absurd hpow (by decide)
  unfold Crowded
  -- Two places leave room for one request, and only the delta correlation prefetcher asks for
  -- two or more. From four places on there is room for the three it can ask for.
  by_cases htype : g.prefetchType = 2
  · rw [if_pos htype] at hlength
    constructor
    · rintro ⟨htwo, -, hcrowd⟩
      omega
    · intro hcrowd
      exact ⟨by omega, htype, by omega⟩
  · rw [if_neg htype] at hlength
    exact iff_of_false (fun h => htype h.2.1) (by omega)

section Access

variable {out : Outside σ} {s s' : Sys g σ} {ord ord' : Order g} {cmd : Cmd} {addr : Addr}
  {prefetch : Bool} {answer : Answer g}

/-- A block that is requested unless it is in the cache is there afterwards. -/
theorem unlessResident_resident (hfits : g.Fits) (hc : Inv s.cache ord) (x : Addr) :
    Ends (Expected g) ((unlessResident s.cache.resident (g.requestAddr x)).foldlM (request out) s)
      fun s' => s'.cache.resident x := by
  have hsame : g.cacheBaddr (g.requestAddr x) = g.cacheBaddr x := by
    rw [requestAddr_eq hfits, g.cacheBaddr_baddr]
  unfold unlessResident
  split
  · rename_i hres
    refine .ret ?_
    rwa [← resident_congr hfits s.cache hsame]
  · -- The request is an access to the block, which brings it in or finds it there.
    refine Ends.bind (P := fun s' => s'.cache.resident x) ?_ fun s' hs' => .ret hs'
    refine request_rule ((serve_ends hc .Read _ 0 true).mono fun r hr => ?_)
    rcases hr with ⟨ord', -, hserved⟩
    refine ⟨hserved.nullBlock, fun hne => ?_⟩
    rcases hserved.holds hfits hne with ⟨p, hp, -⟩
    exact resident_of_holds (hp.of_baddr hfits hsame)

end Access

theorem predictions_nextLine (htype : g.prefetchType = 1) (res : Addr → Bool) (PC addr : Addr)
    (t : Tables) : (predictions g res PC addr t).2
      = unlessResident res (g.requestAddr (addr + BitVec.ofNat 32 g.bsize)) := by
  unfold predictions
  rw [htype]
  rfl

theorem predictions_owner (htype : 2 < g.prefetchType) (res : Addr → Bool) {PC addr : Addr}
    {t : Tables} {target : Addr}
    (h : (strideRow (PC >>> 2) addr (.of (t.RPT.cell (g.rptIndex PC)))).1 = some target) :
    (predictions g res PC addr t).2 = unlessResident res (g.requestAddr target) := by
  unfold predictions
  split
  · omega
  · omega
  · omega
  · dsimp only
    rw [h]

section Generate

variable {out : Outside (Tables × ω)} {s : Sys g (Tables × ω)} {ord : Order g} {addr : Addr}

/-- The call of a prefetcher after an access, with the requests it makes. -/
theorem generate_eq (hc : Inv s.cache ord) (PC addr : Addr) : generate out PC addr s =
    (predictions g s.cache.resident PC addr s.tables).2.foldlM (request out)
      (s.predicted PC addr (predictions g s.cache.resident PC addr s.tables).1) := by
  rw [generate, generatePrefetch_probe hc]
  rfl

/-- Whether the block of an access is in the cache when it returns. -/
theorem generate_accessed (hfits : g.Fits) (hpolicy : g.policy = .LRU) (hc : Inv s.cache ord)
    {p : BlkPtr g} (hp : Holds s.cache p addr) (hfirst : (ord p.1).head? = some p.2) (PC : Addr) :
    Ends (Expected g) (generate out PC addr s) fun s' => s'.cache.resident addr ↔
      (crowd g p.1 (predictions g s.cache.resident PC addr s.tables).2).card ≤ g.assoc - 1 := by
  rw [generate_eq hc]
  have hnew := predictions_new g s.cache.resident PC addr s.tables
  generalize (predictions g s.cache.resident PC addr s.tables).2 = requests at hnew ⊢
  generalize (predictions g s.cache.resident PC addr s.tables).1 = t
  -- The requests were chosen against the residency at the call, so no place holds one.
  have hmiss : ∀ r ∈ requests, ∀ b, ¬ Holds s.cache (g.cacheSet r, b) r := fun r hr b =>
    not_holds (hnew r hr).2 _
  have hother : ∀ r ∈ requests, g.cacheBaddr addr ≠ g.cacheBaddr r := fun r hr heq =>
    not_holds (hnew r hr).2 p (hp.of_baddr hfits heq)
  have hrandom : g.policy = .Random → g.assoc - 1 = 0 := by
    rw [hpolicy]
    exact nofun
  have hstart : Kept s.cache p addr (g.assoc - 1) [] s.cache ord := .first hc hp hfirst
  -- Once the block was replaced, only a request for it would bring it back.
  let Q (s' : Sys g (Tables × ω)) : Prop :=
    (∃ ord', Inv s'.cache ord') ∧ ∀ q, ¬ Holds s'.cache q addr
  refine (requests_crowd (s := s.predicted PC addr t) (K := fun _ => True) (Q := Q) hfits hstart
    hrandom hmiss trivial ?_ ?_ ?_).mono fun s' hs' => ?_
  · intros
    trivial
  · intro s₁ lat s₂ r pre ord₁ hr hserve hkept hd
    exact ⟨hd.inv, hd.gone hfits hkept (hother r hr)⟩
  · intro s₁ r hr hs₁
    rcases hs₁ with ⟨⟨ord₁, hc₁⟩, hgone⟩
    refine request_rule ((serve_ends hc₁ .Read r 0 true).mono fun x hx => ?_)
    rcases hx with ⟨ord₂, hc₂, hserved⟩
    refine ⟨hserved.nullBlock, fun _ => ⟨⟨ord₂, hc₂⟩, fun q hq => ?_⟩⟩
    exact (hserved.holds_of hfits hq).elim (hgone q) (hother r hr)
  · rcases hs' with ⟨-, ord', hkept⟩ | ⟨hlt, -, hgone⟩
    · refine iff_of_true (resident_of_holds hkept.holds) (hkept.card_le ?_)
      rw [hpolicy]
      exact nofun
    · refine iff_of_false (fun hres => ?_) (Nat.not_le.mpr hlt)
      rcases (resident_iff s'.cache addr).mp hres with ⟨b, hb⟩
      exact hgone _ hb

end Generate

/-- When an access returns, its block and the one its prefetcher has predicted
    are in the cache if and only if the prefetcher is not crowded, for sets that
    fit into the memory. -/
theorem survives_iff (g : Geometry) (hfits : g.Fits) (hpolicy : g.policy = .LRU)
    (hassoc : 2 ≤ g.assoc) (out : Outside (Tables × ω)) (s : Sys g (Tables × ω))
    (hs : Reachable out s) (PC : Addr) (cmd : Cmd) (addr : Addr) (nbytes : BitVec 32)
    (now : Tick) (answer : Answer g) (s₁ : Sys g (Tables × ω))
    (hserve : serve out cmd addr now false s = .ok (answer, s₁)) (lat : BitVec 32)
    (s' : Sys g (Tables × ω)) (haccess : cacheAccess out (generate out PC addr) cmd addr
      nbytes now false s = .ok (lat, s')) :
    Survives g PC addr s₁.tables s'.cache ↔ ¬ Crowded g PC addr s₁.tables s₁.cache := by
  rcases hs.inv with ⟨ord, hc⟩
  rcases (serve_ends hc cmd addr now false).of_eq hserve with ⟨ord₁, hc₁, hserved⟩
  rcases cacheAccess_steps haccess with ⟨answer', s₁', hserve', hafter, hlat⟩
  cases hserve.symm.trans hserve'
  have hgenerate : generate out PC addr s₁ = .ok s' := hafter
  -- An answer with the null pointer has no latency, and the access has returned one.
  have hanswer : answer ≠ .hit none := by
    rintro rfl
    exact absurd hlat nofun
  rcases hserved.holds hfits hanswer with ⟨p, hp, hfirst⟩
  have haccessed := (generate_accessed hfits hpolicy hc₁ hp (hfirst hpolicy) PC).of_eq hgenerate
  rw [hp.2.1] at haccessed
  rw [crowded_iff g hassoc, Nat.not_lt, ← haccessed]
  -- What is predicted is requested, and is there whether or not the block of the access is.
  refine ⟨fun h => h.accessed, fun h => ⟨h, fun htype => ?_, fun htype htag hstate => ?_⟩⟩
  · rw [generate_eq hc₁, predictions_nextLine htype] at hgenerate
    exact (unlessResident_resident (s := s₁.predicted PC addr _) hfits hc₁ _).of_eq hgenerate
  · rw [generate_eq hc₁, predictions_owner htype _ (strideRow_target htag hstate)] at hgenerate
    exact (unlessResident_resident (s := s₁.predicted PC addr _) hfits hc₁ _).of_eq hgenerate

/-! ### A set of two blocks -/

/-- A cache of two blocks with the delta correlation prefetcher. -/
def twoBlocks : Geometry :=
  { oneBlockDelta with
    assoc := 2
    assoc_pos := Nat.two_pos, assoc_pow := powerOfTwo_two, assoc_lt := two_lt_int }

/-- A cache of four blocks, likewise. -/
def fourBlocks : Geometry :=
  { oneBlockDelta with
    assoc := 4
    assoc_pos := pos_four, assoc_pow := powerOfTwo_four, assoc_lt := four_lt_int }

/-- The sixth read of an alternating stream asks for two blocks, for which there
    is room in a set of four. -/
theorem survives_alternating : ∃ (s : Sys fourBlocks (Tables × Unit)) (r : Answer fourBlocks × _)
    (x : BitVec 32 × _),
    run fourBlocks memory (Tables.initial.create 2) () (reads alternating 5) = .ok s ∧
    serve memory .Read 64 0 false s = .ok r ∧
    (predictions fourBlocks r.2.cache.resident 4 64 r.2.tables).2 = [72, 80] ∧
    cacheAccess memory (generate memory 4 64) .Read 64 1 0 false s = .ok x ∧
    Survives fourBlocks 4 64 r.2.tables x.2.cache := by
  have hends : ∃ s r x, run fourBlocks memory (Tables.initial.create 2) () (reads alternating 5)
        = .ok s ∧
      serve memory .Read 64 0 false s = .ok r ∧
      (predictions fourBlocks r.2.cache.resident 4 64 r.2.tables).2 = [72, 80] ∧
      cacheAccess memory (generate memory 4 64) .Read 64 1 0 false s = .ok x :=
    ⟨_, _, _, rfl, rfl, rfl, rfl⟩
  rcases hends with ⟨s, r, x, hrun, hserve, hrequests, haccess⟩
  have hreachable := (reachable_run fourBlocks memory _ _ _).of_eq hrun
  have hroom : ¬ Crowded fourBlocks 4 64 r.2.tables r.2.cache := fun h => absurd h.1 (by decide)
  have hsurvives := (survives_iff fourBlocks (by decide) rfl (by decide) memory s hreachable 4
    .Read 64 1 0 r.1 r.2 hserve x.1 x.2 haccess).mpr hroom
  exact ⟨s, r, x, hrun, hserve, hrequests, haccess, hsurvives⟩

/-- The sixth read of an alternating stream asks for two blocks, which replace
    the one that it was to. -/
theorem alternating_replaced : ¬ ∀ (s : Sys twoBlocks (Tables × Unit)) (PC : Addr) (cmd : Cmd)
    (addr : Addr) (nbytes : BitVec 32) (now : Tick) (answer : Answer twoBlocks)
    (s₁ : Sys twoBlocks (Tables × Unit)) (lat : BitVec 32) (s' : Sys twoBlocks (Tables × Unit)),
    Reachable memory s → twoBlocks.cacheBaddr addr ≠ 0 →
    serve memory cmd addr now false s = .ok (answer, s₁) →
    (∀ r ∈ (predictions twoBlocks s₁.cache.resident PC addr s₁.tables).2,
      twoBlocks.cacheBaddr r ≠ 0) →
    cacheAccess memory (generate memory PC addr) cmd addr nbytes now false s = .ok (lat, s') →
    Survives twoBlocks PC addr s₁.tables s'.cache := by
  intro h
  have hends : ∃ s r x, run twoBlocks memory (Tables.initial.create 2) () (reads alternating 5)
        = .ok s ∧
      serve memory .Read 64 0 false s = .ok r ∧
      (predictions twoBlocks r.2.cache.resident 4 64 r.2.tables).2 = [72, 80] ∧
      cacheAccess memory (generate memory 4 64) .Read 64 1 0 false s = .ok x ∧
      x.2.cache.resident 64 = false :=
    ⟨_, _, _, rfl, rfl, rfl, rfl, rfl⟩
  rcases hends with ⟨s, r, x, hrun, hserve, hrequests, haccess, hgone⟩
  have hreachable := (reachable_run twoBlocks memory _ _ _).of_eq hrun
  have hfar : ∀ r' ∈ (predictions twoBlocks r.2.cache.resident 4 64 r.2.tables).2,
      twoBlocks.cacheBaddr r' ≠ 0 := by
    rw [hrequests]
    exact List.forall_mem_cons.mpr ⟨by decide, List.forall_mem_singleton.mpr (by decide)⟩
  have haccessed := (h s 4 .Read 64 1 0 r.1 r.2 x.1 x.2 hreachable (by decide) hserve hfar
    haccess).accessed
  rw [hgone] at haccessed
  exact Bool.false_ne_true haccessed

end Cache

end MicroArch
