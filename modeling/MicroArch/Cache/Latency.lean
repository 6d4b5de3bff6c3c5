import MicroArch.Cache.Stops
import MicroArch.Cache.Survival

/-!
# The Latency of a Hit

A hit returns the time until the data of its block are there, and reads it
from the block after its prefetcher was called. When the requests of the
prefetcher replace the block, it is the time until the data of another one are
there, which the next level decides.

The block is replaced when more blocks of its set are requested than there are
behind it in the way list. With random replacement one of them is enough, if
the draw is that way. Nothing is seen of this when the requests end the
program, or when the access is so late that all data that were requested at
time zero have come.

## Main definitions

* `Geometry.waiting`: The latency of a hit from the time its data are there.
* `State.room`: How many blocks of its set may be requested.
* `Undelayed`: The latency of a hit is the one of the block that was found,
  whatever the next level answers.
* `Delays`: There is an answer with which it is not.
* `answering`: The next level that gives it.

## Theorems

* `visible_iff`: The accesses that are not too late for a delay to be seen.
* `serve_hit`: What a hit does, up to the call of its prefetcher.
* `undelayed_iff`: When the latency is the one of the block that was found.
* `hit_delayed`: A hit that waits for its own prefetch.
-/

namespace MicroArch

namespace Cache

open Pointer

variable {g : Geometry} {σ ω : Type}

/-! ### The block of a hit -/

/-- The block of a hit. -/
def State.Path.block : State.Path g → Option (BlkPtr g)
  | .miss => none
  | .hit blk => some blk
  | .fastHit blk => blk

/-- The latency of a hit from the time at which the data of its block are
    there. -/
def Geometry.waiting (g : Geometry) (now ready : Tick) : BitVec 32 :=
  (maxTick (g.hitLatency.zeroExtend 64) (ready - now)).setWidth 32

theorem hitLatency_eq (c : State g) (now : Tick) (p : BlkPtr g) :
    c.hitLatency now p = g.waiting now (c.blk p).ready := rfl

/-! ### Late accesses -/

section Late

variable {now ready : Tick}

theorem toInt_ticks (lat : BitVec 32) : (ticks lat).toInt = lat.toInt :=
  BitVec.toInt_signExtend_of_le (by decide)

theorem setWidth_ticks (lat : BitVec 32) : (ticks lat).setWidth 32 = lat := by
  rw [ticks]
  ext i hi
  rw [BitVec.getElem_setWidth, BitVec.getLsbD_signExtend, if_pos hi, BitVec.getLsbD_eq_getElem hi,
    decide_eq_true (by omega : i < 64), Bool.true_and]

theorem toInt_hitLatency (g : Geometry) :
    (g.hitLatency.zeroExtend 64).toInt = g.hitLatency.toNat := by
  have hlt := g.hitLatency.isLt
  rw [BitVec.zeroExtend, BitVec.toInt_setWidth]
  exact Int.bmod_eq_of_le (by omega) (by omega)

/-- A block whose data are there, or come within the latency of a hit. -/
theorem waiting_of_le (h : (ready - now).toInt ≤ g.hitLatency.toNat) :
    g.waiting now ready = g.hitLatency := by
  have hwidth : (g.hitLatency.zeroExtend 64).setWidth 32 = g.hitLatency := by
    rw [BitVec.zeroExtend, BitVec.setWidth_setWidth_of_le _ (by decide), BitVec.setWidth_eq]
  have hmax : maxTick (g.hitLatency.zeroExtend 64) (ready - now) = g.hitLatency.zeroExtend 64 := by
    unfold maxTick
    split
    · -- Either the wait is shorter than a hit, or it is as long.
      rfl
    · rename_i hslt
      rw [BitVec.slt_iff_toInt_lt, toInt_hitLatency] at hslt
      apply BitVec.eq_of_toInt_eq
      rw [toInt_hitLatency]
      omega
  rw [Geometry.waiting, hmax, hwidth]

/-- A block whose data come later. -/
theorem waiting_of_ge (h : g.hitLatency.toNat ≤ (ready - now).toInt) :
    g.waiting now ready = (ready - now).setWidth 32 := by
  rw [Geometry.waiting, maxTick, if_neg]
  rw [BitVec.slt_iff_toInt_lt, toInt_hitLatency]
  omega

/-- Latencies that are both seen. -/
theorem eq_of_waiting {lat lat' : BitVec 32} (h : g.hitLatency.toNat ≤ (ticks lat - now).toInt)
    (h' : g.hitLatency.toNat ≤ (ticks lat' - now).toInt)
    (heq : g.waiting now (ticks lat) = g.waiting now (ticks lat')) : lat = lat' := by
  rw [waiting_of_ge h, waiting_of_ge h'] at heq
  have hadd := congrArg (· + now.setWidth 32) heq
  rwa [← BitVec.setWidth_add _ _ (by decide), ← BitVec.setWidth_add _ _ (by decide),
    sub_add_cancel, sub_add_cancel, setWidth_ticks, setWidth_ticks] at hadd

/-- The time until the data of a block that was requested at time zero are
    there, as long as times do not wrap around. -/
theorem toInt_wait (lat : BitVec 32) (hpos : 0 ≤ now.toInt)
    (hlt : now.toInt ≤ 9223372034707292160) : (ticks lat - now).toInt = lat.toInt - now.toInt := by
  have hle := lat.le_toInt
  have hlt' := lat.toInt_lt
  rw [BitVec.toInt_sub, toInt_ticks]
  exact Int.bmod_eq_of_le (by omega) (by omega)

/-- When it makes a difference which data an access at such a time waits for:
    when it does not come too late for the latest of them, or waits already. -/
theorem visible_iff (hpos : 0 ≤ now.toInt) (hlt : now.toInt ≤ 9223372034707292160) :
    (∃ lat, g.waiting now (ticks lat) ≠ g.waiting now ready) ↔
      now.toInt + g.hitLatency.toNat < 2147483647 ∨ g.waiting now ready ≠ g.hitLatency := by
  have hwait := fun lat => toInt_wait lat hpos hlt
  constructor
  · rintro ⟨lat, hne⟩
    by_contra hnot
    rw [not_or, not_lt, not_not] at hnot
    -- Too late to be seen, and the block is there: every latency gives that of a hit.
    refine hne ((waiting_of_le ?_).trans hnot.2.symm)
    have hlat := lat.toInt_lt
    rw [hwait]
    omega
  · rintro (hsoon | hne)
    · -- Of two latencies that are both seen, one is another than that of the block.
      have hlast : g.hitLatency.toNat ≤ (ticks 2147483647 - now).toInt := by
        rw [hwait, show (2147483647 : BitVec 32).toInt = 2147483647 from rfl]
        omega
      have hbefore : g.hitLatency.toNat ≤ (ticks 2147483646 - now).toInt := by
        rw [hwait, show (2147483646 : BitVec 32).toInt = 2147483646 from rfl]
        omega
      by_cases heq : g.waiting now (ticks 2147483647) = g.waiting now ready
      · refine ⟨2147483646, fun heq' => ?_⟩
        exact absurd (eq_of_waiting hlast hbefore (heq.trans heq'.symm)) (by decide)
      · exact ⟨2147483647, heq⟩
    · -- The block is waited for, and data that came at time zero would not be.
      refine ⟨0, fun heq => hne (heq.symm.trans (waiting_of_le ?_))⟩
      rw [hwait, show (0 : BitVec 32).toInt = 0 from rfl]
      omega

end Late

/-! ### A hit before its prefetches -/

/-- How many other blocks can come into its set before the block of a hit is
    replaced. -/
def State.room (c : State g) (p : BlkPtr g) : Nat :=
  match g.policy with
  | .LRU => g.assoc - 1
  | .FIFO => count (fun b => ((c.sets p.1).blks b).wayNext) g.assoc (c.blk p).wayNext
  | .Random => 0

/-- A hit, up to the call of its prefetcher. -/
structure Hit (s s' : Sys g σ) (ord ord' : Order g) (cmd : Cmd) (addr : Addr) (p : BlkPtr g) :
    Prop where
  inv : Inv s'.cache ord'
  found : Holds s.cache p addr
  touched : Touched s.cache s'.cache ord ord' cmd p
  ready : ∀ q, (s'.cache.blk q).ready = (s.cache.blk q).ready
  last : s'.cache.lastBlk = some p
  shared : s'.env.shared = s.env.shared

section Hit

variable {s s' : Sys g σ} {ord ord' : Order g} {cmd : Cmd} {addr : Addr} {p : BlkPtr g}

theorem serve_hit (hfits : g.Fits) (hc : Inv s.cache ord) {path : State.Path g}
    (hlookup : s.cache.lookup addr = .ok path) (hp : path.block = some p) (out : Outside σ)
    (cmd : Cmd) (now : Tick) : ∃ s' ord', serve out cmd addr now false s = .ok (.hit (some p), s') ∧
      Hit s s' ord ord' cmd addr p := by
  -- What is the same on both paths follows from the answer.
  have hrest : ∀ s' ord', serve out cmd addr now false s = .ok (.hit (some p), s') →
      Inv s'.cache ord' → Holds s.cache p addr → Touched s.cache s'.cache ord ord' cmd p →
      s'.env.shared = s.env.shared → Hit s s' ord ord' cmd addr p := by
    intro s' ord' hserve hinv hfound htouched hshared
    have hready := (serve_waits hc cmd addr now false).of_eq hserve
    have hlast := (serve_last hc cmd addr now false).of_eq hserve
    exact ⟨hinv, hfound, htouched, hready, hlast, hshared⟩
  rcases lookup_eq hc addr with ⟨path', hlookup', hfinds⟩
  -- Only the two hits of the lookup have a block to answer with.
  cases hlookup.symm.trans hlookup'
  cases hfinds with
  | miss h => exact absurd hp (Option.some_ne_none p).symm
  | hit q hq =>
      cases hp
      rcases touch_eq hc hq cmd false with ⟨c', ord', heq, hinv, htouched⟩
      have hserve : serve out cmd addr now false s = .ok (.hit (some p),
          { cache := c', env := s.env.note (.hit p cmd addr false) }) := by
        rw [serve, hlookup]
        change (do let c ← s.cache.touch cmd addr false p; _) = _
        rw [heq]
        rfl
      exact ⟨_, ord', hserve, hrest _ ord' hserve hinv hq htouched rfl⟩
  | fastHit q hlast hq =>
      cases hp
      have hheld := hq.holds hfits
      rcases fastTouch_eq hc hlast hq cmd false with ⟨c', heq, hinv, htouched⟩
      have hserve : serve out cmd addr now false s = .ok (.hit (some p),
          { cache := c', env := s.env.note (.hit p cmd addr false) }) := by
        rw [serve, hlookup]
        change (do let c ← s.cache.fastTouch cmd addr false (some p); _) = _
        rw [heq]
        rfl
      exact ⟨_, ord, hserve, hrest _ ord hserve hinv hheld htouched rfl⟩
  | null hlast h => exact absurd hp (Option.some_ne_none p).symm

theorem Hit.resident (h : Hit s s' ord ord' cmd addr p) : s'.cache.resident = s.cache.resident := by
  funext x
  rw [Bool.eq_iff_iff, resident_iff, resident_iff]
  exact exists_congr fun b => h.touched.holds_iff

theorem Hit.holds (h : Hit s s' ord ord' cmd addr p) : Holds s'.cache p addr :=
  h.touched.holds_iff.mpr h.found

/-- The blocks behind that of a hit are those there is room for. -/
theorem Hit.kept (h : Hit s s' ord ord' cmd addr p) (hc : Inv s.cache ord) :
    Kept s'.cache p addr (s.cache.room p) [] s'.cache ord' := by
  rcases hpolicy : g.policy
  · -- LRU has moved the block to the front, so all others are behind it.
    have horder := h.touched.order
    rw [if_pos hpolicy] at horder
    rw [State.room, hpolicy]
    refine .first h.inv h.holds ?_
    rw [horder]
    exact toFront_head ord p
  · -- With random replacement there is no room to count.
    rcases (h.inv.rep p.1).split p.2 with ⟨front, back, hord, -⟩
    exact .start h.inv h.holds hord fun hne => absurd hpolicy hne
  · -- FIFO leaves the order, and `room` counts what the source finds behind the block.
    have horder := h.touched.order
    rw [if_neg (by rw [hpolicy]; exact nofun)] at horder
    rcases (hc.rep p.1).split p.2 with ⟨front, back, hord, -⟩
    have hsplit : ord' p.1 = front ++ p.2 :: back := by rw [horder, hord]
    refine .start h.inv h.holds hsplit fun _ => ?_
    have hlinked := (hc.rep p.1).linked
    have hlength := length_order hc p.1
    rw [hord] at hlinked hlength
    rw [List.length_append, List.length_cons] at hlength
    rw [State.room, hpolicy]
    exact (count_eq (seg_middle.mp hlinked.forward).2 (by omega)).symm

end Hit

/-! ### The prefetches of a hit -/

/-- The blocks that the prefetcher requests after a hit. -/
def Sys.requests (s : Sys g (Tables × ω)) (PC addr : Addr) : List Addr :=
  (predictions g s.cache.resident PC addr s.tables).2

/-- Whatever the next level answers, a hit returns the latency of its block as
    it was found, which is what it returns without a prefetcher. -/
def Undelayed (s : Sys g (Tables × ω)) (PC : Addr) (cmd : Cmd) (addr : Addr) (nbytes : BitVec 32)
    (now : Tick) (p : BlkPtr g) : Prop :=
  ∀ (out : Outside (Tables × ω)) (lat : BitVec 32) (s' : Sys g (Tables × ω)),
    cacheAccess out (generate out PC addr) cmd addr nbytes now false s = .ok (lat, s') →
      lat = s.cache.hitLatency now p ∧
        ∃ s₀, cacheAccess out pure cmd addr nbytes now false s = .ok (lat, s₀)

/-- There is not room for the blocks that the prefetcher requests, the
    requests do not end the program, and it makes a difference when the data
    of another block are there. -/
structure Delays (s : Sys g (Tables × ω)) (PC addr : Addr) (now : Tick) (p : BlkPtr g) : Prop where
  crowded : s.cache.room p < (crowd g p.1 (s.requests PC addr)).card
  returns : ¬ Stops g (s.requests PC addr)
  visible : ∃ lat, g.waiting now (ticks lat) ≠ s.cache.hitLatency now p

/-- The latencies of the misses among the requests of a prefetcher. -/
def Takes (g : Geometry) (out : Outside σ) (T : BitVec 32 → Prop) : Prop :=
  ∀ (s : Sys g σ) (r : Addr) (lat : BitVec 32) (s' : Sys g σ),
    serve out .Read r 0 true s = .ok (.miss lat, s') → T lat

section Prefetches

variable {out : Outside (Tables × ω)} {s s₁ : Sys g (Tables × ω)} {ord ord₁ : Order g} {cmd : Cmd}
  {PC addr : Addr} {nbytes : BitVec 32} {now : Tick} {p : BlkPtr g}

theorem cacheAccess_hit {generate : Sys g (Tables × ω) → Except Fault (Sys g (Tables × ω))}
    (hcheck : checkAccess g addr nbytes = .ok ())
    (hserve : serve out cmd addr now false s = .ok (.hit (some p), s₁)) :
    cacheAccess out generate cmd addr nbytes now false s = (do
      let s' ← generate s₁
      return (s'.cache.hitLatency now p, s')) := by
  unfold cacheAccess
  rw [hcheck, hserve]
  rfl

theorem Hit.generate_eq (h : Hit s s₁ ord ord₁ cmd addr p) (out : Outside (Tables × ω))
    (PC : Addr) : ∃ t, generate out PC addr s₁ =
      (s.requests PC addr).foldlM (request out) (s₁.predicted PC addr t) := by
  have htables : s₁.tables = s.tables := congrArg Prod.fst h.shared
  rw [Cache.generate_eq h.inv, h.resident, htables]
  exact ⟨_, rfl⟩

/-- The requests are for blocks that are not in the cache. -/
theorem Hit.requests_new (h : Hit s s₁ ord ord₁ cmd addr p) (PC : Addr) :
    ∀ r ∈ s.requests PC addr,
      (∃ x, r = g.requestAddr x) ∧ s₁.cache.resident r = false := by
  rw [h.resident]
  exact predictions_new g s.cache.resident PC addr s.tables

/-- A time that was set stays one that may be set, through further requests. -/
theorem request_ready {T : BitVec 32 → Prop} (hT : Takes g out T) (hc : Inv s.cache ord)
    (hready : ∃ lat, T lat ∧ (s.cache.blk p).ready = ticks lat) (r : Addr) :
    Ends (Expected g) (request out s r) fun s' => (∃ ord', Inv s'.cache ord') ∧
      ∃ lat, T lat ∧ (s'.cache.blk p).ready = ticks lat := by
  refine request_rule ((((serve_ends hc .Read r 0 true).meet (serve_waits hc .Read r 0 true)
    fun _ he _ => he).and_of_ok fun _ hx => hx).mono fun x hx => ?_)
  rcases x with ⟨answer, s'⟩
  rcases hx with ⟨⟨⟨ord', hinv, hserved⟩, hwaits⟩, hserve⟩
  refine ⟨hserved.nullBlock, fun hne => ⟨⟨ord', hinv⟩, ?_⟩⟩
  -- A request that fills the block sets the time anew, with a latency of the same kind.
  cases hserved with
  | miss lat v hmiss hreplaced =>
      have hset := hwaits v .Read r true _ (by rw [hreplaced.log, List.head?_cons]) p
      rw [zero_add] at hset
      by_cases hpv : p = v
      · exact ⟨lat, hT s r lat s' hserve, hset.trans (if_pos hpv)⟩
      · rcases hready with ⟨lat', hlat', hold⟩
        exact ⟨lat', hlat', (hset.trans (if_neg hpv)).trans hold⟩
  | hit q hq ht hlog =>
      rcases hready with ⟨lat', hlat', hold⟩
      exact ⟨lat', hlat', (hwaits p).trans hold⟩
  | null => exact absurd rfl hne

/-- The time at which the data of the block are there, after the prefetcher
    was called. -/
theorem Hit.generate (hfits : g.Fits) (h : Hit s s₁ ord ord₁ cmd addr p) (hc : Inv s.cache ord)
    (out : Outside (Tables × ω)) (PC : Addr) {T : BitVec 32 → Prop} {K : List Addr → Prop}
    (hT : Takes g out T) (hK : K [])
    (hkeeps : ∀ x answer x' r pre ord ord', r ∈ s.requests PC addr →
      serve out .Read r 0 true x = .ok (answer, x') → answer ≠ .hit none → K pre →
      Kept s₁.cache p addr (s.cache.room p) pre x.cache ord →
      Kept s₁.cache p addr (s.cache.room p) (pre ++ [r]) x'.cache ord' → K (pre ++ [r])) :
    Ends (Expected g) (generate out PC addr s₁) fun s' =>
      (K (s.requests PC addr) ∧
        (g.policy ≠ .Random → (crowd g p.1 (s.requests PC addr)).card ≤ s.cache.room p) ∧
        (s'.cache.blk p).ready = (s.cache.blk p).ready) ∨
      (s.cache.room p < (crowd g p.1 (s.requests PC addr)).card ∧
        ∃ lat, T lat ∧ (s'.cache.blk p).ready = ticks lat) := by
  rcases h.generate_eq out PC with ⟨t, hgenerate⟩
  have hrandom : g.policy = .Random → s.cache.room p = 0 := by
    intro hpolicy
    rw [State.room, hpolicy]
  have hmiss : ∀ r ∈ s.requests PC addr, ∀ b, ¬ Holds s₁.cache (g.cacheSet r, b) r :=
    fun r hr b => not_holds (h.requests_new PC r hr).2 _
  let Q (x : Sys g (Tables × ω)) : Prop :=
    (∃ ord, Inv x.cache ord) ∧ ∃ lat, T lat ∧ (x.cache.blk p).ready = ticks lat
  rw [hgenerate]
  refine (requests_crowd (s := s₁.predicted PC addr t) (Q := Q) hfits (h.kept hc) hrandom hmiss hK
    hkeeps ?_ ?_).mono fun s' hs' => ?_
  · -- A request that replaces the block sets the time to its own latency.
    intro x lat x' r pre ord _ hserve _ hd
    exact ⟨hd.inv, lat, hT x r lat x' hserve, hd.ready⟩
  · intro x r _ hx
    rcases hx with ⟨⟨ord, hcx⟩, hready⟩
    exact request_ready hT hcx hready r
  · refine hs'.imp (fun hs' => ?_) fun hs' => ⟨hs'.1, hs'.2.2⟩
    rcases hs' with ⟨hrequests, ord', hkept⟩
    exact ⟨hrequests, hkept.card_le, hkept.ready.trans (h.ready p)⟩

/-- Without a prefetcher, a hit returns the latency of its block as it was
    found. -/
theorem Hit.access_pure (h : Hit s s₁ ord ord₁ cmd addr p)
    (hcheck : checkAccess g addr nbytes = .ok ())
    (hserve : serve out cmd addr now false s = .ok (.hit (some p), s₁)) :
    cacheAccess out pure cmd addr nbytes now false s = .ok (s.cache.hitLatency now p, s₁) := by
  rw [cacheAccess_hit hcheck hserve, hitLatency_eq, ← h.ready p]
  rfl

theorem undelayed_of_not (hfits : g.Fits) (hc : Inv s.cache ord) {path : State.Path g}
    (hlookup : s.cache.lookup addr = .ok path) (hp : path.block = some p)
    (hcheck : checkAccess g addr nbytes = .ok ()) (h : ¬ Delays s PC addr now p) :
    Undelayed s PC cmd addr nbytes now p := by
  intro out lat s' haccess
  rcases serve_hit hfits hc hlookup hp out cmd now with ⟨s₁, ord₁, hserve, hhit⟩
  rw [cacheAccess_hit hcheck hserve] at haccess
  rcases bind_eq_ok haccess with ⟨s₂, hgenerate, hret⟩
  cases hret
  have hlat : s'.cache.hitLatency now p = s.cache.hitLatency now p := by
    have hready := (hhit.generate hfits hc out PC (T := fun _ => True) (K := fun _ => True)
      (fun _ _ _ _ _ => trivial) trivial fun _ _ _ _ _ _ _ _ _ _ _ _ _ => trivial).of_eq hgenerate
    rcases hready with ⟨-, -, hready⟩ | ⟨hcrowded, lat, -, hready⟩
    · -- As long as the block stays, its time is the one it had.
      rw [hitLatency_eq, hready, ← hitLatency_eq]
    · by_contra hne
      refine h ⟨hcrowded, fun hstops => ?_, lat, ?_⟩
      · rcases hhit.generate_eq out PC with ⟨t, heq⟩
        refine requests_stop (s := s₁.predicted PC addr t) hfits hhit.inv (fun r hr => ?_) hstops
          (heq.symm.trans hgenerate)
        exact (hhit.requests_new PC r hr).2
      · rwa [← hready, ← hitLatency_eq]
  rw [hlat]
  exact ⟨rfl, s₁, hhit.access_pure hcheck hserve⟩

end Prefetches

/-! ### A next level that delays -/

/-- The next level lets every block be there at a given time, and the draws
    are all the same. -/
def answering (target way : BitVec 32) : Outside σ :=
  { blkAccess := fun _ _ _ now _ x => .ok (target - now.setWidth 32, x)
    myrand := fun x => (way, x) }

theorem inert_answering (target way : BitVec 32) : Inert (answering target way : Outside σ) where
  call _ _ _ _ _ _ := ⟨_, rfl⟩
  draw _ := rfl

section Answering

variable {target way : BitVec 32}

theorem load_answering (cmd : Cmd) (addr : Addr) (prefetch : Bool) (p : BlkPtr g)
    (r : State.Timed g σ) : Ends (fun _ => True)
      (State.load (answering target way) cmd addr 0 prefetch p r) fun r' => r'.lat = target := by
  refine .ret ?_
  change r.lat + (target - ((0 : Tick) + ticks r.lat).setWidth 32) = target
  rw [zero_add, setWidth_ticks]
  exact add_sub_cancel r.lat target

/-- With random replacement, the block is the one that is drawn. -/
theorem selectVictim_drawn (i : Fin g.nsets) (c : State g) (e : Env g σ) : Ends (fun _ => True)
    (State.selectVictim (answering target way) i c e) fun r =>
      g.policy = .Random → r.1.val = way.toNat % g.assoc := by
  by_cases hpolicy : g.policy = .Random
  · rw [State.selectVictim, hpolicy]
    exact .ret fun _ => Geometry.toNat_and_mask way g.assoc_pos g.assoc_pow g.assoc_lt
  · exact (Ends.any _).mono fun _ _ h => absurd h hpolicy

theorem fill_answering (cmd : Cmd) (addr : Addr) (prefetch : Bool) (c : State g) (e : Env g σ) :
    Ends (fun _ => True) (State.fill (answering target way) cmd addr 0 prefetch c e) fun r =>
      r.lat = target ∧ ∃ b replaced,
        r.env.log.head? = some (.fill (g.cacheSet addr, b) cmd addr prefetch replaced) ∧
        (g.policy = .Random → b.val = way.toNat % g.assoc) := by
  unfold State.fill
  refine (selectVictim_drawn (g.cacheSet addr) _ e).bind fun x hx => ?_
  refine (Ends.any _).bind fun c' _ => (Ends.any _).bind fun r _ => ?_
  refine (load_answering cmd addr prefetch _ r).bind fun r' hr' => .ret ⟨hr', ?_⟩
  exact ⟨x.1, _, rfl, hx⟩

theorem serve_answering (cmd : Cmd) (addr : Addr) (prefetch : Bool) (s : Sys g σ) :
    Ends (fun _ => True) (serve (answering target way) cmd addr 0 prefetch s) fun x =>
      ∀ lat, x.1 = .miss lat → lat = target ∧ ∃ b replaced,
        x.2.env.log.head? = some (.fill (g.cacheSet addr, b) cmd addr prefetch replaced) ∧
        (g.policy = .Random → b.val = way.toNat % g.assoc) := by
  unfold serve
  refine (Ends.any _).bind fun path _ => ?_
  rcases path with _ | p | blk
  · refine (fill_answering cmd addr prefetch s.cache s.env).bind fun r hr => .ret fun lat hlat => ?_
    cases hlat
    exact hr
  · exact (Ends.any _).bind fun _ _ => .ret nofun
  · exact (Ends.any _).bind fun _ _ => .ret nofun

theorem takes_answering (g : Geometry) (target way : BitVec 32) :
    Takes g (answering target way : Outside σ) (· = target) := fun s r lat _ h =>
  ((serve_answering .Read r true s).of_eq h lat rfl).1

/-- With random replacement, a block whose way is drawn every time is not kept
    once a block of its set was requested. -/
theorem Kept.drawn {c₀ : State g} {p : BlkPtr g} {addr r : Addr} {room : Nat} {pre : List Addr}
    {x x' : Sys g σ} {answer : Answer g} {ord ord' : Order g} (hfits : g.Fits)
    (h : Kept c₀ p addr room pre x.cache ord) (h₀ : Holds c₀ p addr)
    (hr : ∀ b, ¬ Holds c₀ (g.cacheSet r, b) r)
    (hserve : Cache.serve (answering target (BitVec.ofNat 32 p.2.val)) .Read r 0 true x
      = .ok (answer, x'))
    (hanswer : answer ≠ .hit none)
    (h' : Kept c₀ p addr room (pre ++ [r]) x'.cache ord') (hrandom : g.policy = .Random)
    (hempty : crowd g p.1 pre = ∅) : crowd g p.1 (pre ++ [r]) = ∅ := by
  rw [crowd_append, if_neg fun hset => ?_]
  · exact hempty
  -- Suppose the request is to the set of the block.
  rcases (serve_ends h.inv .Read r 0 true).of_eq hserve with ⟨ord'', -, hserved⟩
  cases hserved with
  | miss lat v hmiss hreplaced =>
      rcases ((serve_answering .Read r true x).of_eq hserve lat rfl).2 with
        ⟨b, replaced, hhead, hdrawn⟩
      have hlog := hreplaced.log
      have hv : v = (g.cacheSet r, b) := by
        rw [hlog, List.head?_cons, Option.some.injEq] at hhead
        exact (Event.fill.inj hhead).1
      have hway : b = p.2 := by
        apply Fin.ext
        have hlt := g.assoc_lt
        have hp := p.2.isLt
        rw [hdrawn hrandom, BitVec.toNat_ofNat, Nat.mod_eq_of_lt (by omega : p.2.val < 2 ^ 32),
          Nat.mod_eq_of_lt hp]
      -- So it is the block itself that is replaced.
      have hvp : v = p := by rw [hv, hset, hway]
      have hfilled := hreplaced.holds
      rw [hvp] at hfilled
      have hheld := h₀.of_baddr hfits (h'.holds.baddr_eq hfits hfilled)
      refine hr p.2 ?_
      rw [hset]
      exact hheld
  | hit q hq =>
      rcases h.requested hr (hq.holds hfits) with ⟨r', hr', hblock⟩
      have hmem : g.cacheBaddr r' ∈ crowd g p.1 pre :=
        mem_crowd.mpr ⟨r', hr', (g.cacheSet_congr hblock).trans hset, rfl⟩
      rw [hempty] at hmem
      exact absurd hmem (Finset.notMem_empty _)
  | null => exact hanswer rfl

end Answering

section Delayed

variable {s : Sys g (Tables × ω)} {ord : Order g} {PC addr : Addr} {nbytes : BitVec 32}
  {now : Tick} {p : BlkPtr g} {path : State.Path g}

theorem not_undelayed (hfits : g.Fits) (hc : Inv s.cache ord)
    (hlookup : s.cache.lookup addr = .ok path) (hp : path.block = some p)
    (hcheck : checkAccess g addr nbytes = .ok ()) (h : Delays s PC addr now p) (cmd : Cmd) :
    ¬ Undelayed s PC cmd addr nbytes now p := by
  rcases h.visible with ⟨target, hne⟩
  -- The next level answers so that the data come at the time that can be seen.
  let out : Outside (Tables × ω) := answering target (BitVec.ofNat 32 p.2.val)
  have hinert : Inert out := inert_answering _ _
  rcases serve_hit hfits hc hlookup hp out cmd now with ⟨s₁, ord₁, hserve, hhit⟩
  have hreturn : Ends (fun _ => False) (generate out PC addr s₁) fun _ => True := by
    rcases hhit.generate_eq out PC with ⟨t, heq⟩
    rw [heq]
    have hlast : (s₁.predicted PC addr t).cache.lastBlk ≠ none := by
      change s₁.cache.lastBlk ≠ none
      rw [hhit.last]
      exact Option.some_ne_none p
    have hlength : (s.requests PC addr).length ≤ 3 := by
      refine (predictions_length_le g s.cache.resident PC addr s.tables).trans ?_
      split <;> decide
    exact requests_return hfits hinert hhit.inv hlast (hhit.requests_new PC) hlength h.returns
  let K (pre : List Addr) : Prop := g.policy = .Random → crowd g p.1 pre = ∅
  have hready := hhit.generate hfits hc out PC (K := K) (takes_answering g target _)
    (fun _ => rfl) ?_
  · rcases (hreturn.meet hready fun _ h _ => h).exists_ok with ⟨s', hgenerate, -, hs'⟩
    intro hundelayed
    have haccess : cacheAccess out (generate out PC addr) cmd addr nbytes now false s
        = .ok (s'.cache.hitLatency now p, s') := by
      rw [cacheAccess_hit hcheck hserve, hgenerate]
      rfl
    have hlat := (hundelayed out _ s' haccess).1
    rcases hs' with ⟨hempty, hroom, -⟩ | ⟨-, lat, rfl, hset⟩
    · -- There are too many requests for the block to stay.
      have hcrowded := h.crowded
      by_cases hpolicy : g.policy = .Random
      · rw [hempty hpolicy, Finset.card_empty] at hcrowded
        exact absurd hcrowded (Nat.not_lt_zero _)
      · exact absurd hcrowded (Nat.not_lt.mpr (hroom hpolicy))
    · rw [hitLatency_eq, hset] at hlat
      exact hne hlat
  · intro x answer x' r pre ord ord' hr hxserve hanswer hempty hkept hkept' hrandom
    have hmiss : ∀ b, ¬ Holds s₁.cache (g.cacheSet r, b) r := fun b =>
      not_holds (hhit.requests_new PC r hr).2 _
    exact hkept.drawn hfits hhit.holds hmiss hxserve hanswer hkept' hrandom (hempty hrandom)

end Delayed

/-- A hit returns the latency of the block that was found, whatever the next
    level answers, if and only if its prefetcher does not delay it, for sets
    that fit into the memory. -/
theorem undelayed_iff (g : Geometry) (hfits : g.Fits) (out : Outside (Tables × ω))
    (s : Sys g (Tables × ω)) (hs : Reachable out s) (PC : Addr) (cmd : Cmd) (addr : Addr)
    (nbytes : BitVec 32) (now : Tick) (hcheck : checkAccess g addr nbytes = .ok ())
    (path : State.Path g) (p : BlkPtr g) (hlookup : s.cache.lookup addr = .ok path)
    (hp : path.block = some p) :
    Undelayed s PC cmd addr nbytes now p ↔ ¬ Delays s PC addr now p := by
  rcases hs.inv with ⟨ord, hc⟩
  constructor
  · intro hundelayed hdelays
    exact not_undelayed hfits hc hlookup hp hcheck hdelays cmd hundelayed
  · exact undelayed_of_not hfits hc hlookup hp hcheck

/-! ### Caches with the next line prefetcher -/

/-- A cache of two blocks. -/
def twoBlocksNextLine : Geometry :=
  { twoBlocks with prefetchType := 1, prefetchType_lt := oneBlock.nsets_lt }

/-- In a set of two blocks there is room for the next line. -/
theorem undelayed_nextLine : ∃ (s : Sys twoBlocksNextLine (Tables × Unit))
    (p : BlkPtr twoBlocksNextLine), 0 < (crowd _ p.1 (s.requests 4 16)).card ∧
      Undelayed s 4 .Read 16 1 0 p := by
  have hends : ∃ s path p, run twoBlocksNextLine memory (Tables.initial.create 1) ()
        [.demand 4 .Read 8 1 0] = .ok s ∧ s.cache.lookup 16 = .ok path ∧ path.block = some p ∧
      (crowd _ p.1 (s.requests 4 16)).card = 1 :=
    ⟨_, _, _, rfl, rfl, rfl, rfl⟩
  rcases hends with ⟨s, path, p, hrun, hlookup, hp, hcrowd⟩
  have hreachable := (reachable_run twoBlocksNextLine memory _ _ _).of_eq hrun
  refine ⟨s, p, by rw [hcrowd]; decide, ?_⟩
  refine (undelayed_iff twoBlocksNextLine (by decide) memory s hreachable 4 .Read 16 1 0 rfl path p
    hlookup hp).mpr fun hdelays => ?_
  have hcrowded := hdelays.crowded
  rw [hcrowd] at hcrowded
  exact Nat.lt_irrefl 1 hcrowded

/-- A cache of one block. -/
def oneBlockNextLine : Geometry :=
  { oneBlock with prefetchType := 1, prefetchType_lt := oneBlock.nsets_lt }

/-- A read of the block that the first one of the program has prefetched waits
    for the prefetch it makes itself. -/
theorem hit_delayed : ¬ ∀ (s : Sys oneBlockNextLine (Tables × Unit)) (PC : Addr) (cmd : Cmd)
    (addr : Addr) (nbytes : BitVec 32) (now : Tick) (path : State.Path oneBlockNextLine)
    (p : BlkPtr oneBlockNextLine), Reachable memory s →
    checkAccess oneBlockNextLine addr nbytes = .ok () → s.cache.lookup addr = .ok path →
    path.block = some p → Undelayed s PC cmd addr nbytes now p := by
  intro h
  have hends : ∃ s path p x, run oneBlockNextLine memory (Tables.initial.create 1) ()
        [.demand 4 .Read 8 1 0] = .ok s ∧ s.cache.lookup 16 = .ok path ∧ path.block = some p ∧
      cacheAccess memory (generate memory 4 16) .Read 16 1 0 false s = .ok x ∧
      s.cache.hitLatency 0 p = 2 ∧ x.1 = 3 :=
    ⟨_, _, _, _, rfl, rfl, rfl, rfl, rfl, rfl⟩
  rcases hends with ⟨s, path, p, x, hrun, hlookup, hp, haccess, hfound, hlat⟩
  have hreachable := (reachable_run oneBlockNextLine memory _ _ _).of_eq hrun
  have hsame := (h s 4 .Read 16 1 0 path p hreachable rfl hlookup hp memory x.1 x.2 haccess).1
  rw [hfound, hlat] at hsame
  exact absurd hsame (by decide)

end Cache

end MicroArch
