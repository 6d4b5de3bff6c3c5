import MicroArch.Cache.Delta
import MicroArch.Cache.Replacement

/-!
# Prefetches Into One Set

What the blocks that a prefetcher requests do to a block that the cache holds.
They are not in the cache when they are chosen. Each of them that comes into
the block's set puts one more block in front of it, however often it is
requested. As long as there are others behind it the block stays where it is,
with its data and the time at which these are there. After that it is the one
that is replaced.

With random replacement any block may be the one.

What is behind a block in the way list is the only thing that protects it. A
request that misses uses up one place of it, a request that hits uses up none
or one, and the same block requested again hits. So the number of different
blocks that are requested in the set decides, and `Room` is what is left when
some of them have come.

## Main definitions

* `Waits`: What an access does to the times at which data are there.
* `crowd`: The blocks of a set that are requested.
* `Room`: What is left behind a block for further ones.
* `Kept`: A block has been kept so far.
* `Displaced`: A block was replaced by a request.

## Theorems

* `serve_waits`: The times after an access.
* `Room.hit`, `Room.miss`: How room is used up.
* `Kept.serve`: A request keeps a block or displaces it.
* `requests_crowd`: So do several of them, depending on how many blocks they
  request.
-/

namespace MicroArch

namespace Cache

open Replacement

variable {g : Geometry} {σ : Type}

/-! ### Times -/

/-- A hit leaves the times alone. A miss sets the one of the block it fills,
    which is the one of the latest entry in the log. -/
def Waits (s s' : Sys g σ) (now : Tick) : Answer g → Prop
  | .miss lat => ∀ p cmd addr prefetch replaced,
      s'.env.log.head? = some (.fill p cmd addr prefetch replaced) →
      ∀ q, (s'.cache.blk q).ready = if q = p then now + ticks lat else (s.cache.blk q).ready
  | .hit _ => ∀ q, (s'.cache.blk q).ready = (s.cache.blk q).ready

section Times

variable {c : State g} {ord : Order g} {out : Outside σ} {e : Env g σ}

theorem ready_markDirty (c : State g) (cmd : Cmd) (p q : BlkPtr g) :
    ((c.markDirty cmd p).blk q).ready = (c.blk q).ready := by
  rw [State.markDirty]
  split
  · rw [State.blk_modifyBlk]
    split <;> rfl
  · rfl

theorem Blk.ready_of_data {n : Nat} {b b' : Blk n} (h : b.data = b'.data) : b.ready = b'.ready :=
  congrArg (fun d => d.2.2) h

theorem load_ready (cmd : Cmd) (addr : Addr) (now : Tick) (prefetch : Bool) (p : BlkPtr g)
    (r : State.Timed g σ) :
    Ends (Expected g) (State.load out cmd addr now prefetch p r) fun r' => ∀ q,
      (r'.cache.blk q).ready = if q = p then now + ticks r'.lat else (r.cache.blk q).ready := by
  rw [State.load]
  refine (call_ends ..).bind fun a _ => .ret fun q => ?_
  refine (Blk.ready_of_data (sameData_linkHash _ p q)).trans ?_
  rw [State.blk_modifyBlk]
  split
  · rfl
  · rename_i hne
    rw [ready_markDirty, State.blk_modifyBlk_of_ne _ _ hne]

theorem fill_ready (hc : Inv c ord) (cmd : Cmd) (addr : Addr) (now : Tick) (prefetch : Bool) :
    Ends (Expected g) (State.fill out cmd addr now prefetch c e) fun r =>
      Waits { cache := c, env := e } r.sys now (.miss r.lat) := by
  rcases fill_eq hc out cmd addr now prefetch e with ⟨p, c₁, e₁, hfill, hsel⟩
  rw [hfill, State.refill]
  refine (evict_ends now p c₁ e₁).bind fun r hr => ?_
  refine (load_ready cmd addr now prefetch p r).bind fun r' hr' => .ret ?_
  intro q cmd' addr' prefetch' replaced hhead q'
  -- The latest entry of the log is this fill's own, so the place it names is the victim.
  have hpq : p = q := (Event.fill.inj (Option.some.inj hhead)).1
  rw [← hpq]
  refine (hr' q').trans (if_congr Iff.rfl rfl ?_)
  -- A write-back counts and calls the next level, and touches no block.
  rw [blk_congr hr.1.sets]
  exact Blk.ready_of_data (hsel.data q')

/-- The times after an access. -/
theorem serve_waits {s : Sys g σ} (hc : Inv s.cache ord) (cmd : Cmd) (addr : Addr) (now : Tick)
    (prefetch : Bool) : Ends (Expected g) (serve out cmd addr now prefetch s) fun r =>
      Waits s r.2 now r.1 := by
  have hmarked : ∀ p q, (((s.cache.countHit cmd prefetch).markDirty cmd p).blk q).ready
      = (s.cache.blk q).ready := by
    intro p q
    rw [ready_markDirty, blk_congr (sets_countHit s.cache cmd prefetch)]
  refine serve_rule hc (fun _ => fill_ready hc cmd addr now prefetch) (fun p _ => ?_)
    (fun p _ _ => .ret (hmarked p)) fun h => ?_
  · -- A hit in the chain reorders the set; what it moves keeps its data.
    have hrep := (hc.rep.congr (sets_countHit s.cache cmd prefetch)).markDirty cmd p
    rcases reorder_eq hrep p with ⟨c', heq, -, hdata, -⟩
    rw [State.touch, heq]
    exact .ret fun q => (Blk.ready_of_data (hdata q)).trans (hmarked p q)
  · -- The fast path is taken by reads alone, which mark nothing dirty.
    rw [State.fastTouch]
    cases cmd with
    | Write => exact .fail h
    | Read =>
        exact .ret fun q => congrArg Blk.ready (blk_congr (sets_countHit s.cache .Read prefetch) q)

end Times

/-! ### Blocks that are held -/

section Held

variable {out : Outside σ} {c c' : State g} {ord ord' : Order g} {s s' : Sys g σ}
  {p q : BlkPtr g} {addr a b : Addr} {cmd : Cmd} {prefetch : Bool} {answer : Answer g}

theorem holds_congr (h : (c'.blk q).valid = (c.blk q).valid ∧ (c'.blk q).tag = (c.blk q).tag) :
    Holds c' q a ↔ Holds c q a := by
  rw [Holds, h.1, h.2, ← Holds]

/-- Two addresses of the blocks that one place holds. -/
theorem Holds.baddr_eq (hfits : g.Fits) (ha : Holds c q a) (hb : Holds c q b) :
    g.cacheBaddr a = g.cacheBaddr b := by
  have htag : g.cacheTag a = g.cacheTag b := ha.2.2.symm.trans hb.2.2
  have hset : g.cacheSet a = g.cacheSet b := ha.2.1.symm.trans hb.2.1
  exact (g.cacheBaddr_eq_iff hfits a b).mpr ⟨htag, hset⟩

theorem Holds.of_baddr (hfits : g.Fits) (ha : Holds c q a) (h : g.cacheBaddr a = g.cacheBaddr b) :
    Holds c q b :=
  (holds_iff_of_tagset hfits h).mp ha

/-- A block is held at one place. -/
theorem Holds.unique (hc : Inv c ord) (hp : Holds c p a) (hq : Holds c q a) : p = q := by
  rcases p with ⟨i, x⟩
  rcases q with ⟨j, y⟩
  have hset : i = j := hp.2.1.trans hq.2.1.symm
  -- Both places are in the set of the address, where a tag stands once.
  subst hset
  exact congrArg (i, ·) (hc.unique hp.1 hq.1 (hp.2.2.trans hq.2.2.symm))

theorem resident_of_holds (h : Holds c p addr) : c.resident addr :=
  (resident_iff c addr).mpr ⟨p.2, by rw [← h.2.1]; exact h⟩

theorem not_holds (h : c.resident a = false) (q : BlkPtr g) : ¬ Holds c q a := fun hq =>
  Bool.eq_false_iff.mp h (resident_of_holds hq)

theorem exists_holds (h : c.resident addr) : ∃ p, Holds c p addr :=
  ((resident_iff c addr).mp h).imp' (g.cacheSet addr, ·) fun _ hb => hb

/-- A hit leaves every place as it is. -/
theorem Touched.holds_iff (h : Touched c c' ord ord' cmd p) : Holds c' q a ↔ Holds c q a :=
  holds_congr ⟨h.valid q, h.tag q⟩

/-- The block of an access, and in the order of last use the first of its
    set. -/
theorem Served.holds (hfits : g.Fits) (h : Served s s' ord ord' cmd addr prefetch answer)
    (hanswer : answer ≠ .hit none) : ∃ p, Holds s'.cache p addr ∧
      (g.policy = .LRU → (ord' p.1).head? = some p.2) := by
  cases h with
  | miss lat p hmiss hreplaced =>
      refine ⟨p, hreplaced.holds, fun hpolicy => ?_⟩
      rw [hreplaced.order, hpolicy, if_neg nofun]
      exact toFront_head ord p
  | hit p hp ht hlog =>
      refine ⟨p, (hp.holds hfits).touched ht, fun hpolicy => ?_⟩
      rw [ht.order, if_pos hpolicy]
      exact toFront_head ord p
  | null => exact absurd rfl hanswer

/-- An access brings in no other block than its own. -/
theorem Served.holds_of (hfits : g.Fits) (h : Served s s' ord ord' cmd addr prefetch answer)
    (hq : Holds s'.cache q a) : Holds s.cache q a ∨ g.cacheBaddr a = g.cacheBaddr addr := by
  cases h with
  | miss lat p hmiss hreplaced =>
      by_cases hqp : q = p
      · subst hqp
        -- The place filled holds the block of the access and no other, as the tag names it.
        exact .inr (hq.baddr_eq hfits hreplaced.holds)
      · exact .inl ((holds_congr (hreplaced.others hqp)).mp hq)
  | hit p hp ht hlog => exact .inl (ht.holds_iff.mp hq)
  | null hzero hsets =>
      have hblk := blk_congr hsets q
      exact .inl ((holds_congr ⟨congrArg Blk.valid hblk, congrArg Blk.tag hblk⟩).mp hq)

theorem Served.nullBlock (h : Served s s' ord ord' cmd addr prefetch answer)
    (heq : answer = .hit none) : Expected g (.nullBlock addr) := by
  subst heq
  cases h with
  | null hzero => exact hzero

/-- The steps of an access that returns. -/
theorem cacheAccess_steps {generate : Sys g σ → Except Fault (Sys g σ)} {nbytes : BitVec 32}
    {now : Tick} {lat : BitVec 32}
    (h : cacheAccess out generate cmd addr nbytes now prefetch s = .ok (lat, s')) :
    ∃ answer s₁, serve out cmd addr now prefetch s = .ok (answer, s₁) ∧
      afterwards generate prefetch s₁ = .ok s' ∧ latency addr now s'.cache answer = .ok lat := by
  rcases bind_eq_ok h with ⟨-, -, h⟩
  rcases bind_eq_ok h with ⟨⟨answer, s₁⟩, hserve, h⟩
  rcases bind_eq_ok h with ⟨s₂, hafter, h⟩
  rcases bind_eq_ok h with ⟨lat', hlat, h⟩
  cases h
  exact ⟨answer, s₁, hserve, hafter, hlat⟩

end Held

/-! ### Requests -/

/-- The blocks of a set among those at the addresses. -/
def crowd (g : Geometry) (i : Fin g.nsets) (requests : List Addr) : Finset Addr :=
  ((requests.filter fun r => g.cacheSet r = i).map g.cacheBaddr).toFinset

theorem mem_crowd {i : Fin g.nsets} {requests : List Addr} {baddr : Addr} :
    baddr ∈ crowd g i requests ↔ ∃ r ∈ requests, g.cacheSet r = i ∧ g.cacheBaddr r = baddr := by
  rw [crowd, List.mem_toFinset, List.mem_map]
  refine exists_congr fun r => ?_
  rw [List.mem_filter, decide_eq_true_eq, and_assoc]

theorem crowd_append (i : Fin g.nsets) (pre : List Addr) (r : Addr) : crowd g i (pre ++ [r]) =
    if g.cacheSet r = i then insert (g.cacheBaddr r) (crowd g i pre) else crowd g i pre := by
  ext baddr
  rw [mem_crowd]
  split
  · rename_i hr
    rw [Finset.mem_insert, mem_crowd]
    constructor
    · rintro ⟨r', hr', hset, hbaddr⟩
      -- An address of the longer list is an old one, or it is the one appended.
      rcases List.mem_append.mp hr' with hr' | hr'
      · exact .inr ⟨r', hr', hset, hbaddr⟩
      · rw [List.mem_singleton] at hr'
        exact .inl (by rw [← hbaddr, hr'])
    · rintro (rfl | ⟨r', hr', h⟩)
      · exact ⟨r, List.mem_append_right pre (List.mem_singleton_self r), hr, rfl⟩
      · exact ⟨r', List.mem_append_left _ hr', h⟩
  · rename_i hr
    rw [mem_crowd]
    refine exists_congr fun r' => and_congr_left fun h => ?_
    rw [List.mem_append, List.mem_singleton]
    exact or_iff_left fun heq => hr (heq ▸ h.1)

/-- A block that was requested before. -/
theorem crowd_append_of_mem (i : Fin g.nsets) {pre : List Addr} {r r₀ : Addr} (hr₀ : r₀ ∈ pre)
    (hblock : g.cacheBaddr r₀ = g.cacheBaddr r) : crowd g i (pre ++ [r]) = crowd g i pre := by
  rw [crowd_append]
  split
  · rename_i hset
    refine Finset.insert_eq_of_mem (mem_crowd.mpr ⟨r₀, hr₀, ?_, hblock⟩)
    exact (g.cacheSet_congr hblock).trans hset
  · rfl

theorem crowd_mono (i : Fin g.nsets) (pre : List Addr) (r : Addr) :
    crowd g i pre ⊆ crowd g i (pre ++ [r]) := by
  rw [crowd_append]
  split
  · exact Finset.subset_insert _ _
  · exact Finset.Subset.refl _

theorem card_crowd_le (i : Fin g.nsets) (requests : List Addr) :
    (crowd g i requests).card ≤ requests.length := by
  refine (List.toFinset_card_le _).trans ?_
  rw [List.length_map]
  exact List.length_filter_le _ _

theorem unlessResident_length_le (res : Addr → Bool) (baddr : Addr) :
    (unlessResident res baddr).length ≤ 1 := by
  rw [unlessResident]
  split
  · exact Nat.zero_le 1
  · exact Nat.le_refl 1

theorem unlessResident_new (res : Addr → Bool) (x : Addr) :
    ∀ r ∈ unlessResident res (g.requestAddr x), (∃ x, r = g.requestAddr x) ∧ res r = false := by
  rw [unlessResident]
  split
  · exact List.forall_mem_nil _
  · rename_i hres
    intro r hr
    rw [List.mem_singleton.mp hr]
    exact ⟨⟨x, rfl⟩, Bool.eq_false_iff.mpr hres⟩

/-- Only blocks that are not in the cache are requested. -/
theorem predictions_new (g : Geometry) (res : Addr → Bool) (PC addr : Addr) (t : Tables) :
    ∀ r ∈ (predictions g res PC addr t).2, (∃ x, r = g.requestAddr x) ∧ res r = false := by
  unfold predictions
  split
  · exact List.forall_mem_nil _
  · exact unlessResident_new res _
  · exact openEndedCall_requests_new g res _ addr _
  · dsimp only
    split
    · exact unlessResident_new res _
    · exact List.forall_mem_nil _

/-- Only the delta correlation prefetcher requests more than one block, and it
    requests three at most. -/
theorem predictions_length_le (g : Geometry) (res : Addr → Bool) (PC addr : Addr) (t : Tables) :
    (predictions g res PC addr t).2.length ≤ if g.prefetchType = 2 then 3 else 1 := by
  unfold predictions
  split
  · exact Nat.zero_le _
  · rename_i htype
    rw [htype]
    exact unlessResident_length_le res _
  · rename_i htype
    rw [htype]
    exact openEndedCall_length_le g res _ addr _
  · rename_i htype
    rw [if_neg htype]
    dsimp only
    split
    · exact unlessResident_length_le res _
    · exact Nat.zero_le 1

/-! ### Room behind a block -/

/-- Blocks of a set hold those of its requested addresses. -/
def FrontHolds (c : State g) (i : Fin g.nsets) (front : List (Fin g.assoc)) (pre : List Addr) :
    Prop := ∀ r ∈ pre, g.cacheSet r = i → ∃ b ∈ front, Holds c (i, b) r

/-- In the order of its set, a block has the requested ones in front of it,
    and behind it what they have left of the room. -/
def Room (c : State g) (p : BlkPtr g) (room : Nat) (pre : List Addr) (l : List (Fin g.assoc)) :
    Prop := ∃ front back, l = front ++ p.2 :: back ∧
  back.length + (crowd g p.1 pre).card = room ∧ FrontHolds c p.1 front pre

section Room

variable {c c' : State g} {s s' : Sys g σ} {ord ord' : Order g} {p q : BlkPtr g}
  {i : Fin g.nsets} {front front' l : List (Fin g.assoc)} {room : Nat} {pre : List Addr}
  {r r₀ : Addr}

theorem FrontHolds.append (h : FrontHolds c i front pre) (hmem : ∀ b ∈ front, b ∈ front')
    (hheld : ∀ b ∈ front, ∀ a, Holds c (i, b) a → Holds c' (i, b) a)
    (hr : g.cacheSet r = i → ∃ b ∈ front', Holds c' (i, b) r) :
    FrontHolds c' i front' (pre ++ [r]) := by
  intro a ha hset
  rcases List.mem_append.mp ha with ha | ha
  · rcases h a ha hset with ⟨b, hb, hholds⟩
    exact ⟨b, hmem b hb, hheld b hb a hholds⟩
  · rw [List.mem_singleton] at ha
    subst ha
    exact hr hset

/-- A block that was requested before is in front. -/
theorem FrontHolds.requested (hfits : g.Fits) (h : FrontHolds c i front pre) (hr₀ : r₀ ∈ pre)
    (hblock : g.cacheBaddr r₀ = g.cacheBaddr r) (hset : g.cacheSet r = i) :
    ∃ b ∈ front, Holds c (i, b) r := by
  rcases h r₀ hr₀ ((g.cacheSet_congr hblock).trans hset) with ⟨b, hb, hholds⟩
  exact ⟨b, hb, hholds.of_baddr hfits hblock⟩

/-- A block that is not there was not requested before. -/
theorem Room.notMem_crowd (hfits : g.Fits) (h : Room c p room pre l)
    (hmiss : ∀ b, ¬ Holds c (g.cacheSet r, b) r) (hset : g.cacheSet r = p.1) :
    g.cacheBaddr r ∉ crowd g p.1 pre := by
  intro hmem
  rcases mem_crowd.mp hmem with ⟨r', hr', -, hblock⟩
  rcases h with ⟨front, back, -, -, hfront⟩
  rcases hfront.requested hfits hr' hblock hset with ⟨b, -, hholds⟩
  refine hmiss b ?_
  rw [hset]
  exact hholds

/-- A hit on a block that was requested before moves only blocks in front. -/
theorem Room.hit (hfits : g.Fits) (h : Room s.cache p room pre (ord p.1)) (hc : Inv s.cache ord)
    (hq : Holds s.cache q r) (ht : Touched s.cache s'.cache ord ord' .Read q) (hr₀ : r₀ ∈ pre)
    (hblock : g.cacheBaddr r₀ = g.cacheBaddr r) :
    Room s'.cache p room (pre ++ [r]) (ord' p.1) := by
  rcases h with ⟨front, back, hord, hroom, hfront⟩
  have hholds : ∀ b a, Holds s.cache (p.1, b) a → Holds s'.cache (p.1, b) a := fun b a =>
    ht.holds_iff.mpr
  have happend : ∀ {front'}, (∀ b ∈ front, b ∈ front') →
      FrontHolds s'.cache p.1 front' (pre ++ [r]) := by
    intro front' hmem
    refine hfront.append hmem (fun b _ => hholds b) fun hset => ?_
    rcases hfront.requested hfits hr₀ hblock hset with ⟨b, hb, hheld⟩
    exact ⟨b, hmem b hb, hholds b r hheld⟩
  rw [← crowd_append_of_mem p.1 hr₀ hblock] at hroom
  -- Under LRU the hit moves its block to the front of the set. That block is in front
  -- already, so what is behind stays, and so does the room.
  by_cases hmoved : g.policy = .LRU ∧ q.1 = p.1
  · have hb : q.2 ∈ front := by
      rcases hfront.requested hfits hr₀ hblock (hq.2.1.symm.trans hmoved.2) with
        ⟨b, hb, hheld⟩
      rw [hq.unique hc hheld]
      exact hb
    refine ⟨q.2 :: front.erase q.2, back, ?_, hroom, happend fun b hb' => ?_⟩
    · rw [ht.order, if_pos hmoved.1, ← hmoved.2, toFront_self, hmoved.2, hord, toFront_of_mem hb]
    · by_cases heq : b = q.2
      · rw [heq]
        exact List.mem_cons_self
      · exact List.mem_cons_of_mem _ ((List.mem_erase_of_ne heq).mpr hb')
  · -- Another policy or another set: the order is the old one.
    refine ⟨front, back, ?_, hroom, happend fun _ hb => hb⟩
    rw [ht.order, ← hord]
    split
    · rename_i hlru
      exact toFront_of_ne ord q fun heq => hmoved ⟨hlru, heq.symm⟩
    · rfl

/-- A miss that replaces a block behind it puts that block in front. -/
theorem Room.miss (hfits : g.Fits) (h : Room s.cache p room pre (ord p.1))
    (hc : Inv s.cache ord) (hpolicy : g.policy ≠ .Random)
    (hmiss : ∀ b, ¬ Holds s.cache (g.cacheSet r, b) r) (hne : p ≠ q)
    (hreplaced : Replaced s s' ord ord' .Read r true q) :
    Room s'.cache p room (pre ++ [r]) (ord' p.1) := by
  have hnot := h.notMem_crowd hfits hmiss
  rcases h with ⟨front, back, hord, hroom, hfront⟩
  have horder := hreplaced.order
  rw [if_neg hpolicy] at horder
  by_cases hset : q.1 = p.1
  · -- The victim is the last block, behind this one, and moves to the front.
    have hlast := hreplaced.victim hpolicy
    have hnodup := (hc.rep p.1).linked.nodup
    have hway : q.2 ≠ p.2 := fun heq => hne (Prod.ext hset heq).symm
    have hrset : g.cacheSet r = p.1 := hreplaced.set.symm.trans hset
    rw [hset, hord] at hlast
    rw [hord] at hnodup
    rcases last_toFront hnodup hlast hway with ⟨back', rfl, hmoved⟩
    refine ⟨q.2 :: front, back', ?_, ?_, ?_⟩
    · rw [horder, ← hset, toFront_self, hset, hord, hmoved]
    · rw [crowd_append, if_pos hrset, Finset.card_insert_of_notMem (hnot hrset)]
      rw [List.length_append, List.length_singleton] at hroom
      omega
    · refine hfront.append (fun b hb => List.mem_cons_of_mem _ hb) (fun b hb a => ?_) fun _ => ?_
      · have hbq : (p.1, b) ≠ q := by
          rintro rfl
          have hfar := (List.nodup_append.mp hnodup).2.2 b hb b
          exact hfar (List.mem_cons_of_mem _
            (List.mem_append_right back' (List.mem_singleton_self b))) rfl
        exact (holds_congr (hreplaced.others hbq)).mpr
      · refine ⟨q.2, List.mem_cons_self, ?_⟩
        rw [← hset]
        exact hreplaced.holds
  · -- The request is to another set.
    have hrset : g.cacheSet r ≠ p.1 := fun heq => hset (hreplaced.set.trans heq)
    refine ⟨front, back, ?_, ?_, ?_⟩
    · rw [horder, toFront_of_ne ord q (Ne.symm hset), hord]
    · rwa [crowd_append, if_neg hrset]
    · -- The set has the blocks it had, and the request counts for another one.
      refine hfront.append (fun b hb => hb) (fun b _ a => ?_) fun heq => absurd heq hrset
      have hbq : (p.1, b) ≠ q := fun heq => hset (congrArg Prod.fst heq).symm
      exact (holds_congr (hreplaced.others hbq)).mpr

/-- A miss replaces the block itself only when there is no room left. -/
theorem Room.displaced (hfits : g.Fits) (h : Room s.cache p room pre (ord p.1))
    (hc : Inv s.cache ord) (hpolicy : g.policy ≠ .Random)
    (hmiss : ∀ b, ¬ Holds s.cache (g.cacheSet r, b) r)
    (hreplaced : Replaced s s' ord ord' .Read r true p) :
    room < (crowd g p.1 (pre ++ [r])).card := by
  have hset : g.cacheSet r = p.1 := hreplaced.set.symm
  rw [crowd_append, if_pos hset, Finset.card_insert_of_notMem (h.notMem_crowd hfits hmiss hset)]
  rcases h with ⟨front, back, hord, hroom, -⟩
  have hlast := hreplaced.victim hpolicy
  have hnodup := (hc.rep p.1).linked.nodup
  rw [hord] at hlast hnodup
  -- The victim is the last block. When that is this one, nothing is behind it.
  rw [back_eq_nil hnodup hlast, List.length_nil, Nat.zero_add] at hroom
  omega

end Room

/-! ### The requests of a prefetcher -/

/-- A block is held at its place since a state with room behind it, through
    requests for blocks that were not there. -/
structure Kept (c₀ : State g) (p : BlkPtr g) (addr : Addr) (room : Nat) (pre : List Addr)
    (c : State g) (ord : Order g) : Prop where
  inv : Inv c ord
  holds : Holds c p addr
  ready : (c.blk p).ready = (c₀.blk p).ready
  old : ∀ q r, Holds c q r →
    (∃ b, Holds c₀ (g.cacheSet r, b) r) ∨ ∃ r' ∈ pre, g.cacheBaddr r' = g.cacheBaddr r
  ways : g.policy ≠ .Random → Room c p room pre (ord p.1)

/-- A block was replaced by one that was requested. -/
structure Displaced (s s' : Sys g σ) (p : BlkPtr g) (r : Addr) (ready : Tick) : Prop where
  inv : ∃ ord, Inv s'.cache ord
  blk : Holds s'.cache p r
  others : ∀ q ≠ p, (s'.cache.blk q).valid = (s.cache.blk q).valid ∧
    (s'.cache.blk q).tag = (s.cache.blk q).tag
  ready : (s'.cache.blk p).ready = ready

section Kept

variable {c₀ : State g} {p : BlkPtr g} {addr r : Addr} {room : Nat} {pre : List Addr}
  {s s' : Sys g σ} {ord ord' : Order g}

theorem Kept.start {c : State g} {front back : List (Fin g.assoc)} (hc : Inv c ord)
    (hp : Holds c p addr) (hord : ord p.1 = front ++ p.2 :: back)
    (hroom : g.policy ≠ .Random → back.length = room) : Kept c p addr room [] c ord where
  inv := hc
  holds := hp
  ready := rfl
  old q r hq := .inl ⟨q.2, by rw [← hq.2.1]; exact hq⟩
  ways hpolicy := ⟨front, back, hord, hroom hpolicy, fun _ hr => absurd hr List.not_mem_nil⟩

/-- Behind the first block of a set are all others. -/
theorem Kept.first {c : State g} (hc : Inv c ord) (hp : Holds c p addr)
    (hfirst : (ord p.1).head? = some p.2) : Kept c p addr (g.assoc - 1) [] c ord := by
  rcases hord : ord p.1 with _ | ⟨b, back⟩
  · rw [hord] at hfirst
    exact absurd hfirst nofun
  rw [hord, List.head?_cons, Option.some.injEq] at hfirst
  have hlength := length_order hc p.1
  rw [hord, List.length_cons] at hlength
  have hsplit : ord p.1 = [] ++ p.2 :: back := by
    rw [hord, hfirst]
    rfl
  exact .start hc hp hsplit fun _ => Nat.eq_sub_of_add_eq hlength

/-- A request for a block that is there has been made before. -/
theorem Kept.requested {c : State g} (h : Kept c₀ p addr room pre c ord)
    (hr : ∀ b, ¬ Holds c₀ (g.cacheSet r, b) r) {q : BlkPtr g} (hq : Holds c q r) :
    ∃ r' ∈ pre, g.cacheBaddr r' = g.cacheBaddr r :=
  (h.old q r hq).resolve_left fun hb => hb.elim hr

/-- As long as it is kept, there was room. -/
theorem Kept.card_le {c : State g} (h : Kept c₀ p addr room pre c ord)
    (hpolicy : g.policy ≠ .Random) : (crowd g p.1 pre).card ≤ room := by
  rcases h.ways hpolicy with ⟨front, back, -, hroom, -⟩
  omega

theorem Kept.hit (hfits : g.Fits) (h : Kept c₀ p addr room pre s.cache ord)
    (hr : ∀ b, ¬ Holds c₀ (g.cacheSet r, b) r) (hinv : Inv s'.cache ord') {q : BlkPtr g}
    (hq : Holds s.cache q r) (ht : Touched s.cache s'.cache ord ord' .Read q)
    (hready : ∀ q, (s'.cache.blk q).ready = (s.cache.blk q).ready) :
    Kept c₀ p addr room (pre ++ [r]) s'.cache ord' := by
  rcases h.requested hr hq with ⟨r₀, hr₀, hblock⟩
  refine ⟨hinv, ht.holds_iff.mpr h.holds, (hready p).trans h.ready, fun x a hx => ?_,
    fun hpolicy => (h.ways hpolicy).hit hfits h.inv hq ht hr₀ hblock⟩
  refine (h.old x a (ht.holds_iff.mp hx)).imp_right fun ha => ?_
  exact ha.imp fun r' hr' => ⟨List.mem_append_left _ hr'.1, hr'.2⟩

theorem Kept.displaced (hfits : g.Fits) (h : Kept c₀ p addr room pre s.cache ord)
    (hrandom : g.policy = .Random → room = 0)
    (hmiss : ∀ b, ¬ Holds s.cache (g.cacheSet r, b) r)
    (hreplaced : Replaced s s' ord ord' .Read r true p) :
    room < (crowd g p.1 (pre ++ [r])).card := by
  -- The room is none with random replacement, where any request may displace the block.
  by_cases hpolicy : g.policy = .Random
  · rw [hrandom hpolicy, crowd_append, if_pos hreplaced.set.symm]
    exact Finset.card_pos.mpr (Finset.insert_nonempty _ _)
  · exact (h.ways hpolicy).displaced hfits h.inv hpolicy hmiss hreplaced

theorem Kept.miss (hfits : g.Fits) (h : Kept c₀ p addr room pre s.cache ord)
    (hmiss : ∀ b, ¬ Holds s.cache (g.cacheSet r, b) r) (hinv : Inv s'.cache ord')
    {v : BlkPtr g} (hne : p ≠ v) (hreplaced : Replaced s s' ord ord' .Read r true v)
    (hready : (s'.cache.blk p).ready = (s.cache.blk p).ready) :
    Kept c₀ p addr room (pre ++ [r]) s'.cache ord' := by
  have hothers : ∀ {q a}, q ≠ v → (Holds s'.cache q a ↔ Holds s.cache q a) := fun hq =>
    holds_congr (hreplaced.others hq)
  refine ⟨hinv, (hothers hne).mpr h.holds, hready.trans h.ready, fun q a hq => ?_,
    fun hpolicy => (h.ways hpolicy).miss hfits h.inv hpolicy hmiss hne hreplaced⟩
  by_cases hqv : q = v
  · subst hqv
    have hlast := List.mem_append_right pre (List.mem_singleton_self r)
    exact .inr ⟨r, hlast, hreplaced.holds.baddr_eq hfits hq⟩
  · refine (h.old q a ((hothers hqv).mp hq)).imp_right fun ha => ?_
    exact ha.imp fun r' hr' => ⟨List.mem_append_left _ hr'.1, hr'.2⟩

/-- A request keeps the block, or displaces it when there are more blocks than
    there is room. -/
theorem Kept.serve {out : Outside σ} (hfits : g.Fits)
    (h : Kept c₀ p addr room pre s.cache ord) (hrandom : g.policy = .Random → room = 0)
    (hr : ∀ b, ¬ Holds c₀ (g.cacheSet r, b) r) (now : Tick) :
    Ends (Expected g) (Cache.serve out .Read r now true s) fun x =>
      (x.1 = .hit none → Expected g (.nullBlock r)) ∧ (x.1 ≠ .hit none →
        (∃ ord', Kept c₀ p addr room (pre ++ [r]) x.2.cache ord') ∨
          (room < (crowd g p.1 (pre ++ [r])).card ∧
            ∃ lat, x.1 = .miss lat ∧ Displaced s x.2 p r (now + ticks lat))) := by
  refine ((serve_ends h.inv .Read r now true).meet (serve_waits h.inv .Read r now true)
    fun _ he _ => he).mono fun x hx => ?_
  rcases x with ⟨answer, s'⟩
  rcases hx with ⟨⟨ord', hinv, hserved⟩, hwaits⟩
  cases hserved with
  -- A miss fills one place, and what matters is whether it is the one of the block.
  | miss lat v hmiss hreplaced =>
      refine ⟨nofun, fun _ => ?_⟩
      have hready := hwaits v .Read r true _ (by rw [hreplaced.log, List.head?_cons]) p
      by_cases hpv : p = v
      · subst hpv
        rw [if_pos rfl] at hready
        refine .inr ⟨h.displaced hfits hrandom hmiss hreplaced, lat, rfl, ?_⟩
        exact ⟨⟨ord', hinv⟩, hreplaced.holds, fun q hq => hreplaced.others hq, hready⟩
      · rw [if_neg hpv] at hready
        exact .inl ⟨ord', h.miss hfits hmiss hinv hpv hreplaced hready⟩
  | hit q hq ht hlog =>
      refine ⟨fun heq => absurd (Answer.hit.inj heq) (Option.some_ne_none q), fun _ => .inl ?_⟩
      exact ⟨ord', h.hit hfits hr hinv (hq.holds hfits) ht hwaits⟩
  | null hzero => exact ⟨fun _ => hzero, fun hne => absurd rfl hne⟩

/-- A block that was displaced is nowhere else. -/
theorem Displaced.gone {t : Tick} (hfits : g.Fits) (h : Displaced s s' p r t)
    (hkept : Kept c₀ p addr room pre s.cache ord) (hne : g.cacheBaddr addr ≠ g.cacheBaddr r)
    (q : BlkPtr g) : ¬ Holds s'.cache q addr := by
  intro hq
  -- The place it had holds the request now, and no other place held it before.
  by_cases hqp : q = p
  · subst hqp
    exact hne (hq.baddr_eq hfits h.blk)
  · have hbefore := (holds_congr (h.others q hqp)).mp hq
    exact hqp (hbefore.unique hkept.inv hkept.holds)

/-- The requests of a prefetcher are reads at time zero. -/
theorem request_rule {out : Outside σ} {Q : Sys g σ → Prop}
    (hserve : Ends (Expected g) (Cache.serve out .Read r 0 true s) fun x =>
      (x.1 = .hit none → Expected g (.nullBlock r)) ∧ (x.1 ≠ .hit none → Q x.2)) :
    Ends (Expected g) (request out s r) Q := by
  refine (?_ : Ends _ (cacheAccess out pure .Read r _ 0 true s) fun x => Q x.2).bind
    fun _ hx => .ret hx
  refine (checkAccess_ends (fun _ _ => trivial) r _).bind fun _ _ => hserve.bind fun x hx => ?_
  rcases x with ⟨lat | _ | q, s'⟩
  · exact .ret (hx.2 nofun)
  · -- A set without blocks answers with the null pointer, which is a fault.
    exact .fail (hx.1 rfl)
  · exact .ret (hx.2 fun heq => Option.some_ne_none q (Answer.hit.inj heq))

/-- The block is kept, or it is displaced by one of the requests, and what is
    true from then on is true in the end. As long as it is kept, more may be
    true of the requests. -/
theorem requests_crowd {out : Outside σ} {requests : List Addr} {K : List Addr → Prop}
    {Q : Sys g σ → Prop} (hfits : g.Fits) (h : Kept c₀ p addr room [] s.cache ord)
    (hrandom : g.policy = .Random → room = 0)
    (hnew : ∀ r ∈ requests, ∀ b, ¬ Holds c₀ (g.cacheSet r, b) r) (hK : K [])
    (hkeeps : ∀ s answer s' r pre ord ord', r ∈ requests →
      Cache.serve out .Read r 0 true s = .ok (answer, s') → answer ≠ .hit none → K pre →
      Kept c₀ p addr room pre s.cache ord → Kept c₀ p addr room (pre ++ [r]) s'.cache ord' →
      K (pre ++ [r]))
    (hgone : ∀ s lat s' r pre ord, r ∈ requests →
      Cache.serve out .Read r 0 true s = .ok (.miss lat, s') →
      Kept c₀ p addr room pre s.cache ord → Displaced s s' p r (ticks lat) → Q s')
    (hstays : ∀ s, ∀ r ∈ requests, Q s → Ends (Expected g) (request out s r) Q) :
    Ends (Expected g) (requests.foldlM (request out) s) fun s' =>
      (K requests ∧ ∃ ord', Kept c₀ p addr room requests s'.cache ord') ∨
        (room < (crowd g p.1 requests).card ∧ Q s') := by
  refine Ends.foldlM (fun pre (s' : Sys g σ) =>
    (K pre ∧ ∃ ord', Kept c₀ p addr room pre s'.cache ord') ∨
      (room < (crowd g p.1 pre).card ∧ Q s'))
    requests (.inl ⟨hK, ord, h⟩) fun pre r s' hpre hs' => ?_
  have hr : r ∈ requests := hpre.subset (List.mem_append_right pre (List.mem_singleton_self r))
  rcases hs' with ⟨hpre, ord', hkept⟩ | ⟨hlt, hs'⟩
  · -- So far it was kept, and this request decides again.
    refine request_rule (((hkept.serve hfits hrandom (hnew r hr) 0).and_of_ok fun _ hx => hx).mono
      fun x hx => ⟨hx.1.1, fun hne => ?_⟩)
    rcases x with ⟨answer, s''⟩
    rcases hx with ⟨hx, hserve⟩
    rcases hx.2 hne with ⟨ord'', hkept'⟩ | ⟨hlt, lat, rfl, hd⟩
    · have hmore := hkeeps s' answer s'' r pre ord' ord'' hr hserve hne hpre hkept hkept'
      exact .inl ⟨hmore, ord'', hkept'⟩
    · rw [zero_add] at hd
      exact .inr ⟨hlt, hgone s' lat s'' r pre ord' hr hserve hkept hd⟩
  · -- Once displaced it is gone, and further requests only add to the crowd.
    refine (hstays s' r hr hs').mono fun s'' hs'' => .inr ⟨?_, hs''⟩
    exact hlt.trans_le (Finset.card_le_card (crowd_mono p.1 pre r))

end Kept

end Cache

end MicroArch
