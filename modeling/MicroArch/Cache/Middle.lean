import MicroArch.Cache.Interference
import MicroArch.Cache.WellFormed

/-!
# Reads of Two Addresses

Accesses that are certain to be served. With a next level that always answers,
an access ends without a fault, unless it is to the first block of memory and
no block was the last one to hit.

A cache that is read at a few addresses holds them and nothing else, as long as
no two of them are in one set with different tags. Then no read replaces the
block of another one, and what its prefetcher makes of a read depends on the
addresses and the tables alone. The address in the middle of memory and one
near it are such a pair. In most caches the two are in one block. A cache whose
sets do not fit into the memory has a set for every block, and there they are
a quarter of the memory apart: the tags of two addresses in one block would be
different ones. In both cases the address at the same distance on the other
side of the middle is in a block of its own.

## Main definitions

* `middle`, `near`: The two addresses.
* `Apart`: Addresses of which none replaces another.
* `held`: The cache holds an address, when it holds these.
* `Only`: A cache holds these addresses and nothing else.
* `Inert`: An outside that always answers and does not change.
* `ReadServed`, `ReadEffect`: What a read does, up to the call of its
  prefetcher and with it.

## Theorems

* `apart_near`: The two addresses are apart.
* `held_across`: The address on the other side is not held.
* `serve_recognized`: Which accesses are answered by a block.
* `serve_total`, `requests_total`: With such an outside there are no faults.
* `read_total`: A read has its effect.
-/

namespace MicroArch

namespace Cache

variable {g : Geometry}

/-! ### The two addresses -/

/-- The address in the middle of memory. -/
def middle : Addr := 2147483648

/-- An address near it. It is two bytes away, or a quarter of the memory. -/
def Geometry.near (g : Geometry) : Addr := if g.Fits then 2147483650 else 1073741824

theorem near_eq (g : Geometry) : g.near = 2147483650 ∨ g.near = 1073741824 := by
  unfold Geometry.near
  split
  · exact .inl rfl
  · exact .inr rfl

/-- No two of the addresses are in one set with different tags. -/
def Apart (g : Geometry) (l : List Addr) : Prop :=
  ∀ a ∈ l, ∀ b ∈ l, g.cacheSet a = g.cacheSet b → g.cacheTag a = g.cacheTag b

/-- An address with the tag and the set of one in the list. -/
def held (g : Geometry) (l : List Addr) (addr : Addr) : Bool :=
  l.any fun a => g.cacheTag a = g.cacheTag addr ∧ g.cacheSet a = g.cacheSet addr

theorem held_iff {l : List Addr} {addr : Addr} : held g l addr ↔
    ∃ a ∈ l, g.cacheTag a = g.cacheTag addr ∧ g.cacheSet a = g.cacheSet addr := by
  unfold held
  rw [List.any_eq_true]
  exact exists_congr fun a => and_congr_right fun _ => decide_eq_true_iff

theorem held_of_mem {l : List Addr} {addr : Addr} (h : addr ∈ l) : held g l addr :=
  held_iff.mpr ⟨addr, h, rfl, rfl⟩

/-- What is requested for an address is held if the address is. -/
theorem held_requestAddr (l : List Addr) (addr : Addr) :
    held g l (g.requestAddr addr) = held g l addr := by
  unfold held
  rw [(g.requestAddr_parts addr).1, (g.requestAddr_parts addr).2]

theorem apart_of_forall_eq {l : List Addr} {addr : Addr} (h : ∀ a ∈ l, a = addr) : Apart g l := by
  intro a ha b hb _
  rw [h a ha, h b hb]

theorem bsize_dvd_quarter (g : Geometry) : g.bsize ∣ 1073741824 := by
  have hshift := g.setShift_lt
  rw [← g.two_pow_setShift]
  exact Nat.pow_dvd_pow 2 (show g.setShift ≤ 30 by omega)

/-- The number of a block that begins at a multiple of a quarter of the memory. -/
theorem blockNumber_quarter (g : Geometry) (n : Nat) :
    n * 1073741824 / g.bsize = n * (1073741824 / g.bsize) ∧ 0 < 1073741824 / g.bsize :=
  ⟨Nat.mul_div_assoc n (bsize_dvd_quarter g), Nat.div_pos g.bsize_le_quarter g.bsize_pos⟩

theorem blockNumber_middle (g : Geometry) :
    g.blockNumber middle = 2 * (1073741824 / g.bsize) := (blockNumber_quarter g 2).1

/-- The first bytes of the block in the middle. -/
theorem cacheBaddr_near (hfits : g.Fits) : g.cacheBaddr g.near = g.cacheBaddr middle := by
  have hle := g.bsize_le
  have hmul : 2 * (1073741824 / g.bsize) * g.bsize = 2147483648 := by
    rw [← (blockNumber_quarter g 2).1]
    exact Nat.div_mul_cancel ((bsize_dvd_quarter g).mul_left 2)
  unfold Geometry.near
  rw [if_pos hfits, g.cacheBaddr_eq_iff_blockNumber, blockNumber_middle]
  refine (Nat.div_eq_iff g.bsize_pos).mpr ?_
  change _ ≤ 2147483650 ∧ 2147483650 ≤ _
  omega

/-- The two addresses are apart. -/
theorem apart_near {l : List Addr} (h : ∀ a ∈ l, a = middle ∨ a = g.near) : Apart g l := by
  by_cases hfits : g.Fits
  · -- They are in one block.
    have hblock : ∀ a ∈ l, g.cacheBaddr a = g.cacheBaddr middle := by
      intro a ha
      rcases h a ha with rfl | rfl
      · rfl
      · exact cacheBaddr_near hfits
    intro a ha b hb _
    exact ((g.cacheBaddr_eq_iff hfits a b).mp ((hblock a ha).trans (hblock b hb).symm)).1
  · -- They are in two sets.
    have hne : g.cacheSet middle ≠ g.cacheSet g.near := by
      have hquarter := blockNumber_quarter g 1
      rw [ne_eq, g.cacheSet_eq_iff hfits, blockNumber_middle, Geometry.near, if_neg hfits]
      change ¬ _ = 1 * 1073741824 / g.bsize
      omega
    intro a ha b hb hset
    rcases h a ha with rfl | rfl <;> rcases h b hb with rfl | rfl
    · rfl
    · exact absurd hset hne
    · exact absurd hset.symm hne
    · rfl

/-- The address on the other side of the middle is not held. -/
theorem held_across {l : List Addr} (h : ∀ a ∈ l, a = middle ∨ a = g.near) :
    held g l (-g.near) = false := by
  rw [Bool.eq_false_iff, ne_eq, held_iff]
  rintro ⟨a, ha, htag, hset⟩
  by_cases hfits : g.Fits
  · -- It is in front of the block in the middle.
    have hblock : g.cacheBaddr (-g.near) = g.cacheBaddr middle := by
      rw [← (g.cacheBaddr_eq_iff hfits _ _).mpr ⟨htag, hset⟩]
      rcases h a ha with rfl | rfl
      · rfl
      · exact cacheBaddr_near hfits
    have hquarter := blockNumber_quarter g 2
    rw [g.cacheBaddr_eq_iff_blockNumber, blockNumber_middle, Geometry.near, if_pos hfits] at hblock
    have hle : 2147483648 ≤ 2147483646 := by
      have hmul := Nat.div_mul_le_self 2147483646 g.bsize
      change 2147483646 / g.bsize = _ at hblock
      rwa [hblock, ← hquarter.1, Nat.div_mul_cancel ((bsize_dvd_quarter g).mul_left 2)] at hmul
    omega
  · -- It is three quarters of the memory away.
    have hquarter := blockNumber_quarter g 1
    have hacross : g.blockNumber (-g.near) = 3 * (1073741824 / g.bsize) := by
      rw [Geometry.near, if_neg hfits]
      exact (blockNumber_quarter g 3).1
    have hnear : g.blockNumber g.near = 1 * (1073741824 / g.bsize) := by
      rw [Geometry.near, if_neg hfits]
      exact hquarter.1
    rw [g.cacheSet_eq_iff hfits, hacross] at hset
    rcases h a ha with rfl | rfl
    · rw [blockNumber_middle] at hset
      omega
    · rw [hnear] at hset
      omega

theorem cacheBaddr_ne_zero {addr : Addr} (h : g.bsize ≤ addr.toNat) : g.cacheBaddr addr ≠ 0 := by
  intro hzero
  have hnat := congrArg BitVec.toNat hzero
  rw [g.toNat_cacheBaddr] at hnat
  have hnumber : 0 < g.blockNumber addr := Nat.div_pos h g.bsize_pos
  exact absurd hnat (Nat.mul_pos hnumber g.bsize_pos).ne'

/-- A block address is a multiple of the block size. -/
theorem checkAccess_block (g : Geometry) (addr : Addr) :
    checkAccess g (g.cacheBaddr addr) (BitVec.ofNat 32 g.bsize) = .ok () := by
  have hle := g.bsize_le
  have hlt := g.bsize_lt
  have hmask : BitVec.ofNat 32 g.bsize - 1 = g.blkMask := by
    unfold Geometry.blkMask
    apply BitVec.eq_of_toNat_eq
    rw [BitVec.toNat_sub, BitVec.toNat_ofNat, BitVec.toNat_ofNat]
    change (2 ^ 32 - 1 + g.bsize % 2 ^ 32) % 2 ^ 32 = (g.bsize - 1) % 2 ^ 32
    omega
  have hpow : BitVec.ofNat 32 g.bsize &&& g.blkMask = 0 := by
    apply BitVec.eq_of_toNat_eq
    rw [Geometry.blkMask, BitVec.toNat_and, BitVec.toNat_ofNat, BitVec.toNat_ofNat,
      Nat.mod_eq_of_lt (by omega), Nat.mod_eq_of_lt (by omega)]
    exact g.bsize_pow
  have halign : g.cacheBaddr addr &&& g.blkMask = 0 := by
    unfold Geometry.cacheBaddr
    rw [BitVec.and_assoc, BitVec.and_comm (~~~ _), BitVec.and_not_self]
    exact BitVec.and_zero
  unfold checkAccess
  rw [hmask, hpow, halign, g.cacheBaddr_baddr, if_neg, if_neg]
  · -- A block address with the block size touches no byte outside, and is a multiple of it.
    exact BitVec.lt_irrefl _
  · exact not_or.mpr ⟨not_not.mpr rfl, not_not.mpr rfl⟩

/-- A byte in the first half of memory or at its end is in one block. -/
theorem checkAccess_byte (g : Geometry) {addr : Addr} (h : addr.toNat ≤ 2147483650) :
    checkAccess g addr 1 = .ok () := by
  have hquarter := g.bsize_le_quarter
  have hle : g.blockNumber addr * g.bsize ≤ addr.toNat := Nat.div_mul_le_self _ _
  have hlt : addr.toNat < g.blockNumber addr * g.bsize + g.bsize :=
    Nat.lt_div_mul_add g.bsize_pos
  -- The address is far from the end of memory, so neither sum wraps.
  have hadd : (addr + 1).toNat = addr.toNat + 1 := by
    rw [BitVec.toNat_add]
    exact Nat.mod_eq_of_lt (by change addr.toNat + 1 < 4294967296; omega)
  have hend : (g.cacheBaddr addr + BitVec.ofNat 32 g.bsize).toNat
      = g.blockNumber addr * g.bsize + g.bsize := by
    rw [BitVec.toNat_add, BitVec.toNat_ofNat, g.toNat_cacheBaddr]
    omega
  unfold checkAccess
  rw [if_neg, if_neg]
  · intro hgt
    have hnat := BitVec.lt_def.mp hgt
    rw [hadd, hend] at hnat
    omega
  · -- One byte is aligned everywhere, as its size less one is zero.
    refine not_or.mpr ⟨by decide, not_not.mpr ?_⟩
    exact BitVec.and_zero

/-- An address in the second quarter of memory, or at the beginning of the
    third. It can be read, and is not in the first block. -/
structure Readable (addr : Addr) : Prop where
  quarter_le : 1073741824 ≤ addr.toNat
  le_middle : addr.toNat ≤ 2147483650

theorem readable_middle : Readable middle := ⟨by decide, by decide⟩

theorem readable_near (g : Geometry) : Readable g.near := by
  rcases near_eq g with h | h
  · rw [h]
    exact ⟨by decide, by decide⟩
  · rw [h]
    exact ⟨by decide, by decide⟩

theorem Readable.check {addr : Addr} (h : Readable addr) (g : Geometry) :
    checkAccess g addr 1 = .ok () := checkAccess_byte g h.le_middle

theorem Readable.cacheBaddr_ne_zero {addr : Addr} (h : Readable addr) (g : Geometry) :
    g.cacheBaddr addr ≠ 0 :=
  Cache.cacheBaddr_ne_zero (g.bsize_le_quarter.trans h.quarter_le)

/-! ### A cache that holds these addresses -/

section Only

variable {σ ω : Type} {c : State g} {l : List Addr}

/-- The cache holds these addresses, and nothing else. -/
structure Only (c : State g) (l : List Addr) : Prop where
  each : ∀ p, (c.blk p).valid → ∃ a ∈ l, Holds c p a
  all : ∀ a ∈ l, ∃ p, Holds c p a

/-- Where none replaces another, a block holds every address that is recognized
    as one of its own. -/
theorem Covers.holds_of_apart (honly : Only c l) {addr : Addr} (hapart : Apart g (addr :: l))
    {p : BlkPtr g} (hp : Covers c p addr) : Holds c p addr := by
  rcases honly.each p hp.valid_set.1 with ⟨a, ha, hheld⟩
  have hset : g.cacheSet a = g.cacheSet addr := hheld.2.1.symm.trans hp.valid_set.2
  have htag := hapart a (List.mem_cons_of_mem _ ha) addr List.mem_cons_self hset
  exact ⟨hheld.1, hp.valid_set.2, hheld.2.2.trans htag⟩

/-- A read adds its address to those that the cache holds. -/
theorem Served.only {s s' : Sys g σ} {ord ord' : Order g} {cmd : Cmd} {addr : Addr}
    {prefetch : Bool} {answer : Answer g} (h : Served s s' ord ord' cmd addr prefetch answer)
    (honly : Only s.cache l) (hapart : Apart g (addr :: l)) (hne : g.cacheBaddr addr ≠ 0) :
    Only s'.cache (addr :: l) := by
  cases h with
  | miss lat p hmiss hreplaced =>
      -- The block that is replaced held none of the addresses.
      have hother : ∀ a ∈ l, ∀ q, Holds s.cache q a → q ≠ p := by
        rintro a ha q hq rfl
        have hset : g.cacheSet a = g.cacheSet addr := hq.2.1.symm.trans hreplaced.set
        have htag := hapart a (List.mem_cons_of_mem _ ha) addr List.mem_cons_self hset
        refine hmiss q.2 ⟨?_, rfl, ?_⟩
        · rw [← hreplaced.set]
          exact hq.1
        · rw [← hreplaced.set]
          exact hq.2.2.trans htag
      have hkept : ∀ a q, q ≠ p → Holds s.cache q a → Holds s'.cache q a := by
        intro a q hne hq
        rw [Holds, (hreplaced.others hne).1, (hreplaced.others hne).2]
        exact hq
      refine ⟨fun q hq => ?_, List.forall_mem_cons.mpr ⟨⟨p, hreplaced.holds⟩, fun a ha => ?_⟩⟩
      · by_cases hqp : q = p
        · rw [hqp]
          exact ⟨addr, List.mem_cons_self, hreplaced.holds⟩
        · rcases honly.each q ((hreplaced.others hqp).1.symm.trans hq) with ⟨a, ha, hheld⟩
          exact ⟨a, List.mem_cons_of_mem _ ha, hkept a q hqp hheld⟩
      · rcases honly.all a ha with ⟨q, hq⟩
        exact ⟨q, hkept a q (hother a ha q hq) hq⟩
  | hit p hp htouched hlog =>
      have haddr := (hp.holds_of_apart honly hapart).touched htouched
      -- A hit brings nothing in and leaves each block with its tag.
      refine ⟨fun q hq => ?_, List.forall_mem_cons.mpr ⟨⟨p, haddr⟩, fun a ha => ?_⟩⟩
      · rcases honly.each q ((htouched.valid q).symm.trans hq) with ⟨a, ha, hheld⟩
        exact ⟨a, List.mem_cons_of_mem _ ha, hheld.touched htouched⟩
      · rcases honly.all a ha with ⟨q, hq⟩
        exact ⟨q, hq.touched htouched⟩
  | null h => exact absurd h hne

theorem resident_of_only (honly : Only c l) : c.resident = held g l := by
  funext addr
  rw [Bool.eq_iff_iff, resident_iff, held_iff]
  constructor
  · -- A valid block holds one of the addresses, which then has the tag and the set asked for.
    rintro ⟨b, hb⟩
    rcases honly.each _ hb.1 with ⟨a, ha, hheld⟩
    exact ⟨a, ha, hheld.2.2.symm.trans hb.2.2, hheld.2.1.symm⟩
  · rintro ⟨a, ha, htag, hset⟩
    rcases honly.all a ha with ⟨p, hp⟩
    have hpset : p.1 = g.cacheSet addr := hp.2.1.trans hset
    refine ⟨p.2, ?_⟩
    rw [← hpset]
    exact ⟨hp.1, hpset, hp.2.2.trans htag⟩

/-- The next level always answers, and nothing outside changes. -/
structure Inert (out : Outside σ) : Prop where
  call : ∀ cmd baddr size now prefetch x,
    ∃ lat, out.blkAccess cmd baddr size now prefetch x = .ok (lat, x)
  draw : ∀ x, (out.myrand x).2 = x

/-- The faults of an access that is not ended in the next level. -/
def Steady (addr : Addr) : Fault → Prop
  | .fatal _ _ => False
  | .outside _ => False
  | .nullBlock a => a = addr
  | .nullPointer => True
  | .assertion _ => True
  | .endless => True

theorem Inert.keeps {out : Outside σ} (h : Inert out) (addr : Addr) (x : σ) :
    Keeps (Steady addr) out fun x' => x' = x where
  nullPointer := trivial
  assertion _ := trivial
  endless := trivial
  call cmd baddr size now prefetch x' r hx hr := by
    rcases h.call cmd baddr size now prefetch x' with ⟨lat, hlat⟩
    cases hlat.symm.trans hr
    exact hx
  refuse cmd baddr size now prefetch x' _ _ hr := by
    rcases h.call cmd baddr size now prefetch x' with ⟨lat, hlat⟩
    cases hlat.symm.trans hr
  draw x' hx := (h.draw x').trans hx

/-- An access is answered by no block only if it is to the first block of
    memory, and no block was the last one to hit. -/
theorem serve_recognized {out : Outside σ} {s : Sys g σ} {ord : Order g} (hc : Inv s.cache ord)
    {addr : Addr} (hnull : ¬ (g.cacheBaddr addr = 0 ∧ s.cache.lastBlk = none)) (cmd : Cmd)
    (now : Tick) (prefetch : Bool) :
    Ends (fun f => ∀ a, f ≠ .nullBlock a) (serve out cmd addr now prefetch s) fun r =>
      r.1 ≠ .hit none := by
  -- None of the faults of the routines behind the lookup is the null block, so this is about
  -- the path that the lookup takes.
  have hin : Internal fun f => ∀ a, f ≠ .nullBlock a :=
    ⟨fun _ => Fault.noConfusion, fun _ _ => Fault.noConfusion, fun _ => Fault.noConfusion⟩
  have hout : Keeps (fun f => ∀ a, f ≠ .nullBlock a) out fun _ => True :=
    { hin with
      call := fun _ _ _ _ _ _ _ _ _ => trivial
      refuse := fun _ _ _ _ _ _ _ _ _ _ => Fault.noConfusion
      draw := fun _ _ => trivial }
  rcases lookup_eq hc addr with ⟨path, hlookup, hfinds⟩
  rw [serve, hlookup]
  cases hfinds with
  | miss h =>
      exact (fill_frame hout cmd addr now prefetch _ trivial).bind fun _ _ =>
        .ret (by simp only [ne_eq, reduceCtorEq, not_false_eq_true])
  | hit p hp =>
      exact (touch_internal hin ..).bind fun _ _ => .ret fun heq =>
        Option.some_ne_none p (Answer.hit.inj heq)
  | fastHit p hlast hp => exact .ret fun heq => Option.some_ne_none p (Answer.hit.inj heq)
  | null hlast h => exact absurd ⟨h, hlast⟩ hnull

/-- With such a next level, an access is served unless it is answered by no
    block. -/
theorem serve_total {out : Outside σ} (hout : Inert out) {s : Sys g σ} {ord : Order g}
    (hc : Inv s.cache ord) {addr : Addr}
    (hnull : ¬ (g.cacheBaddr addr = 0 ∧ s.cache.lastBlk = none)) (cmd : Cmd) (now : Tick)
    (prefetch : Bool) : Ends (fun _ => False) (serve out cmd addr now prefetch s) fun r =>
      (∃ ord', Inv r.2.cache ord' ∧ Served s r.2 ord ord' cmd addr prefetch r.1) ∧
        Frame (fun x => x = s.env.shared) s.env r.2.env ∧ r.1 ≠ .hit none := by
  have hframe := serve_frame (hout.keeps addr s.env.shared) cmd rfl now prefetch rfl
  have hrecognized := hframe.meet (serve_recognized hc hnull cmd now prefetch)
    fun f hsteady hnot => And.intro hsteady hnot
  refine (serve_ends hc cmd addr now prefetch).meet hrecognized fun f hexpected hf => ?_
  -- The expected faults are ruled out one by one: the checks do not fail, the next level does
  -- not refuse, and some block answers.
  cases f with
  | fatal text a => exact hf.1
  | outside fault => exact hf.1
  | nullBlock a => exact hf.2 a rfl
  | nullPointer => exact hexpected
  | assertion name => exact hexpected
  | endless => exact hexpected

/-- An access that passes its checks has no faults if its parts have none. -/
theorem cacheAccess_total {out : Outside σ} {generate : Sys g σ → Except Fault (Sys g σ)}
    {P Q : Sys g σ → Prop} {cmd : Cmd} {addr : Addr} {nbytes : BitVec 32} {now : Tick}
    {prefetch : Bool} {s : Sys g σ} (hcheck : checkAccess g addr nbytes = .ok ())
    (hserve : Ends (fun _ => False) (serve out cmd addr now prefetch s) fun r =>
      P r.2 ∧ r.1 ≠ .hit none)
    (hafter : ∀ s, P s → Ends (fun _ => False) (afterwards generate prefetch s) Q) :
    Ends (fun _ => False) (cacheAccess out generate cmd addr nbytes now prefetch s) fun r =>
      Q r.2 := by
  unfold cacheAccess
  rw [hcheck]
  refine hserve.bind fun r hr => (hafter r.2 hr.1).bind fun s' hs' => ?_
  exact (latency_ends addr now s'.cache fun h => hr.2 h).bind fun _ _ => .ret hs'

/-- The address of a block that is not the first one. -/
def LaterBlock (g : Geometry) (baddr : Addr) : Prop :=
  ∃ addr, baddr = g.cacheBaddr addr ∧ g.cacheBaddr addr ≠ 0

/-- A prefetch, unless it is answered by no block. -/
theorem request_total {out : Outside σ} (hout : Inert out) {s : Sys g σ} {ord : Order g}
    (hc : Inv s.cache ord) {addr : Addr}
    (hnull : ¬ (g.cacheBaddr addr = 0 ∧ s.cache.lastBlk = none)) :
    Ends (fun _ => False) (request out s (g.cacheBaddr addr)) fun s' =>
      (∃ ord, Inv s'.cache ord) ∧ Frame (fun x => x = s.env.shared) s.env s'.env := by
  let P (s' : Sys g σ) : Prop :=
    (∃ ord, Inv s'.cache ord) ∧ Frame (fun x => x = s.env.shared) s.env s'.env
  refine Ends.bind (P := fun r => P r.2) ?_ fun r hr => .ret hr
  refine cacheAccess_total (checkAccess_block g addr) ?_ fun s' hs' => .ret hs'
  rw [← g.cacheBaddr_baddr] at hnull
  refine (serve_total hout hc hnull .Read 0 true).mono fun r hr => ?_
  rcases hr with ⟨⟨ord', hc', -⟩, hframe, hanswer⟩
  exact ⟨⟨⟨ord', hc'⟩, hframe⟩, hanswer⟩

theorem requests_total {out : Outside σ} (hout : Inert out) {requests : List Addr}
    (hrequests : ∀ baddr ∈ requests, LaterBlock g baddr)
    {s : Sys g σ} (hs : ∃ ord, Inv s.cache ord) :
    Ends (fun _ => False) (requests.foldlM (request out) s) fun s' =>
      Frame (fun x => x = s.env.shared) s.env s'.env := by
  refine (Ends.foldlM (fun _ (s' : Sys g σ) => (∃ ord, Inv s'.cache ord) ∧
    Frame (fun x => x = s.env.shared) s.env s'.env) requests ⟨hs, .refl rfl⟩ ?_).mono
    -- The next level is inert, so the world is the same before every request.
    fun _ hs' => hs'.2
  intro pre baddr s' hpre hs'
  rcases hs' with ⟨⟨ord, hc⟩, hs'⟩
  rcases hrequests baddr (hpre.subset (List.mem_append_right pre List.mem_cons_self)) with
    ⟨addr, rfl, hne⟩
  refine (request_total hout hc fun h => hne h.1).mono fun s'' hs'' => ⟨hs''.1, hs'.trans ?_⟩
  rw [← hs'.1]
  exact hs''.2

/-- What a call of the prefetcher after a read depends on, when the cache holds
    these addresses. -/
def ownRead (g : Geometry) (l : List Addr) (PC addr : Addr) : Own :=
  { PC := PC, addr := addr, probe := fun x => .ok (held g l x) }

/-- What a read does, with the call of its prefetcher. -/
structure ReadEffect (l : List Addr) (PC addr : Addr) (r : Tables × List Addr)
    (s s' : Sys g (Tables × ω)) : Prop where
  shared : s'.env.shared = (r.1, s.env.shared.2)
  calls : callsOf s'.env.log =
    { toOwn := ownRead g l PC addr, rows := s.tables.RPT.rows, requests := .ok r.2 } ::
      callsOf s.env.log
  ready : r.2 = [] → (∃ ord, Inv s'.cache ord) ∧ Only s'.cache l

/-- The state in which the prefetcher is called, when the read is served. -/
structure ReadServed (l : List Addr) (s s' : Sys g (Tables × ω)) : Prop where
  wellFormed : ∃ ord, Inv s'.cache ord
  only : Only s'.cache l
  frame : Frame (fun x => x = s.env.shared) s.env s'.env

theorem ReadServed.tables {s s' : Sys g (Tables × ω)} (h : ReadServed l s s') :
    s'.tables = s.tables := congrArg Prod.fst h.frame.1

theorem ReadServed.probe {s s' : Sys g (Tables × ω)} (h : ReadServed l s s') :
    s'.cache.probe = fun a => .ok (held g l a) := by
  rcases h.wellFormed with ⟨ord, hc⟩
  rw [probe_eq hc, resident_of_only h.only]

theorem ReadServed.predictions {s s' : Sys g (Tables × ω)} (h : ReadServed l s s')
    (PC addr : Addr) : generatePrefetch g s'.cache.probe PC addr s'.tables =
      .ok (predictions g (held g l) PC addr s.tables) := by
  rcases h.wellFormed with ⟨ord, hc⟩
  rw [generatePrefetch_probe hc, resident_of_only h.only, h.tables]

/-- The call of the prefetcher, before its requests are carried out. -/
theorem ReadServed.predicted {s s' : Sys g (Tables × ω)} (h : ReadServed l s s') {PC addr : Addr}
    {r : Tables × List Addr}
    (hpredict : generatePrefetch g s'.cache.probe PC addr s'.tables = .ok r) :
    ReadEffect l PC addr r s (s'.predicted PC addr r.1) where
  shared := congrArg (fun x => (r.1, x.2)) h.frame.1
  calls := by
    rw [ownRead, ← callsOf_congr h.frame.2, ← h.tables, ← h.probe]
    exact congrArg (fun requests => { PC := PC, addr := addr, probe := s'.cache.probe
                                      rows := s'.tables.RPT.rows
                                      requests := requests } :: callsOf s'.env.log)
      (congrArg (Except.map Prod.snd) hpredict)
  ready _ := ⟨h.wellFormed, h.only⟩

theorem ReadServed.generate {out : Outside (Tables × ω)} (hout : Inert out)
    {s s' : Sys g (Tables × ω)} (h : ReadServed l s s') {PC addr : Addr} {r : Tables × List Addr}
    (hpredict : generatePrefetch g s'.cache.probe PC addr s'.tables = .ok r)
    (hrequests : ∀ baddr ∈ r.2, LaterBlock g baddr) :
    Ends (fun _ => False) (generate out PC addr s') (ReadEffect l PC addr r s) := by
  have heffect := h.predicted hpredict
  have hwellFormed : ∃ ord, Inv (s'.predicted PC addr r.1).cache ord := h.wellFormed
  unfold Cache.generate
  rw [hpredict]
  change Ends _ (r.2.foldlM (request out) (s'.predicted PC addr r.1)) _
  -- Without requests the cache is the one that the read has left.
  by_cases hnone : r.2 = []
  · rw [hnone]
    exact .ret heffect
  · refine (requests_total hout hrequests hwellFormed).mono fun s'' hs'' => ?_
    exact ⟨hs''.1.trans heffect.shared, (callsOf_congr hs''.2).trans heffect.calls,
      fun h => absurd h hnone⟩

/-- A read has no faults, and its effect. -/
theorem read_total {out : Outside (Tables × ω)} (hout : Inert out) {s : Sys g (Tables × ω)}
    (hs : ∃ ord, Inv s.cache ord) (honly : Only s.cache l) (PC : Addr) {addr : Addr}
    (haddr : Readable addr) (hapart : Apart g (addr :: l))
    (hrequests : ∀ baddr ∈ (predictions g (held g (addr :: l)) PC addr s.tables).2,
      LaterBlock g baddr) :
    Ends (fun _ => False) (step out s (.demand PC .Read addr 1 0))
      (ReadEffect (addr :: l) PC addr (predictions g (held g (addr :: l)) PC addr s.tables) s) := by
  rcases hs with ⟨ord, hc⟩
  have hne := haddr.cacheBaddr_ne_zero g
  have hserve : Ends (fun _ => False) (serve out .Read addr 0 false s) fun x =>
      ReadServed (addr :: l) s x.2 ∧ x.1 ≠ .hit none := by
    refine (serve_total hout hc (fun h => hne h.1) .Read 0 false).mono fun x hx => ?_
    rcases hx with ⟨⟨ord', hc', hserved⟩, hframe, hanswer⟩
    exact ⟨⟨⟨ord', hc'⟩, hserved.only honly hapart hne, hframe⟩, hanswer⟩
  exact (cacheAccess_total (haddr.check g) hserve fun s' hs' =>
    hs'.generate hout (hs'.predictions PC addr) hrequests).bind fun x hx => .ret hx

end Only

/-- What is requested for the address on the other side of the middle is a block,
    and not the first one. -/
theorem laterBlock_across (g : Geometry) : LaterBlock g (g.requestAddr (-g.near)) := by
  refine ⟨-g.near, ?_, ?_⟩
  · by_cases hfits : g.Fits
    · exact requestAddr_eq hfits _
    · -- It is a multiple of a quarter of the memory, and of the block size.
      have hle := g.tagShift_mod_le hfits
      have hshift := g.setShift_lt
      have hbaddr : g.cacheBaddr (-g.near) = -g.near := by
        apply BitVec.eq_of_toNat_eq
        rw [g.toNat_cacheBaddr, Geometry.near, if_neg hfits]
        exact Nat.div_mul_cancel ((bsize_dvd_quarter g).mul_left 3)
      rw [hbaddr]
      apply BitVec.eq_of_getLsbD_eq
      intro i _
      rw [g.getLsbD_requestAddr hfits, Geometry.near, if_neg hfits]
      by_cases hi : i < 30
      · have hzero : ∀ j < 30, (-1073741824 : Addr).getLsbD j = false := by decide
        rw [hzero i hi, Bool.and_false]
      · rw [decide_eq_true (show g.tagShift % 32 ≤ i by omega), Bool.true_and]
  · -- Neither of the two addresses has its negation in the first block.
    refine cacheBaddr_ne_zero (g.bsize_le_quarter.trans ?_)
    rcases near_eq g with h | h
    · rw [h]
      decide
    · rw [h]
      decide

end Cache

end MicroArch
