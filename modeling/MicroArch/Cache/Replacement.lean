import MicroArch.Cache.Residency
import MicroArch.Library.Replacement

/-!
# Replacement

With LRU and FIFO replacement a cache behaves like a list of tags for each of
its sets. The list is computed from the log alone: from which addresses were
accessed and flushed, not from how they were found. It tells for every entry
of the log whether it must be a hit or a miss, and which block a miss replaces.

A fast hit does not look at the tag of its block. It compares the block address
with that of the last hit, which tells the tag where the sets fit into the
memory. In a larger cache two addresses of one block may have two tags, and an
access may hit without its tag in the list.

The way list of a set holds all its blocks, valid or not. What ties it to the
list of tags is that the valid blocks are in front of the others, so that a
block is replaced only in a set that is full.

## Main definitions

* `tagLists`: The lists of tags after a log.
* `AsPredicted`: The log is what the lists predict.
* `Refines`: The way lists represent lists of tags.

## Theorems

* `Refines.touched`, `Refines.replaced`: Accesses.
* `run_refines_list`: The log of every run of a cache that fits into the memory
  is as predicted.
* `hit_unlisted`: A hit in a cache that does not.
-/

namespace MicroArch

namespace Cache

open Replacement

variable {g : Geometry} {σ ω : Type}

/-- A list of tags for each set. -/
abbrev TagLists (g : Geometry) := Fin g.nsets → List Addr

/-- The lists after an access. -/
def accessTag (l : TagLists g) (addr : Addr) : TagLists g :=
  Function.update l (g.cacheSet addr)
    (access (g.policy = .LRU) g.assoc (g.cacheTag addr) (l (g.cacheSet addr)))

/-- The lists after a log, the latest entry first. -/
def tagLists : List (Event g) → TagLists g
  | [] => fun _ => []
  | .hit _ _ addr _ :: log => accessTag (tagLists log) addr
  | .fill _ _ addr _ _ :: log => accessTag (tagLists log) addr
  | .flush :: _ => fun _ => []
  | .flushAddr addr :: log =>
      Function.update (tagLists log) (g.cacheSet addr)
        ((tagLists log (g.cacheSet addr)).erase (g.cacheTag addr))
  | _ :: log => tagLists log

/-- Every hit is on a tag of the list, every miss on another one, and a miss
    replaces the block of the tag that the list drops. -/
def AsPredicted : List (Event g) → Prop
  | [] => True
  | .hit _ _ addr _ :: log =>
      g.cacheTag addr ∈ tagLists log (g.cacheSet addr) ∧ AsPredicted log
  | .fill _ _ addr _ replaced :: log =>
      g.cacheTag addr ∉ tagLists log (g.cacheSet addr) ∧
      replaced = (victim g.assoc (tagLists log (g.cacheSet addr))).map
        (fun tag => g.cacheMkBaddr tag (BitVec.ofNat 32 (g.cacheSet addr).val)) ∧
      AsPredicted log
  | _ :: log => AsPredicted log

/-- In every set the valid blocks come first and have the tags of the list. -/
def Refines (c : State g) (ord : Order g) (l : TagLists g) : Prop :=
  ∀ i, Front (fun b => (c.blk (i, b)).valid) (fun b => (c.blk (i, b)).tag) (ord i) (l i)

section Refines

variable {c c' : State g} {ord ord' : Order g} {l : TagLists g} {p : BlkPtr g} {addr : Addr}

theorem length_order (hc : Inv c ord) (i : Fin g.nsets) : (ord i).length = g.assoc := by
  have hset := hc.rep i
  have hle := hset.linked.nodup.length_le_card
  have hge := ((List.nodup_finRange g.assoc).subperm fun b _ => hset.complete b).length_le
  rw [Fintype.card_fin] at hle
  rw [List.length_finRange] at hge
  exact Nat.le_antisymm hle hge

theorem Refines.mem_iff (h : Refines c ord l) (hc : Inv c ord) (i : Fin g.nsets) (tag : Addr) :
    tag ∈ l i ↔ ∃ b, (c.blk (i, b)).valid ∧ (c.blk (i, b)).tag = tag := by
  rw [(h i).mem_keys]
  exact ⟨fun hb => hb.imp fun b hb => hb.2,
    fun hb => hb.imp fun b hb => ⟨(hc.rep i).complete b, hb⟩⟩

/-- Two valid blocks of a set with one tag are the same. -/
theorem Inv.unique (hc : Inv c ord) {i : Fin g.nsets} {a b : Fin g.assoc}
    (ha : (c.blk (i, a)).valid) (hb : (c.blk (i, b)).valid)
    (htag : (c.blk (i, a)).tag = (c.blk (i, b)).tag) : a = b :=
  (hc.rep i).unique a b trivial trivial ha hb htag

theorem toFront_self (ord : Order g) (p : BlkPtr g) :
    toFront ord p p.1 = p.2 :: (ord p.1).erase p.2 :=
  Function.update_self _ _ _

theorem toFront_of_ne (ord : Order g) (p : BlkPtr g) {i : Fin g.nsets} (hne : i ≠ p.1) :
    toFront ord p i = ord i :=
  Function.update_of_ne hne _ _

theorem Refines.touched {cmd : Cmd} (h : Refines c ord l) (hc : Inv c ord) (hp : Holds c p addr)
    (ht : Touched c c' ord ord' cmd p) : Refines c' ord' (accessTag l addr) := by
  have hin : g.cacheTag addr ∈ l (g.cacheSet addr) :=
    (h.mem_iff hc _ _).mpr ⟨p.2, by rw [← hp.2.1]; exact ⟨hp.1, hp.2.2⟩⟩
  intro i
  have hsame : ∀ {ord₁ : List (Fin g.assoc)} {l₁ : List Addr},
      Front (fun b => (c.blk (i, b)).valid) (fun b => (c.blk (i, b)).tag) ord₁ l₁ →
      Front (fun b => (c'.blk (i, b)).valid) (fun b => (c'.blk (i, b)).tag) ord₁ l₁ :=
    fun hf => hf.congr (fun b _ => by rw [ht.valid]) fun b _ _ => ht.tag (i, b)
  apply hsame
  rw [ht.order, accessTag, access, if_pos hin]
  -- Under LRU the tag moves to the front of its list as the block does in the order. With FIFO
  -- neither moves.
  by_cases hi : i = p.1
  · subst hi
    rw [← hp.2.1, Function.update_self]
    by_cases hpolicy : g.policy = .LRU
    · rw [if_pos hpolicy, toFront_self, decide_eq_true hpolicy, ← hp.2.2]
      exact (h p.1).touch hp.1 ((hc.rep p.1).complete p.2) fun b hb htag => hc.unique hb hp.1 htag
    · rw [if_neg hpolicy, decide_eq_false hpolicy]
      exact h p.1
  · rw [Function.update_of_ne (by rwa [← hp.2.1])]
    split
    · rw [toFront_of_ne ord p hi]
      exact h i
    · exact h i

/-- The end of a residency does not concern the lists. -/
theorem tagLists_departure (c : State g) (p : BlkPtr g) (log : List (Event g)) :
    tagLists (departure c p ++ log) = tagLists log ∧
      (AsPredicted (departure c p ++ log) ↔ AsPredicted log) := by
  rw [departure]
  split
  · split
    · exact ⟨rfl, Iff.rfl⟩
    · exact ⟨rfl, Iff.rfl⟩
  · exact ⟨rfl, Iff.rfl⟩

theorem tagLists_emptied {s s' : Sys g σ} (h : Emptied s s') :
    tagLists s'.env.log = tagLists s.env.log ∧
      (AsPredicted s'.env.log ↔ AsPredicted s.env.log) := by
  induction h with
  | refl => exact ⟨rfl, Iff.rfl⟩
  | tail _ hstep ih =>
      rcases hstep with ⟨p, hp⟩
      rw [hp.log, (tagLists_departure _ _ _).1, (tagLists_departure _ _ _).2]
      exact ih

theorem Refines.replaced {s s' : Sys g σ} {cmd : Cmd} {prefetch : Bool}
    (hpolicy : g.policy ≠ .Random) (h : Refines s.cache ord (tagLists s.env.log))
    (hc : Inv s.cache ord) (hmiss : ∀ b, ¬ Holds s.cache (g.cacheSet addr, b) addr)
    (hr : Replaced s s' ord ord' cmd addr prefetch p) (hlog : AsPredicted s.env.log) :
    Refines s'.cache ord' (tagLists s'.env.log) ∧ AsPredicted s'.env.log := by
  have hdeparture := tagLists_departure s.cache p s.env.log
  have hnot : g.cacheTag addr ∉ tagLists s.env.log p.1 := by
    intro hin
    rcases (h.mem_iff hc _ _).mp hin with ⟨b, hb⟩
    rw [hr.set] at hb
    exact hmiss b ⟨hb.1, rfl, hb.2⟩
  -- The victim is the last block of its set, so its tag is the one that the list drops.
  have hlast := hr.victim hpolicy
  have hvictim := (h p.1).victim hlast
  rw [length_order hc] at hvictim
  rw [hr.log]
  constructor
  · change Refines s'.cache ord' (accessTag (tagLists (departure s.cache p ++ s.env.log)) addr)
    rw [hdeparture.1, hr.order, if_neg hpolicy, accessTag, ← hr.set, access, if_neg hnot]
    intro i
    by_cases hi : i = p.1
    · -- The set of the miss.
      subst hi
      have htag := hr.tag p
      rw [if_pos rfl] at htag
      have hocc : ∀ b, (s'.cache.blk (p.1, b)).valid ↔ b = p.2 ∨ (s.cache.blk (p.1, b)).valid := by
        intro b
        rw [hr.valid_iff]
        exact or_congr_left ⟨fun heq => congrArg Prod.snd heq, fun heq => by rw [heq]⟩
      have hkey : ∀ b ≠ p.2, (s'.cache.blk (p.1, b)).tag = (s.cache.blk (p.1, b)).tag := by
        intro b hne
        rw [hr.tag, if_neg fun heq => hne (congrArg Prod.snd heq)]
      have hinsert : Front (fun b => (s'.cache.blk (p.1, b)).valid)
          (fun b => (s'.cache.blk (p.1, b)).tag) _ _ :=
        (h p.1).insert (hc.rep p.1).linked.nodup hlast hocc hkey
      rw [length_order hc] at hinsert
      rw [toFront_self, Function.update_self, ← htag]
      exact hinsert
    · -- The other sets are as they were.
      rw [toFront_of_ne ord p hi, Function.update_of_ne hi]
      have hne : ∀ b, (i, b) ≠ p := fun b heq => hi (congrArg Prod.fst heq)
      refine (h i).congr (fun b _ => ?_) fun b _ _ => ?_
      · rw [hr.valid_iff]
        exact ⟨fun hor => hor.resolve_left (hne b), Or.inr⟩
      · exact (hr.tag (i, b)).trans (if_neg (hne b))
  · change g.cacheTag addr ∉ tagLists (departure s.cache p ++ s.env.log) (g.cacheSet addr) ∧
      _ = (victim g.assoc (tagLists (departure s.cache p ++ s.env.log) (g.cacheSet addr))).map _ ∧
      AsPredicted (departure s.cache p ++ s.env.log)
    rw [hdeparture.1, hdeparture.2, ← hr.set]
    refine ⟨hnot, ?_, hlog⟩
    by_cases hvalid : (s.cache.blk p).valid
    · rw [if_pos hvalid, hvictim.1 hvalid]
      rfl
    · rw [if_neg hvalid, hvictim.2 hvalid]
      rfl

theorem Refines.cleared (hinvalid : ∀ p, ¬ (c.blk p).valid) :
    Refines c ord fun _ => [] :=
  fun i => ⟨[], ord i, rfl, fun _ hb => absurd hb List.not_mem_nil, fun b _ => hinvalid (i, b), rfl⟩

theorem Refines.flushedAddr {s s' : Sys g σ} (h : Refines s.cache ord (tagLists s.env.log))
    (hc : Inv s.cache ord) (hf : FlushedAddr s s' ord ord' addr) (hlog : AsPredicted s.env.log) :
    Refines s'.cache ord' (tagLists s'.env.log) ∧ AsPredicted s'.env.log := by
  cases hf with
  | miss hmiss hcache hord hlog' =>
      have hnot : g.cacheTag addr ∉ tagLists s.env.log (g.cacheSet addr) := by
        intro hin
        rcases (h.mem_iff hc _ _).mp hin with ⟨b, hb⟩
        exact hmiss b ⟨hb.1, rfl, hb.2⟩
      rw [hlog', hcache, hord]
      refine ⟨?_, hlog⟩
      rw [tagLists, List.erase_of_not_mem hnot, Function.update_eq_self]
      exact h
  | hit p hp hi hord =>
      have hdeparture := tagLists_departure s.cache p (.flushAddr addr :: s.env.log)
      have hlog' : s'.env.log = departure s.cache p ++ .flushAddr addr :: s.env.log := hi.log
      rw [hlog', hdeparture.1, hdeparture.2, hord]
      refine ⟨fun i => ?_, hlog⟩
      rw [tagLists, ← hp.2.1, toBack]
      have hkeep : ∀ b, (s'.cache.blk (i, b)).tag = (s.cache.blk (i, b)).tag := fun b => hi.tag _
      by_cases heq : i = p.1
      · subst heq
        rw [Function.update_self, Function.update_self, ← hp.2.2]
        have hocc : ∀ b, (s'.cache.blk (p.1, b)).valid
            ↔ (s.cache.blk (p.1, b)).valid ∧ b ≠ p.2 := by
          intro b
          rw [hi.valid_iff]
          exact and_congr_right fun _ =>
            ⟨fun hne heq => hne (by rw [heq]), fun hne heq => hne (congrArg Prod.snd heq)⟩
        have hremove : Front (fun b => (s'.cache.blk (p.1, b)).valid) _ _ _ :=
          (h p.1).remove (hc.rep p.1).linked.nodup hp.1 ((hc.rep p.1).complete p.2)
            (fun b hb htag => hc.unique hb hp.1 htag) hocc
        exact hremove.congr (fun b _ => Iff.rfl) fun b _ _ => hkeep b
      · rw [Function.update_of_ne heq, Function.update_of_ne heq]
        refine (h i).congr (fun b _ => ?_) fun b _ _ => hkeep b
        rw [hi.valid_iff]
        exact ⟨fun hb => hb.1, fun hb => ⟨hb, fun hb' => heq (congrArg Prod.fst hb')⟩⟩

end Refines

/-- Every operation keeps the lists. -/
theorem effectInvariant_refines (hpolicy : g.policy ≠ .Random) (hfits : g.Fits) :
    EffectInvariant fun (ord : Order g) (s : Sys g (Tables × ω)) =>
      Refines s.cache ord (tagLists s.env.log) ∧ AsPredicted s.env.log where
  served := by
    intro s s' ord ord' cmd addr prefetch answer hc hs hserved
    rcases hs with ⟨href, hlog⟩
    cases hserved with
    | miss lat p hmiss hreplaced => exact href.replaced hpolicy hc hmiss hreplaced hlog
    | hit p hp htouched hlog' =>
        have hheld := hp.holds hfits
        -- The tag of a hit is in the list, since its block is valid.
        rw [hlog']
        refine ⟨href.touched hc hheld htouched, ?_, hlog⟩
        exact (href.mem_iff hc _ _).mpr ⟨p.2, by rw [← hheld.2.1]; exact ⟨hheld.1, hheld.2.2⟩⟩
    | null hzero hsets hord hwb hlog' =>
        rw [hlog', hord]
        refine ⟨fun i => (href i).congr (fun b _ => ?_) fun b _ _ => ?_, hlog⟩
        · rw [blk_congr hsets]
        · exact congrArg Blk.tag (blk_congr hsets (i, b))
  predicted _ _ _ hs := hs
  flushed := by
    intro s s' ord hs hemptied hinvalid
    rw [(tagLists_emptied hemptied).1, (tagLists_emptied hemptied).2]
    exact ⟨Refines.cleared hinvalid, hs.2⟩
  flushedAddr := by
    intro s s' ord ord' addr hc hs hflushed
    exact hs.1.flushedAddr hc hflushed hs.2

/-- No block of a new cache is valid. -/
theorem refines_create (g : Geometry) :
    Refines (cacheCreate g) (createdOrder g) (tagLists []) := by
  refine Refines.cleared fun p => ?_
  rw [Blk.valid_of_status (status_create p)]
  exact Bool.false_ne_true

/-- With LRU and FIFO replacement and sets that fit into the memory, every
    entry of the log is as predicted. The list of a set has at most as many
    tags as the set has blocks, all of them different, and they are the tags of
    the valid blocks. The block that is next to be replaced is valid only in a
    set without invalid blocks. -/
theorem run_refines_list (g : Geometry) (hpolicy : g.policy ≠ .Random) (hfits : g.Fits)
    (out : Outside (Tables × ω)) (t : Tables) (w : ω) (ops : List Op) :
    Ends (Expected g) (run g out t w ops) fun s => AsPredicted s.env.log ∧
      (∀ i, (tagLists s.env.log i).Nodup ∧ (tagLists s.env.log i).length ≤ g.assoc ∧
        ∀ tag, tag ∈ tagLists s.env.log i ↔
          ∃ b, (s.cache.blk (i, b)).valid ∧ (s.cache.blk (i, b)).tag = tag) ∧
      ∀ i b, (s.cache.sets i).wayTail = some b → (s.cache.blk (i, b)).valid →
        ∀ b', (s.cache.blk (i, b')).valid := by
  have hinvariant := (effectInvariant_refines hpolicy hfits).runInvariant out
  refine (hinvariant.run ⟨_, Inv.create g, refines_create g, trivial⟩ ops).mono fun s hs => ?_
  rcases hs with ⟨ord, hc, href, hlog⟩
  refine ⟨hlog, fun i => ⟨?_, ?_, href.mem_iff hc i⟩, fun i b htail hb b' => ?_⟩
  · exact (href i).nodup (hc.rep i).linked.nodup fun a b ha hb => hc.unique ha hb
  · rw [← length_order hc i]
    -- The order has each way once, so a list that follows it is no longer than the set.
    exact (href i).length_le
  · have hlast : (ord i).getLast? = some b := (hc.rep i).linked.tail_eq.symm.trans htail
    exact (href i).all_of_last hlast hb b' ((hc.rep i).complete b')

/-- Through misses, prefetches, hits, replacements and both flushes of sets of
    two blocks. -/
theorem run_refines_list_nextLine : ∃ s, run nextLine memory (Tables.initial.create 1) ()
      [.demand 4 .Read 8 1 0, .demand 4 .Write 12 4 0, .demand 4 .Read 40 1 0,
        .demand 4 .Write 8 1 0, .demand 4 .Read 56 1 0, .flushAddr 8 0, .demand 4 .Read 24 1 0,
        .flush 0, .demand 4 .Read 24 1 0] = .ok s ∧
    AsPredicted s.env.log ∧
      (∀ i, (tagLists s.env.log i).Nodup ∧ (tagLists s.env.log i).length ≤ nextLine.assoc ∧
        ∀ tag, tag ∈ tagLists s.env.log i ↔
          ∃ b, (s.cache.blk (i, b)).valid ∧ (s.cache.blk (i, b)).tag = tag) ∧
      ∀ i b, (s.cache.sets i).wayTail = some b → (s.cache.blk (i, b)).valid →
        ∀ b', (s.cache.blk (i, b')).valid := by
  have hends : ∃ s, run nextLine memory (Tables.initial.create 1) ()
      [.demand 4 .Read 8 1 0, .demand 4 .Write 12 4 0, .demand 4 .Read 40 1 0,
        .demand 4 .Write 8 1 0, .demand 4 .Read 56 1 0, .flushAddr 8 0, .demand 4 .Read 24 1 0,
        .flush 0, .demand 4 .Read 24 1 0] = .ok s := ⟨_, rfl⟩
  rcases hends with ⟨s, hrun⟩
  exact ⟨s, hrun, (run_refines_list nextLine (by decide) (by decide) memory _ () _).of_eq hrun⟩

/-- Eight bytes into the second block, two reads, and one eight bytes later: it
    hits the block of the other address, and its own tag is not in the list. -/
theorem hit_unlisted : ¬ Ends (Expected wholeMemory) (run wholeMemory memory .initial ()
    [.demand 4 .Read 1073741832 1 0, .demand 4 .Read 1073741832 1 0,
      .demand 4 .Read 1073741840 1 0]) fun s => AsPredicted s.env.log ∧
      (∀ i, (tagLists s.env.log i).Nodup ∧ (tagLists s.env.log i).length ≤ wholeMemory.assoc ∧
        ∀ tag, tag ∈ tagLists s.env.log i ↔
          ∃ b, (s.cache.blk (i, b)).valid ∧ (s.cache.blk (i, b)).tag = tag) ∧
      ∀ i b, (s.cache.sets i).wayTail = some b → (s.cache.blk (i, b)).valid →
        ∀ b', (s.cache.blk (i, b')).valid := by
  intro h
  have hends : ∃ s p c t log, run wholeMemory memory .initial ()
      [.demand 4 .Read 1073741832 1 0, .demand 4 .Read 1073741832 1 0,
        .demand 4 .Read 1073741840 1 0] = .ok s ∧
      s.env.log = .generate 4 1073741840 c t :: .hit p .Read 1073741840 false :: log ∧
      wholeMemory.cacheTag 1073741840 ∉ tagLists log (wholeMemory.cacheSet 1073741840) :=
    ⟨_, _, _, _, _, rfl, rfl, by decide +kernel⟩
  rcases hends with ⟨s, p, c, t, log, hrun, hlog, hnot⟩
  have hpredicted := (h.of_eq hrun).1
  rw [hlog] at hpredicted
  exact hnot hpredicted.1

end Cache

end MicroArch
