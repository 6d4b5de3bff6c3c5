import MicroArch.Cache.Represent
import MicroArch.Cache.Machine
import MicroArch.Library.Ends

/-!
# The Representation of a Cache

The representation of the sets, and what the pieces of an operation do to it
and to the blocks. A piece that moves pointers keeps the tag and the status of
every block, and everything in the cache but the sets.

`Inv` is what every operation keeps. It has the order of the blocks of each set
as an argument, since the cache has no record of it but the pointers, and
nearly all that an operation does can be said of the order. The last block to
hit is part of it because an access trusts it: a block address that is
recognized is not looked for, so the block has to be a valid one of that
address, or there is none and the recorded address is zero.

Each piece of an operation has one lemma here, with its result where it has
one result and as a rule where it may be stopped.

## Main definitions

* `Rep`: Every set is represented, in some order.
* `LastBlock`: What is known of the last block to hit.
* `Inv`: Both.

## Theorems

* `searchSet_eq`: The search finds the valid block with the tag.
* `selectVictim_ends`, `unlinkHash_eq`, `linkHash_rep`: The pieces of a miss.
* `Inv.create`: The cache as it is created.
-/

namespace MicroArch

namespace Cache

open Pointer

variable {g : Geometry} {σ : Type}

/-- An order of the blocks of every set. -/
abbrev Order (g : Geometry) := Fin g.nsets → List (Fin g.assoc)

/-- The sets are represented in the given order, with the blocks of `S` on
    their chains. -/
def Rep (S : BlkPtr g → Prop) (c : State g) (ord : Order g) : Prop :=
  ∀ i, SetRep g.bucket (fun b => S (i, b)) (c.sets i) (ord i)

/-- The last block to hit, if there is one, is a valid block that holds the
    recorded block of memory, and in LRU order the first one of its set. -/
def LastBlock (c : State g) (ord : Order g) : Prop :=
  match c.lastBlk with
  | none => c.lastTagset = 0
  | some p => (c.blk p).valid ∧ (g.policy = .LRU → (ord p.1).head? = some p.2) ∧
      ∃ addr, g.cacheTagset addr = c.lastTagset ∧ p.1 = g.cacheSet addr ∧
        (c.blk p).tag = g.cacheTag addr

/-- The invariant of a cache. -/
structure Inv (c : State g) (ord : Order g) : Prop where
  rep : Rep (fun _ => True) c ord
  last : LastBlock c ord

/-- The blocks have the same tag, status and ready time in both caches. -/
def SameData (c c' : State g) : Prop := ∀ q, (c'.blk q).data = (c.blk q).data

/-- Only the sets have changed. -/
def SameRest (c c' : State g) : Prop := c' = { c with sets := c'.sets }

namespace State

/-! ### Changing one block -/

theorem modifySet_self (c : State g) (i : Fin g.nsets)
    (f : CacheSet g.assoc g.hsize → CacheSet g.assoc g.hsize) :
    (c.modifySet i f).sets i = f (c.sets i) :=
  Function.update_self _ _ _

theorem modifySet_of_ne (c : State g) {i j : Fin g.nsets}
    (f : CacheSet g.assoc g.hsize → CacheSet g.assoc g.hsize) (hne : j ≠ i) :
    (c.modifySet i f).sets j = c.sets j :=
  Function.update_of_ne hne _ _

theorem blk_modifyBlk_self (c : State g) (p : BlkPtr g) (f : Blk g.assoc → Blk g.assoc) :
    (c.modifyBlk p f).blk p = f (c.blk p) := by
  rw [blk, modifyBlk, modifySet_self, CacheSet.modifyBlk_self]
  rfl

theorem blk_modifyBlk_of_ne (c : State g) {p q : BlkPtr g} (f : Blk g.assoc → Blk g.assoc)
    (hne : q ≠ p) : (c.modifyBlk p f).blk q = c.blk q := by
  rw [blk, modifyBlk]
  by_cases hset : q.1 = p.1
  · have hway : q.2 ≠ p.2 := fun heq => hne (Prod.ext hset heq)
    rw [hset, modifySet_self, CacheSet.modifyBlk_of_ne _ _ hway, ← hset]
    rfl
  · rw [modifySet_of_ne _ _ hset]
    rfl

theorem blk_modifyBlk (c : State g) (p q : BlkPtr g) (f : Blk g.assoc → Blk g.assoc) :
    (c.modifyBlk p f).blk q = if q = p then f (c.blk q) else c.blk q := by
  by_cases heq : q = p
  · subst heq
    rw [if_pos rfl, blk_modifyBlk_self]
  · rw [if_neg heq, blk_modifyBlk_of_ne _ _ heq]

theorem sameRest_modifySet (c : State g) (i : Fin g.nsets)
    (f : CacheSet g.assoc g.hsize → CacheSet g.assoc g.hsize) : SameRest c (c.modifySet i f) := rfl

end State

theorem SameRest.trans {c₁ c₂ c₃ : State g} (h₁ : SameRest c₁ c₂) (h₂ : SameRest c₂ c₃) :
    SameRest c₁ c₃ := by
  rw [SameRest] at h₁ h₂ ⊢
  rw [h₂, h₁]

theorem SameRest.fields {c c' : State g} (h : SameRest c c') :
    c'.writebacks = c.writebacks ∧ c'.lastTagset = c.lastTagset ∧ c'.lastBlk = c.lastBlk := by
  rw [SameRest] at h
  rw [h]
  exact ⟨rfl, rfl, rfl⟩

/-- A set is replaced by one whose blocks have the same data. -/
theorem sameData_modifySet {c : State g} {i : Fin g.nsets} {s : CacheSet g.assoc g.hsize}
    (hdata : ∀ b, (s.blks b).data = ((c.sets i).blks b).data) :
    SameData c (c.modifySet i fun _ => s) := by
  intro q
  rw [State.blk]
  by_cases hset : q.1 = i
  · rw [hset, State.modifySet_self, hdata, ← hset]
    rfl
  · rw [State.modifySet_of_ne _ _ hset]
    rfl

/-- A set is replaced by one that is represented. -/
theorem Rep.modifySet {S S' : BlkPtr g → Prop} {c : State g} {ord : Order g} {i : Fin g.nsets}
    {s : CacheSet g.assoc g.hsize} {l : List (Fin g.assoc)} (hc : Rep S c ord)
    (hs : SetRep g.bucket (fun b => S' (i, b)) s l)
    (hother : ∀ j ≠ i, (fun b => S' (j, b)) = fun b => S (j, b)) :
    Rep S' (c.modifySet i fun _ => s) (Function.update ord i l) := by
  intro j
  -- Only the set at `i` is another one.
  by_cases heq : j = i
  · subst heq
    rw [State.modifySet_self, Function.update_self]
    exact hs
  · rw [State.modifySet_of_ne _ _ heq, Function.update_of_ne heq, hother j heq]
    exact hc j

section Rep

variable {S : BlkPtr g → Prop} {c : State g} {ord : Order g}

/-- A block is moved to an end of its way list. -/
theorem Rep.move (hc : Rep S c ord) (p : BlkPtr g) (loc : CacheSet.ListLoc) :
    ∃ s, (c.sets p.1).updateWayList p.2 loc = .ok s ∧
      Rep S (c.modifySet p.1 fun _ => s)
        (Function.update ord p.1 (CacheSet.placed loc p.2 ((ord p.1).erase p.2))) ∧
      SameData c (c.modifySet p.1 fun _ => s) := by
  rcases (hc p.1).move p.2 loc with ⟨s, heq, hs, hdata⟩
  exact ⟨s, heq, hc.modifySet hs fun _ _ => rfl, sameData_modifySet hdata⟩

/-- A change of the data of a block that keeps its pointers. -/
theorem Rep.modifyBlk (hc : Rep S c ord) (p : BlkPtr g) {f : Blk g.assoc → Blk g.assoc}
    (hnext : ∀ x, (f x).wayNext = x.wayNext) (hprev : ∀ x, (f x).wayPrev = x.wayPrev)
    (hhash : ∀ x, (f x).hashNext = x.hashNext)
    (htag : S p → ∀ x, (f x).tag = x.tag ∧ ((f x).valid → x.valid)) :
    Rep S (c.modifyBlk p f) ord := by
  have hs := (hc p.1).modifyBlk p.2 hnext hprev hhash htag
  have hrep := hc.modifySet hs fun _ _ => rfl
  rwa [Function.update_eq_self] at hrep

/-- A block without a bucket need not be on a chain. -/
theorem chained_of_bucket {n h : Nat} {bucket : Addr → Option (Fin h)} {s : CacheSet n h}
    {T T' : Fin n → Prop} (hs : CacheSet.Chained bucket s T)
    (hT : ∀ b, bucket (s.blks b).tag ≠ none → (T b ↔ T' b)) : CacheSet.Chained bucket s T' := by
  intro index
  rcases hs index with ⟨l, hl, hnodup, hmem⟩
  refine ⟨l, hl, hnodup, fun b => (hmem b).trans ?_⟩
  refine and_congr_left fun hb => hT b ?_
  rw [hb]
  exact Option.some_ne_none index

theorem linked_self (p : BlkPtr g) : (fun b => (p.1, b) ≠ p) = fun b => b ≠ p.2 := by
  funext b
  exact propext ⟨fun h heq => h (by rw [heq]), fun h heq => h (congrArg Prod.snd heq)⟩

theorem linked_other (p : BlkPtr g) {j : Fin g.nsets} (hne : j ≠ p.1) :
    (fun b => (j, b) ≠ p) = fun _ : Fin g.assoc => True := by
  funext b
  exact eq_true fun heq => hne (congrArg Prod.fst heq)

/-- A block is taken off its chain. -/
theorem Rep.unlinkHash (hc : Rep (fun _ => True) c ord) (p : BlkPtr g) :
    ∃ c', c.unlinkHash p = .ok c' ∧ Rep (· ≠ p) c' ord ∧ SameData c c' ∧ SameRest c c' := by
  have hset := hc p.1
  have hunique : ∀ b b' : Fin g.assoc, (p.1, b) ≠ p → (p.1, b') ≠ p →
      ((c.sets p.1).blks b).valid → ((c.sets p.1).blks b').valid →
      ((c.sets p.1).blks b).tag = ((c.sets p.1).blks b').tag → b = b' :=
    fun b b' _ _ => hset.unique b b' trivial trivial
  rcases hbucket : g.bucket (c.blk p).tag with _ | index
  · -- The cache has no chain for the block.
    refine ⟨c, by rw [State.unlinkHash, hbucket], fun i => ?_, fun _ => rfl, rfl⟩
    refine (hc i).of_hashFrame ⟨rfl, fun _ => rfl⟩ ?_ fun b b' _ _ =>
      (hc i).unique b b' trivial trivial
    refine chained_of_bucket (hc i).chained fun b hb => ⟨fun _ heq => hb ?_, fun _ => trivial⟩
    rw [← hbucket, ← heq]
    rfl
  · rcases CacheSet.unlinkHtabEnt_eq hset.chained trivial hbucket with ⟨s, heq, hchained, hframe⟩
    have hself : (fun b => (p.1, b) ≠ p) = fun b => True ∧ b ≠ p.2 := by
      rw [linked_self]
      simp only [true_and]
    have hs : SetRep g.bucket (fun b => (p.1, b) ≠ p) s (ord p.1) :=
      hset.of_hashFrame hframe (by rwa [hself]) hunique
    have hrep : Rep (· ≠ p) (c.modifySet p.1 fun _ => s) _ :=
      hc.modifySet hs fun j hne => linked_other p hne
    rw [Function.update_eq_self] at hrep
    refine ⟨_, ?_, hrep, sameData_modifySet hframe.data, State.sameRest_modifySet c _ _⟩
    rw [State.unlinkHash, hbucket]
    change (do let s ← (c.sets p.1).unlinkHtabEnt index p.2; _) = _
    rw [heq]
    rfl

theorem sameData_linkHash (c : State g) (p : BlkPtr g) : SameData c (c.linkHash p) := by
  rw [State.linkHash]
  split
  · exact fun _ => rfl
  · rename_i index _
    exact sameData_modifySet fun b => CacheSet.modifyBlk_field (f := fun b =>
      { b with hashNext := (c.sets p.1).hash index }) Blk.data _ p.2 (fun _ => rfl) b

theorem sameRest_linkHash (c : State g) (p : BlkPtr g) : SameRest c (c.linkHash p) := by
  rw [State.linkHash]
  split <;> rfl

/-- A block is put back on a chain, under a tag no other valid block of its
    set has. -/
theorem Rep.linkHash {p : BlkPtr g} (hc : Rep (· ≠ p) c ord)
    (hunique : ∀ b, (p.1, b) ≠ p → (c.blk (p.1, b)).valid → (c.blk (p.1, b)).tag ≠ (c.blk p).tag) :
    Rep (fun _ => True) (c.linkHash p) ord ∧ SameData c (c.linkHash p) ∧
      SameRest c (c.linkHash p) := by
  have hset := hc p.1
  -- Among the blocks of the set, with the one that is put back.
  have hunique' : ∀ b b' : Fin g.assoc, ((c.sets p.1).blks b).valid →
      ((c.sets p.1).blks b').valid → ((c.sets p.1).blks b).tag = ((c.sets p.1).blks b').tag →
      b = b' := by
    intro b b' hb hb' htag
    by_cases hbp : (p.1, b) = p <;> by_cases hbp' : (p.1, b') = p
    · exact congrArg Prod.snd (hbp.trans hbp'.symm)
    · have hblk : (c.sets p.1).blks b = c.blk p := congrArg c.blk hbp
      rw [hblk] at htag
      exact absurd htag.symm (hunique b' hbp' hb')
    · have hblk : (c.sets p.1).blks b' = c.blk p := congrArg c.blk hbp'
      rw [hblk] at htag
      exact absurd htag (hunique b hbp hb)
    · exact hset.unique b b' hbp hbp' hb hb' htag
  have htrue : ∀ j ≠ p.1, (fun _ : Fin g.assoc => True) = fun b => (j, b) ≠ p :=
    fun j hne => (linked_other p hne).symm
  refine ⟨?_, sameData_linkHash c p, sameRest_linkHash c p⟩
  rcases hbucket : g.bucket (c.blk p).tag with _ | index
  · -- Without buckets there is no chain to put it on.
    have heq : c.linkHash p = c := by rw [State.linkHash, hbucket]
    rw [heq]
    intro i
    refine (hc i).of_hashFrame ⟨rfl, fun _ => rfl⟩ ?_ fun b b' _ _ hb hb' htag => ?_
    · refine chained_of_bucket (hc i).chained fun b hb => ⟨fun _ => trivial, fun _ heq => hb ?_⟩
      rw [← hbucket, ← heq]
      rfl
    · by_cases hi : i = p.1
      · subst hi
        exact hunique' b b' hb hb' htag
      · exact (hc i).unique b b' (fun heq => hi (congrArg Prod.fst heq))
          (fun heq => hi (congrArg Prod.fst heq)) hb hb' htag
  · have hchained := hset.chained
    rw [linked_self] at hchained
    have hlink := hchained.linkHtabEnt (b := p.2) (fun hne => hne rfl) hbucket
    have hall : (fun x => x ≠ p.2 ∨ x = p.2) = fun _ : Fin g.assoc => True :=
      funext fun x => eq_true (ne_or_eq x p.2)
    rw [hall] at hlink
    have hs := hset.of_hashFrame hlink.2 hlink.1 fun b b' _ _ => hunique' b b'
    have hrep : Rep (fun _ => True)
        (c.modifySet p.1 fun _ => (c.sets p.1).linkHtabEnt index p.2) _ := hc.modifySet hs htrue
    rw [Function.update_eq_self] at hrep
    have heq : c.linkHash p = c.modifySet p.1 fun s => s.linkHtabEnt index p.2 := by
      rw [State.linkHash, hbucket]
    rw [heq]
    exact hrep

/-- The search finds the valid block with the tag. -/
theorem Rep.searchSet (hc : Rep (fun _ => True) c ord) (i : Fin g.nsets) (tag : Addr) :
    ∃ r, c.searchSet i tag = .ok r ∧
      ∀ b, r = some b ↔ (c.blk (i, b)).valid ∧ (c.blk (i, b)).tag = tag := by
  have hset := hc i
  let test : Fin g.assoc → Bool := fun b =>
    ((c.sets i).blks b).tag == tag && ((c.sets i).blks b).valid
  have htest : ∀ b, test b = true ↔ (c.blk (i, b)).valid ∧ (c.blk (i, b)).tag = tag := by
    intro b
    rw [Bool.and_eq_true, beq_iff_eq, and_comm]
    rfl
  -- What is found first in a list of candidates is the only one that passes the test.
  have hfind : ∀ l : List (Fin g.assoc), (∀ b, test b → b ∈ l) →
      ∀ b, l.find? test = some b ↔ (c.blk (i, b)).valid ∧ (c.blk (i, b)).tag = tag := by
    intro l hall b
    rw [← htest b]
    constructor
    · exact fun hfound => List.find?_some hfound
    · intro hb
      rcases hfound : l.find? test with _ | b'
      · exact absurd hb (List.find?_eq_none.mp hfound b (hall b hb))
      · have h₁ := (htest b).mp hb
        have h₂ := (htest b').mp (List.find?_some hfound)
        rw [hset.unique b' b trivial trivial h₂.1 h₁.1 (h₂.2.trans h₁.2.symm)]
  have hlength : ∀ l : List (Fin g.assoc), l.Nodup → l.length ≤ g.assoc := by
    intro l hnodup
    have hcard := hnodup.length_le_card
    rwa [Fintype.card_fin] at hcard
  unfold State.searchSet
  -- Without buckets the search goes along the ways, and with them along one chain.
  rcases hbucket : g.bucket tag with _ | index
  · have hsearch : search _ test _ _ = _ :=
      search_eq hset.linked.forward (hlength _ hset.linked.nodup)
    exact ⟨_, congrArg State.orEndless hsearch, hfind _ fun b _ => hset.complete b⟩
  · rcases hset.chained index with ⟨l, hl, hnodup, hmem⟩
    have hsearch : search _ test _ _ = _ := search_eq hl (hlength l hnodup)
    refine ⟨_, congrArg State.orEndless hsearch, hfind l fun b hb => (hmem b).mpr ⟨trivial, ?_⟩⟩
    exact (congrArg g.bucket ((htest b).mp hb).2).trans hbucket

end Rep

/-! ### Status bits -/

/-- The status of a block after an access by the command. -/
def markedStatus (cmd : Cmd) (status : BitVec 32) : BitVec 32 :=
  if cmd = .Write then status ||| CACHE_BLK_DIRTY else status

theorem valid_markedStatus (cmd : Cmd) (status : BitVec 32) :
    markedStatus cmd status &&& CACHE_BLK_VALID = status &&& CACHE_BLK_VALID := by
  rw [markedStatus]
  split
  · have hbits : CACHE_BLK_DIRTY &&& CACHE_BLK_VALID = 0#32 := rfl
    rw [BitVec.and_or_distrib_right, hbits, BitVec.or_zero]
  · rfl

theorem dirty_markedStatus (cmd : Cmd) (status : BitVec 32) :
    markedStatus cmd status &&& CACHE_BLK_DIRTY
      = if cmd = .Write then CACHE_BLK_DIRTY else status &&& CACHE_BLK_DIRTY := by
  rw [markedStatus]
  split
  · ext i hi
    simp only [BitVec.getElem_and, BitVec.getElem_or]
    cases status[i] <;> cases CACHE_BLK_DIRTY[i] <;> rfl
  · rfl

/-- The status of a block that is invalidated. -/
def clearedStatus (status : BitVec 32) : BitVec 32 := status &&& ~~~ CACHE_BLK_VALID

theorem valid_clearedStatus (status : BitVec 32) :
    clearedStatus status &&& CACHE_BLK_VALID = 0 := by
  have hbits : ~~~ CACHE_BLK_VALID &&& CACHE_BLK_VALID = 0#32 := rfl
  rw [clearedStatus, BitVec.and_assoc, hbits, BitVec.and_zero]
  rfl

theorem dirty_clearedStatus (status : BitVec 32) :
    clearedStatus status &&& CACHE_BLK_DIRTY = status &&& CACHE_BLK_DIRTY := by
  have hbits : ~~~ CACHE_BLK_VALID &&& CACHE_BLK_DIRTY = CACHE_BLK_DIRTY := rfl
  rw [clearedStatus, BitVec.and_assoc, hbits]

/-! ### Changes that leave the pointers alone -/

section Keep

variable {S : BlkPtr g → Prop} {c c' : State g} {ord : Order g}

/-- Only the sets matter. -/
theorem Rep.congr (hc : Rep S c ord) (hsets : c'.sets = c.sets) : Rep S c' ord := by
  intro i
  rw [hsets]
  exact hc i

theorem blk_congr (hsets : c'.sets = c.sets) (q : BlkPtr g) : c'.blk q = c.blk q := by
  rw [State.blk, hsets]
  rfl

theorem sets_countHit (c : State g) (cmd : Cmd) (prefetch : Bool) :
    (c.countHit cmd prefetch).sets = c.sets := by
  cases prefetch <;> rfl

theorem sets_countMiss (c : State g) (cmd : Cmd) (prefetch : Bool) :
    (c.countMiss cmd prefetch).sets = c.sets := by
  cases prefetch <;> rfl

theorem tag_markDirty (c : State g) (cmd : Cmd) (p q : BlkPtr g) :
    ((c.markDirty cmd p).blk q).tag = (c.blk q).tag := by
  rw [State.markDirty]
  split
  · rw [State.blk_modifyBlk]
    split <;> rfl
  · rfl

theorem status_markDirty (c : State g) (cmd : Cmd) (p q : BlkPtr g) :
    ((c.markDirty cmd p).blk q).status
      = if q = p then markedStatus cmd (c.blk q).status else (c.blk q).status := by
  rw [State.markDirty, markedStatus]
  split
  · rw [State.blk_modifyBlk]
    split <;> rfl
  · split <;> rfl

theorem sameRest_markDirty (c : State g) (cmd : Cmd) (p : BlkPtr g) :
    SameRest c (c.markDirty cmd p) := by
  rw [State.markDirty]
  split <;> rfl

theorem Rep.markDirty (hc : Rep S c ord) (cmd : Cmd) (p : BlkPtr g) :
    Rep S (c.markDirty cmd p) ord := by
  rw [State.markDirty]
  split
  · -- Only a write marks the block, and that bit is not the valid one.
    rename_i hcmd
    refine hc.modifyBlk p (fun _ => rfl) (fun _ => rfl) (fun _ => rfl)
      fun _ x => ⟨rfl, fun hx => ?_⟩
    have hvalid := valid_markedStatus cmd x.status
    rw [markedStatus, if_pos hcmd] at hvalid
    rw [Blk.valid] at hx ⊢
    rwa [hvalid] at hx
  · exact hc

end Keep

/-! ### Creation -/

/-- The order of the blocks in a cache as it is created. -/
def createdOrder (g : Geometry) : Order g := fun _ => (List.finRange g.assoc).reverse

theorem sliceRep_create (g : Geometry) (i : Fin g.nsets) :
    SliceRep g.bucket ((cacheCreate g).sets i) (createdOrder g i) :=
  SliceRep.create g.assoc g.bucket

theorem status_create (p : BlkPtr g) : ((cacheCreate g).blk p).status = 0 :=
  congrArg (fun d => d.2.1) ((sliceRep_create g p.1).data p.2)

theorem Inv.create (g : Geometry) : Inv (cacheCreate g) (createdOrder g) where
  rep i := (sliceRep_create g i).setRep fun b => List.mem_reverse.mpr (List.mem_finRange b)
  last := rfl

end Cache

end MicroArch
