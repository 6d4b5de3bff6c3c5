import MicroArch.Cache.Invariant

/-!
# What an Operation Does

Each piece of an operation with its effect: on the order of the blocks, on
their tags and status, on the counter of write-backs and on the log. The
effects keep the invariant, and they are all that the properties of a run are
derived from.

A miss goes through five pieces: a victim is selected, taken off its bucket
chain, written back, filled, and linked again. `fill_eq` says which block it
is, and the effect of the whole is `Replaced`, whatever the policy. A hit is
`Touched` on both of its paths, though only the slow one moves the block.

A lookup ends in one of four ways: a miss, two kinds of hits, and a hit on no
block. The fast hit has not compared tags. So what is known of its block is
`Covers`, that it holds some address of the same block of memory, and only in a
cache whose sets fit into the memory that is `Holds`.

## Main definitions

* `Touched`: A hit.
* `Replaced`: A miss.
* `Invalidated`: A block flushed.
* `Holds`, `Covers`: The block of an address, and one that is taken for it.
* `Finds`: Where an access finds its block.
* `Served`: An access up to its prefetch.

## Theorems

* `fill_eq`: A miss selects a block and fills it.
* `serve_rule`: What has to be shown of an access.
* `serve_ends`: An access is served by a hit or a miss.
* `flush_ends`, `flushAddr_ends`: The flushes.
-/

namespace MicroArch

namespace Cache

open Pointer

variable {g : Geometry} {σ : Type}

/-- The order after a block was moved to the front of its set. -/
def toFront (ord : Order g) (p : BlkPtr g) : Order g :=
  Function.update ord p.1 (p.2 :: (ord p.1).erase p.2)

/-- A block has the tag, and is in the set, of an address. -/
def Holds (c : State g) (p : BlkPtr g) (addr : Addr) : Prop :=
  (c.blk p).valid ∧ p.1 = g.cacheSet addr ∧ (c.blk p).tag = g.cacheTag addr

/-- A block is recognized as the one of an address: it holds an address of the
    same block of memory. -/
def Covers (c : State g) (p : BlkPtr g) (addr : Addr) : Prop :=
  ∃ a, g.cacheBaddr a = g.cacheBaddr addr ∧ Holds c p a

theorem Holds.covers {c : State g} {p : BlkPtr g} {addr : Addr} (h : Holds c p addr) :
    Covers c p addr := ⟨addr, rfl, h⟩

/-- A hit. -/
structure Touched (c c' : State g) (ord ord' : Order g) (cmd : Cmd) (p : BlkPtr g) : Prop where
  tag : ∀ q, (c'.blk q).tag = (c.blk q).tag
  status : ∀ q, (c'.blk q).status
    = if q = p then markedStatus cmd (c.blk q).status else (c.blk q).status
  order : ord' = if g.policy = .LRU then toFront ord p else ord
  writebacks : c'.writebacks = c.writebacks

theorem toFront_of_head {ord : Order g} {p : BlkPtr g} (h : (ord p.1).head? = some p.2) :
    toFront ord p = ord := by
  rcases hord : ord p.1 with _ | ⟨b, l⟩
  · rw [hord] at h
    exact absurd h (by simp only [List.head?_nil, reduceCtorEq, not_false_eq_true])
  · rw [hord, List.head?_cons, Option.some.injEq] at h
    rw [toFront, hord, h, List.erase_cons_head, ← h, ← hord, Function.update_eq_self]

theorem toFront_head (ord : Order g) (p : BlkPtr g) : (toFront ord p p.1).head? = some p.2 := by
  rw [toFront, Function.update_self, List.head?_cons]

theorem Blk.valid_congr {n : Nat} {b b' : Blk n}
    (h : b.status &&& CACHE_BLK_VALID = b'.status &&& CACHE_BLK_VALID) : b.valid = b'.valid := by
  rw [Blk.valid, h, ← Blk.valid]

section Hit

variable {c c' : State g} {ord ord' : Order g} {cmd : Cmd} {addr : Addr} {p : BlkPtr g}

theorem Touched.valid (h : Touched c c' ord ord' cmd p) (q : BlkPtr g) :
    (c'.blk q).valid = (c.blk q).valid := by
  apply Blk.valid_congr
  rw [h.status]
  split
  · exact valid_markedStatus cmd _
  · rfl

/-- A hit up to the change of order. -/
theorem touched_markDirty (c : State g) (cmd : Cmd) (prefetch : Bool) (p q : BlkPtr g) :
    (((c.countHit cmd prefetch).markDirty cmd p).blk q).tag = (c.blk q).tag ∧
    (((c.countHit cmd prefetch).markDirty cmd p).blk q).status
      = if q = p then markedStatus cmd (c.blk q).status else (c.blk q).status := by
  rw [tag_markDirty, status_markDirty, blk_congr (sets_countHit c cmd prefetch)]
  exact ⟨rfl, rfl⟩

theorem writebacks_markDirty (c : State g) (cmd : Cmd) (prefetch : Bool) (p : BlkPtr g) :
    ((c.countHit cmd prefetch).markDirty cmd p).writebacks = c.writebacks := by
  rw [sameRest_markDirty (c.countHit cmd prefetch) cmd p]
  cases prefetch <;> rfl

/-- The last block to hit after a hit. -/
theorem LastBlock.recordLast (hp : Covers (c.recordLast addr (some p)) p addr)
    (hhead : g.policy = .LRU → (ord p.1).head? = some p.2) :
    LastBlock (c.recordLast addr (some p)) ord := by
  rcases hp with ⟨a, hblock, hheld⟩
  exact ⟨hheld.1, hhead, a, hblock, hheld.2⟩

theorem Holds.touched {q : BlkPtr g} (hq : Holds c q addr) (h : Touched c c' ord ord' cmd p) :
    Holds c' q addr := by
  rw [Holds, h.valid, h.tag]
  exact hq

theorem Covers.touched {q : BlkPtr g} (hq : Covers c q addr) (h : Touched c c' ord ord' cmd p) :
    Covers c' q addr := by
  rcases hq with ⟨a, hblock, hheld⟩
  exact ⟨a, hblock, hheld.touched h⟩

theorem reorder_eq {S : BlkPtr g → Prop} (hc : Rep S c ord) (p : BlkPtr g) :
    ∃ c', c.reorder p = .ok c' ∧ Rep S c' (if g.policy = .LRU then toFront ord p else ord) ∧
      SameData c c' ∧ SameRest c c' := by
  by_cases hpolicy : g.policy = .LRU
  · rw [if_pos hpolicy]
    by_cases hprev : (c.blk p).wayPrev = none
    · -- The block is the first one already.
      rcases (hc p.1).split p.2 with ⟨l, l', hord, -⟩
      have hlinked := (hc p.1).linked
      rw [hord] at hlinked
      have hnil : l = [] := List.getLast?_eq_none_iff.mp (hlinked.prev_eq.symm.trans hprev)
      have hhead : (ord p.1).head? = some p.2 := by
        rw [hord, hnil]
        rfl
      rw [toFront_of_head hhead]
      exact ⟨c, if_neg fun h => h.1 hprev, hc, fun _ => rfl, rfl⟩
    · rcases hc.move p .Head with ⟨s, heq, hrep, hdata⟩
      refine ⟨_, ?_, hrep, hdata, State.sameRest_modifySet c _ _⟩
      rw [State.reorder, if_pos ⟨hprev, hpolicy⟩, heq]
      rfl
  · rw [if_neg hpolicy]
    exact ⟨c, if_neg fun h => hpolicy h.2, hc, fun _ => rfl, rfl⟩

theorem touch_eq (hc : Inv c ord) (hp : Holds c p addr) (cmd : Cmd) (prefetch : Bool) :
    ∃ c' ord', c.touch cmd addr prefetch p = .ok c' ∧ Inv c' ord' ∧
      Touched c c' ord ord' cmd p := by
  have hrep := (hc.rep.congr (sets_countHit c cmd prefetch)).markDirty cmd p
  rcases reorder_eq hrep p with ⟨c', heq, hrep', hdata, hrest⟩
  have htouched : Touched c (c'.recordLast addr (some p)) ord
      (if g.policy = .LRU then toFront ord p else ord) cmd p := by
    have hmarked := touched_markDirty c cmd prefetch p
    -- Neither the counters nor the order change tags or bits, so those after marking remain.
    refine ⟨fun q => ?_, fun q => ?_, rfl, ?_⟩
    · exact (Blk.tag_of_data (hdata q)).trans (hmarked q).1
    · exact (Blk.status_of_data (hdata q)).trans (hmarked q).2
    · exact hrest.fields.1.trans (writebacks_markDirty c cmd prefetch p)
  refine ⟨c'.recordLast addr (some p), _, ?_, ⟨hrep'.congr rfl, ?_⟩, htouched⟩
  · rw [State.touch, heq]
    rfl
  · refine LastBlock.recordLast (hp.touched htouched).covers fun hpolicy => ?_
    rw [if_pos hpolicy]
    exact toFront_head ord p

/-- A fast hit does not move the block, which is where a hit would move it
    to. -/
theorem fastTouch_eq (hc : Inv c ord) (hlast : c.lastBlk = some p) (hp : Covers c p addr)
    (cmd : Cmd) (prefetch : Bool) :
    ∃ c', c.fastTouch cmd addr prefetch (some p) = .ok c' ∧ Inv c' ord ∧
      Touched c c' ord ord cmd p := by
  have hhead : g.policy = .LRU → (ord p.1).head? = some p.2 := by
    have hl := hc.last
    rw [LastBlock, hlast] at hl
    exact hl.2.1
  have hrep := (hc.rep.congr (sets_countHit c cmd prefetch)).markDirty cmd p
  have hmarked := touched_markDirty c cmd prefetch p
  have htouched : Touched c (((c.countHit cmd prefetch).markDirty cmd p).recordLast addr (some p))
      ord ord cmd p := by
    refine ⟨fun q => (hmarked q).1, fun q => (hmarked q).2, ?_,
      writebacks_markDirty c cmd prefetch p⟩
    split
    · -- Under LRU the block is the first one already, so leaving the order is moving it there.
      rename_i hpolicy
      rw [toFront_of_head (hhead hpolicy)]
    · rfl
  exact ⟨_, rfl, ⟨hrep.congr rfl, LastBlock.recordLast (hp.touched htouched) hhead⟩, htouched⟩

end Hit

/-! ### Misses -/

/-- What the log says of the end of a block's residency. -/
def departure (c : State g) (p : BlkPtr g) : List (Event g) :=
  if (c.blk p).valid then
    if (c.blk p).dirty then [.call .Write (c.baddr p), .leave p] else [.leave p]
  else []

/-- How often a block is written back when its residency ends. -/
def writesBack (c : State g) (p : BlkPtr g) : Nat :=
  if (c.blk p).valid ∧ (c.blk p).dirty then 1 else 0

theorem baddr_congr {c c' : State g} {p : BlkPtr g} (htag : (c'.blk p).tag = (c.blk p).tag) :
    c'.baddr p = c.baddr p := by
  rw [State.baddr, htag, ← State.baddr]

theorem departure_congr {c c' : State g} {p : BlkPtr g} (htag : (c'.blk p).tag = (c.blk p).tag)
    (hstatus : (c'.blk p).status = (c.blk p).status) : departure c' p = departure c p := by
  rw [departure, baddr_congr htag, Blk.valid, Blk.dirty, hstatus, ← Blk.valid, ← Blk.dirty,
    ← departure]

theorem writesBack_congr {c c' : State g} {p : BlkPtr g}
    (hstatus : (c'.blk p).status = (c.blk p).status) : writesBack c' p = writesBack c p := by
  rw [writesBack, Blk.valid, Blk.dirty, hstatus, ← Blk.valid, ← Blk.dirty, ← writesBack]

/-- A miss. -/
structure Replaced (s s' : Sys g σ) (ord ord' : Order g) (cmd : Cmd) (addr : Addr)
    (prefetch : Bool) (p : BlkPtr g) : Prop where
  set : p.1 = g.cacheSet addr
  victim : g.policy ≠ .Random → (ord p.1).getLast? = some p.2
  order : ord' = if g.policy = .Random then ord else toFront ord p
  tag : ∀ q, (s'.cache.blk q).tag = if q = p then g.cacheTag addr else (s.cache.blk q).tag
  status : ∀ q, (s'.cache.blk q).status
    = if q = p then markedStatus cmd CACHE_BLK_VALID else (s.cache.blk q).status
  writebacks : s'.cache.writebacks = s.cache.writebacks + writesBack s.cache p
  log : s'.env.log = .fill p cmd addr prefetch
      (if (s.cache.blk p).valid then some (s.cache.baddr p) else none) ::
    .call .Read (g.cacheBaddr addr) :: (departure s.cache p ++ s.env.log)

theorem Replaced.valid_iff {s s' : Sys g σ} {ord ord' : Order g} {cmd : Cmd} {addr : Addr}
    {prefetch : Bool} {p : BlkPtr g} (h : Replaced s s' ord ord' cmd addr prefetch p)
    (q : BlkPtr g) : (s'.cache.blk q).valid ↔ q = p ∨ (s.cache.blk q).valid := by
  rw [Blk.valid, h.status]
  by_cases heq : q = p
  · rw [if_pos heq, valid_markedStatus]
    exact ⟨fun _ => Or.inl heq, fun _ => rfl⟩
  · rw [if_neg heq, ← Blk.valid]
    exact ⟨Or.inr, fun hor => hor.resolve_left heq⟩

/-- A miss puts the block of the address at one place. -/
theorem Replaced.holds {s s' : Sys g σ} {ord ord' : Order g} {cmd : Cmd} {addr : Addr}
    {prefetch : Bool} {p : BlkPtr g} (h : Replaced s s' ord ord' cmd addr prefetch p) :
    Holds s'.cache p addr :=
  ⟨(h.valid_iff p).mpr (.inl rfl), h.set, (h.tag p).trans (if_pos rfl)⟩

/-- The other places hold what they held before. -/
theorem Replaced.others {s s' : Sys g σ} {ord ord' : Order g} {cmd : Cmd} {addr : Addr}
    {prefetch : Bool} {p q : BlkPtr g} (h : Replaced s s' ord ord' cmd addr prefetch p)
    (hne : q ≠ p) : (s'.cache.blk q).valid = (s.cache.blk q).valid ∧
      (s'.cache.blk q).tag = (s.cache.blk q).tag := by
  have hvalid := h.valid_iff q
  rw [or_iff_right hne, ← Bool.eq_iff_iff] at hvalid
  exact ⟨hvalid, (h.tag q).trans (if_neg hne)⟩

/-- The sets and the last block to hit are the same. -/
structure SameSets (c c' : State g) : Prop where
  sets : c'.sets = c.sets
  lastTagset : c'.lastTagset = c.lastTagset
  lastBlk : c'.lastBlk = c.lastBlk

section Miss

variable {c : State g} {ord : Order g} {S : BlkPtr g → Prop} {out : Outside σ} {e : Env g σ}

/-- A call of the next level is entered in the log. -/
theorem call_ends (cmd : Cmd) (baddr : Addr) (now : Tick) (prefetch : Bool) :
    Ends (Expected g) (e.call out cmd baddr now prefetch)
      fun r => r.2.log = .call cmd baddr :: e.log := by
  rw [Env.call]
  rcases out.blkAccess cmd baddr g.bsize now prefetch e.shared with fault | ⟨lat, shared⟩
  · exact .fail trivial
  · exact .ret rfl

theorem selectVictim_eq (hc : Rep S c ord) (out : Outside σ) (i : Fin g.nsets) (e : Env g σ) :
    ∃ repl c' e', State.selectVictim out i c e = .ok (repl, c', e') ∧
      (g.policy ≠ .Random → (ord i).getLast? = some repl) ∧
      Rep S c' (if g.policy = .Random then ord else toFront ord (i, repl)) ∧
      SameData c c' ∧ SameRest c c' ∧ e'.log = e.log := by
  -- A random victim is drawn from outside, and its set is not reordered.
  by_cases hpolicy : g.policy = .Random
  · simp only [if_pos hpolicy]
    rw [State.selectVictim, hpolicy]
    exact ⟨_, _, _, rfl, fun h => absurd rfl h, hc, fun _ => rfl, rfl, rfl⟩
  · have htail : (c.sets i).wayTail = (ord i).getLast? := (hc i).linked.tail_eq
    rcases hlast : (ord i).getLast? with _ | repl
    · -- A set has at least one way, so its order has a last one.
      have hmem := (hc i).complete ⟨0, g.assoc_pos⟩
      rw [List.getLast?_eq_none_iff.mp hlast] at hmem
      exact absurd hmem List.not_mem_nil
    · rcases hc.move (i, repl) .Head with ⟨s, heq, hrep, hdata⟩
      refine ⟨repl, _, e, ?_, fun _ => rfl, ?_, hdata, State.sameRest_modifySet c i _, rfl⟩
      · rw [State.selectVictim, htail, hlast]
        dsimp only
        rw [heq]
        rcases hp : g.policy
        · rfl
        · exact absurd hp hpolicy
        · rfl
      · rw [if_neg hpolicy]
        exact hrep

theorem writeBack_ends (now : Tick) (p : BlkPtr g) (r : State.Timed g σ) :
    Ends (Expected g) (State.writeBack out now p r) fun r' =>
      SameSets r.cache r'.cache ∧
      r'.cache.writebacks = r.cache.writebacks + (if (r.cache.blk p).dirty then 1 else 0) ∧
      r'.env.log = (if (r.cache.blk p).dirty then [.call .Write (r.cache.baddr p)] else [])
        ++ r.env.log := by
  rw [State.writeBack]
  split
  · refine (call_ends ..).bind fun a ha => .ret ⟨⟨rfl, rfl, rfl⟩, rfl, ha⟩
  · exact .ret ⟨⟨rfl, rfl, rfl⟩, rfl, rfl⟩

theorem evict_ends (now : Tick) (p : BlkPtr g) (c : State g) (e : Env g σ) :
    Ends (Expected g) (State.evict out now p c e) fun r =>
      SameSets c r.cache ∧ r.cache.writebacks = c.writebacks + writesBack c p ∧
      r.env.log = departure c p ++ e.log := by
  -- An invalid block has nothing to write back and leaves no trace in the log.
  by_cases hvalid : (c.blk p).valid
  · have hdirty : ∀ c' : State g, c'.sets = c.sets → (c'.blk p).dirty = (c.blk p).dirty :=
      fun c' hsets => congrArg Blk.dirty (blk_congr hsets p)
    rw [State.evict, if_pos hvalid]
    refine (writeBack_ends now p _).mono fun r hr => ?_
    rcases hr with ⟨hsets, hwb, hlog⟩
    refine ⟨⟨hsets.sets, hsets.lastTagset, hsets.lastBlk⟩, ?_, ?_⟩
    · rw [hwb, writesBack]
      simp only [hvalid, true_and]
      rfl
    · rw [hlog, departure, if_pos hvalid]
      change (if (c.blk p).dirty then _ else _) ++ _ = _
      split <;> rfl
  · rw [State.evict, if_neg hvalid]
    refine .ret ⟨⟨rfl, rfl, rfl⟩, ?_, ?_⟩
    · rw [writesBack, if_neg fun h => hvalid h.1]
      rfl
    · rw [departure, if_neg hvalid]
      rfl

/-- The block is loaded, when no valid block of its set has its tag. -/
theorem load_ends {p : BlkPtr g} (cmd : Cmd) (addr : Addr) (now : Tick) (prefetch : Bool)
    (r : State.Timed g σ) (hc : Rep (· ≠ p) r.cache ord)
    (hmiss : ∀ b, (r.cache.blk (p.1, b)).valid → (r.cache.blk (p.1, b)).tag ≠ g.cacheTag addr) :
    Ends (Expected g) (State.load out cmd addr now prefetch p r) fun r' =>
      Rep (fun _ => True) r'.cache ord ∧
      (∀ q, (r'.cache.blk q).tag = if q = p then g.cacheTag addr else (r.cache.blk q).tag) ∧
      (∀ q, (r'.cache.blk q).status
        = if q = p then markedStatus cmd CACHE_BLK_VALID else (r.cache.blk q).status) ∧
      SameRest r.cache r'.cache ∧
      r'.env.log = .call .Read (g.cacheBaddr addr) :: r.env.log := by
  rw [State.load]
  refine (call_ends ..).bind fun a ha => ?_
  -- The block before it is put on its chain.
  let c₁ := r.cache.modifyBlk p fun b =>
    { b with tag := g.cacheTag addr, status := CACHE_BLK_VALID }
  let c₂ := (c₁.markDirty cmd p).modifyBlk p fun b => { b with ready := now + ticks (r.lat + a.1) }
  have hfree : ∀ {P : Prop}, p ≠ p → P := fun hne => absurd rfl hne
  have hrep : Rep (· ≠ p) c₂ ord := by
    refine Rep.modifyBlk (Rep.markDirty ?_ cmd p) p (fun _ => rfl) (fun _ => rfl) (fun _ => rfl)
      hfree
    exact hc.modifyBlk p (fun _ => rfl) (fun _ => rfl) (fun _ => rfl) hfree
  have htag : ∀ q, (c₂.blk q).tag = if q = p then g.cacheTag addr else (r.cache.blk q).tag := by
    intro q
    have hready : (c₂.blk q).tag = ((c₁.markDirty cmd p).blk q).tag := by
      rw [State.blk_modifyBlk]
      split <;> rfl
    rw [hready, tag_markDirty, State.blk_modifyBlk]
    split <;> rfl
  have hstatus : ∀ q, (c₂.blk q).status
      = if q = p then markedStatus cmd CACHE_BLK_VALID else (r.cache.blk q).status := by
    intro q
    have hready : (c₂.blk q).status = ((c₁.markDirty cmd p).blk q).status := by
      rw [State.blk_modifyBlk]
      split <;> rfl
    rw [hready, status_markDirty, State.blk_modifyBlk]
    split <;> rfl
  have hrest : SameRest r.cache c₂ := (sameRest_markDirty c₁ cmd p).trans rfl
  have hlink := hrep.linkHash fun b hne hvalid => by
    have hsame : (c₂.blk (p.1, b)).valid = (r.cache.blk (p.1, b)).valid := by
      rw [Blk.valid, hstatus, if_neg hne, ← Blk.valid]
    rw [hsame] at hvalid
    rw [htag, htag, if_neg hne, if_pos rfl]
    exact hmiss b hvalid
  refine .ret ⟨hlink.1, fun q => ?_, fun q => ?_, hrest.trans hlink.2.2, ha⟩
  · exact (Blk.tag_of_data (hlink.2.1 q)).trans (htag q)
  · exact (Blk.status_of_data (hlink.2.1 q)).trans (hstatus q)

/-- A block was selected for a miss, and taken from its chain. The blocks hold
    what they held before. -/
structure Selected (c c' : State g) (e e' : Env g σ) (ord : Order g) (cmd : Cmd) (addr : Addr)
    (prefetch : Bool) (p : BlkPtr g) : Prop where
  set : p.1 = g.cacheSet addr
  victim : g.policy ≠ .Random → (ord p.1).getLast? = some p.2
  rep : Rep (· ≠ p) c' (if g.policy = .Random then ord else toFront ord p)
  data : SameData c c'
  rest : SameRest { c.countMiss cmd prefetch with lastTagset := 0, lastBlk := none } c'
  log : e'.log = e.log

/-- What is left of a miss once its block was selected. -/
def State.refill (out : Outside σ) (cmd : Cmd) (addr : Addr) (now : Tick) (prefetch : Bool)
    (p : BlkPtr g) (c : State g) (e : Env g σ) : Except Fault (State.Timed g σ) := do
  let replaced := if (c.blk p).valid then some (c.baddr p) else none
  let r ← State.evict out now p c e
  let r ← State.load out cmd addr now prefetch p r
  return { r with env := r.env.note (.fill p cmd addr prefetch replaced) }

theorem fill_eq (hc : Inv c ord) (out : Outside σ) (cmd : Cmd) (addr : Addr) (now : Tick)
    (prefetch : Bool) (e : Env g σ) : ∃ p c' e',
      State.fill out cmd addr now prefetch c e
        = State.refill out cmd addr now prefetch p c' e' ∧
      Selected c c' e e' ord cmd addr prefetch p := by
  have hcount := hc.rep.congr (sets_countMiss c cmd prefetch)
  rcases selectVictim_eq hcount out (g.cacheSet addr) e with
    ⟨repl, c₁, e₁, hselect, hvictim, hrep₁, hdata₁, hrest₁, hlog₁⟩
  let p : BlkPtr g := (g.cacheSet addr, repl)
  rcases hrep₁.unlinkHash p with ⟨c₂, hunlink, hrep₂, hdata₂, hrest₂⟩
  refine ⟨p, { c₂ with lastTagset := 0, lastBlk := none }, e₁, ?_, rfl, hvictim, hrep₂.congr rfl,
    fun q => ?_, ?_, hlog₁⟩
  · -- The choice, the unlinking and the reset of the fast path come before the eviction.
    rw [State.fill, hselect]
    change (do let c ← c₁.unlinkHash p; _) = _
    rw [hunlink]
    rfl
  · exact (hdata₂ q).trans ((hdata₁ q).trans
      (congrArg Blk.data (blk_congr (sets_countMiss c cmd prefetch) q)))
  · have hrest := hrest₁.trans hrest₂
    rw [SameRest] at hrest ⊢
    rw [hrest]

theorem fill_ends (hc : Inv c ord) (cmd : Cmd) (addr : Addr) (now : Tick) (prefetch : Bool)
    (hmiss : ∀ b, ¬ Holds c (g.cacheSet addr, b) addr) :
    Ends (Expected g) (State.fill out cmd addr now prefetch c e) fun r => ∃ p ord',
      Inv r.cache ord' ∧
      Replaced { cache := c, env := e } { cache := r.cache, env := r.env } ord ord' cmd addr
        prefetch p := by
  rcases fill_eq hc out cmd addr now prefetch e with ⟨p, c₁, e₁, hfill, hsel⟩
  -- The choice of a victim only moves pointers.
  have htag : ∀ q, (c₁.blk q).tag = (c.blk q).tag := fun q => Blk.tag_of_data (hsel.data q)
  have hstatus : ∀ q, (c₁.blk q).status = (c.blk q).status :=
    fun q => Blk.status_of_data (hsel.data q)
  have hvalid : ∀ q, (c₁.blk q).valid = (c.blk q).valid := fun q => Blk.valid_of_data (hsel.data q)
  have hwb : c₁.writebacks = c.writebacks := by
    refine hsel.rest.fields.1.trans ?_
    cases prefetch <;> rfl
  rw [hfill, State.refill]
  refine (evict_ends now p c₁ e₁).bind fun r hr => ?_
  rcases hr with ⟨hsets, hrwb, hrlog⟩
  have hr : ∀ q, r.cache.blk q = c₁.blk q := fun q => blk_congr hsets.sets q
  -- So the block that is loaded has a tag that no valid block of its set has.
  have hmiss' : ∀ b, (r.cache.blk (p.1, b)).valid →
      (r.cache.blk (p.1, b)).tag ≠ g.cacheTag addr := by
    intro b hb heq
    rw [hr, hvalid, hsel.set] at hb
    rw [hr, htag, hsel.set] at heq
    exact hmiss b ⟨hb, rfl, heq⟩
  refine (load_ends cmd addr now prefetch r (hsel.rep.congr hsets.sets) hmiss').bind
    fun r' hr' => ?_
  rcases hr' with ⟨hrep', htag', hstatus', hrest', hlog'⟩
  refine .ret ⟨p, _, ⟨hrep', ?_⟩, ?_⟩
  · have hlast : r'.cache.lastBlk = none :=
      hrest'.fields.2.2.trans (hsets.lastBlk.trans hsel.rest.fields.2.2)
    have htagset : r'.cache.lastTagset = 0 :=
      hrest'.fields.2.1.trans (hsets.lastTagset.trans hsel.rest.fields.2.1)
    rw [LastBlock, hlast]
    exact htagset
  · refine ⟨hsel.set, hsel.victim, rfl, fun q => ?_, fun q => ?_, ?_, ?_⟩
    · change (r'.cache.blk q).tag = _
      rw [htag', hr, htag]
    · change (r'.cache.blk q).status = _
      rw [hstatus', hr, hstatus]
    · change r'.cache.writebacks = _
      have hsame : writesBack c₁ p = writesBack c p := writesBack_congr (hstatus p)
      rw [hrest'.fields.1, ← hsame, ← hwb]
      exact hrwb
    · change _ :: r'.env.log = _
      rw [hlog', hrlog, hsel.log, departure_congr (htag p) (hstatus p), hvalid,
        baddr_congr (htag p)]

end Miss

/-! ### Accesses -/

/-- Where an access finds its block. A search finds the block that holds the
    address, and a fast hit one that is recognized as it; only when nothing has
    hit yet, an access to block address zero takes the null pointer for its
    block. -/
inductive Finds (c : State g) (addr : Addr) : State.Path g → Prop
  | miss (h : ∀ b, ¬ Holds c (g.cacheSet addr, b) addr) : Finds c addr .miss
  | hit (p : BlkPtr g) (h : Holds c p addr) : Finds c addr (.hit p)
  | fastHit (p : BlkPtr g) (hlast : c.lastBlk = some p) (h : Covers c p addr) :
      Finds c addr (.fastHit (some p))
  | null (hlast : c.lastBlk = none) (h : g.cacheBaddr addr = 0) : Finds c addr (.fastHit none)

/-- An access up to its prefetch. -/
inductive Served (s s' : Sys g σ) (ord ord' : Order g) (cmd : Cmd) (addr : Addr)
    (prefetch : Bool) : Answer g → Prop
  | miss (lat : BitVec 32) (p : BlkPtr g)
      (hmiss : ∀ b, ¬ Holds s.cache (g.cacheSet addr, b) addr)
      (h : Replaced s s' ord ord' cmd addr prefetch p) :
      Served s s' ord ord' cmd addr prefetch (.miss lat)
  | hit (p : BlkPtr g) (hp : Covers s.cache p addr) (h : Touched s.cache s'.cache ord ord' cmd p)
      (hlog : s'.env.log = .hit p cmd addr prefetch :: s.env.log) :
      Served s s' ord ord' cmd addr prefetch (.hit (some p))
  | null (h : g.cacheBaddr addr = 0) (hsets : s'.cache.sets = s.cache.sets) (hord : ord' = ord)
      (hwb : s'.cache.writebacks = s.cache.writebacks) (hlog : s'.env.log = s.env.log) :
      Served s s' ord ord' cmd addr prefetch (.hit none)

section Access

variable {c : State g} {ord : Order g} {out : Outside σ}

theorem holds_iff_of_tagset (hfits : g.Fits) {addr addr' : Addr} {p : BlkPtr g}
    (h : g.cacheTagset addr = g.cacheTagset addr') : Holds c p addr ↔ Holds c p addr' := by
  have hparts := (g.cacheBaddr_eq_iff hfits addr addr').mp h
  rw [Holds, hparts.1, hparts.2, ← Holds]

/-- Where tags are what they should be, a block that is recognized is the
    right one. -/
theorem Covers.holds {p : BlkPtr g} {addr : Addr} (h : Covers c p addr) (hfits : g.Fits) :
    Holds c p addr := by
  rcases h with ⟨a, hblock, hheld⟩
  exact (holds_iff_of_tagset hfits hblock).mp hheld

/-- It is a valid block of the right set in any case. -/
theorem Covers.valid_set {p : BlkPtr g} {addr : Addr} (h : Covers c p addr) :
    (c.blk p).valid ∧ p.1 = g.cacheSet addr := by
  rcases h with ⟨a, hblock, hheld⟩
  exact ⟨hheld.1, hheld.2.1.trans (g.cacheSet_congr hblock)⟩

/-- What the last block to hit is recognized by. -/
theorem Inv.last_covers (hc : Inv c ord) {p : BlkPtr g} (hlast : c.lastBlk = some p) {addr : Addr}
    (h : g.cacheTagset addr = c.lastTagset) : Covers c p addr := by
  have hl := hc.last
  rw [LastBlock, hlast] at hl
  rcases hl with ⟨hvalid, -, addr', htagset, hheld⟩
  exact ⟨addr', htagset.trans h.symm, hvalid, hheld⟩

theorem lookup_eq (hc : Inv c ord) (addr : Addr) :
    ∃ path, c.lookup addr = .ok path ∧ Finds c addr path := by
  by_cases htagset : g.cacheTagset addr = c.lastTagset
  · refine ⟨.fastHit c.lastBlk, by rw [State.lookup, if_pos htagset], ?_⟩
    -- The tag and set of no address but the first block are zero, which is what the fast path
    -- holds when there is no last block.
    rcases hlast : c.lastBlk with _ | p
    · have hl := hc.last
      rw [LastBlock, hlast] at hl
      exact .null hlast (htagset.trans hl)
    · exact .fastHit p hlast (hc.last_covers hlast htagset)
  · rw [State.lookup, if_neg htagset]
    rcases hc.rep.searchSet (g.cacheSet addr) (g.cacheTag addr) with ⟨r, hsearch, hr⟩
    rw [hsearch]
    rcases r with _ | b
    · refine ⟨.miss, rfl, .miss fun b hb => ?_⟩
      exact absurd ((hr b).mpr ⟨hb.1, hb.2.2⟩) (by simp only [reduceCtorEq, not_false_eq_true])
    · have hb := (hr b).mp rfl
      exact ⟨.hit (g.cacheSet addr, b), rfl, .hit _ ⟨hb.1, rfl, hb.2⟩⟩

/-- The rule of an access: what has to be shown of each of its ways. -/
theorem serve_rule {s : Sys g σ} (hc : Inv s.cache ord) {cmd : Cmd} {addr : Addr} {now : Tick}
    {prefetch : Bool} {Q : Answer g × Sys g σ → Prop}
    (hmiss : (∀ b, ¬ Holds s.cache (g.cacheSet addr, b) addr) →
      Ends (Expected g) (State.fill out cmd addr now prefetch s.cache s.env)
        fun r => Q (.miss r.lat, r.sys))
    (hhit : ∀ p, Holds s.cache p addr → Ends (Expected g) (s.cache.touch cmd addr prefetch p)
      fun c => Q (.hit (some p), { cache := c, env := s.env.note (.hit p cmd addr prefetch) }))
    (hfast : ∀ p, s.cache.lastBlk = some p → Covers s.cache p addr →
      Ends (Expected g) (s.cache.fastTouch cmd addr prefetch (some p))
        fun c => Q (.hit (some p), { cache := c, env := s.env.note (.hit p cmd addr prefetch) }))
    (hnull : g.cacheBaddr addr = 0 → Ends (Expected g) (s.cache.fastTouch cmd addr prefetch none)
      fun c => Q (.hit none, { cache := c, env := s.env })) :
    Ends (Expected g) (serve out cmd addr now prefetch s) Q := by
  rcases lookup_eq hc addr with ⟨path, hlookup, hfinds⟩
  rw [serve, hlookup]
  cases hfinds with
  | miss h => exact (hmiss h).bind fun r hr => .ret hr
  | hit p hp => exact (hhit p hp).bind fun c hr => .ret hr
  | fastHit p hlast hp => exact (hfast p hlast hp).bind fun c hr => .ret hr
  | null hlast h => exact (hnull h).bind fun c hr => .ret hr

/-- An access is served by a hit or a miss. -/
theorem serve_ends {s : Sys g σ} (hc : Inv s.cache ord) (cmd : Cmd) (addr : Addr) (now : Tick)
    (prefetch : Bool) : Ends (Expected g) (serve out cmd addr now prefetch s) fun r => ∃ ord',
      Inv r.2.cache ord' ∧ Served s r.2 ord ord' cmd addr prefetch r.1 := by
  refine serve_rule hc (fun hmiss => ?_) (fun p hp => ?_) (fun p hlast hp => ?_) fun h => ?_
  · refine (fill_ends hc cmd addr now prefetch hmiss).mono fun r hr => ?_
    rcases hr with ⟨p, ord', hinv, hreplaced⟩
    exact ⟨ord', hinv, .miss _ p hmiss hreplaced⟩
  · rcases touch_eq hc hp cmd prefetch with ⟨c', ord', heq, hinv, htouched⟩
    rw [heq]
    exact .ret ⟨ord', hinv, .hit p hp.covers htouched rfl⟩
  · rcases fastTouch_eq hc hlast hp cmd prefetch with ⟨c', heq, hinv, htouched⟩
    rw [heq]
    exact .ret ⟨ord, hinv, .hit p hp htouched rfl⟩
  · rw [State.fastTouch]
    cases cmd with
    | Write => exact .fail h
    | Read =>
        have hsets := sets_countHit s.cache .Read prefetch
        refine .ret ⟨ord, ⟨hc.rep.congr hsets, h⟩, .null h hsets rfl ?_ rfl⟩
        cases prefetch <;> rfl

end Access

/-! ### Flushes -/

/-- A valid block is invalidated. -/
structure Invalidated (s s' : Sys g σ) (p : BlkPtr g) : Prop where
  valid : (s.cache.blk p).valid
  tag : ∀ q, (s'.cache.blk q).tag = (s.cache.blk q).tag
  status : ∀ q, (s'.cache.blk q).status
    = if q = p then clearedStatus (s.cache.blk q).status else (s.cache.blk q).status
  writebacks : s'.cache.writebacks = s.cache.writebacks + writesBack s.cache p
  log : s'.env.log = departure s.cache p ++ s.env.log

theorem Invalidated.valid_iff {s s' : Sys g σ} {p : BlkPtr g} (h : Invalidated s s' p)
    (q : BlkPtr g) : (s'.cache.blk q).valid ↔ (s.cache.blk q).valid ∧ q ≠ p := by
  rw [Blk.valid, h.status]
  by_cases heq : q = p
  · rw [if_pos heq, valid_clearedStatus]
    exact ⟨fun hne => absurd rfl (bne_iff_ne.mp hne), fun hne => absurd heq hne.2⟩
  · rw [if_neg heq, ← Blk.valid]
    exact ⟨fun hq => ⟨hq, heq⟩, fun hq => hq.1⟩

/-- Blocks are invalidated, one after the other. -/
abbrev Emptied (s s' : Sys g σ) : Prop :=
  Relation.ReflTransGen (fun s s' => ∃ p, Invalidated s s' p) s s'

theorem Emptied.valid_of {s s' : Sys g σ} (h : Emptied s s') {q : BlkPtr g}
    (hq : (s'.cache.blk q).valid) : (s.cache.blk q).valid := by
  induction h with
  | refl => exact hq
  | tail _ hstep ih =>
      rcases hstep with ⟨p, hp⟩
      exact ih ((hp.valid_iff q).mp hq).1

section Flush

variable {ord : Order g} {out : Outside σ}

theorem invalidate_ends {p : BlkPtr g} (now : Tick) (r : State.Timed g σ)
    (hc : Rep (fun _ => True) r.cache ord) (hvalid : (r.cache.blk p).valid) :
    Ends (Expected g) (State.invalidate out now p r) fun r' =>
      Rep (fun _ => True) r'.cache ord ∧ r'.cache.lastTagset = r.cache.lastTagset ∧
        r'.cache.lastBlk = r.cache.lastBlk ∧ Invalidated r.sys r'.sys p := by
  -- The valid bit is cleared before the block is written back.
  let c : State g := State.modifyBlk { r.cache with invalidations := r.cache.invalidations + 1 } p
    fun b => { b with status := b.status &&& ~~~ CACHE_BLK_VALID }
  have hblk : ∀ q, c.blk q = if q = p then
      { r.cache.blk q with status := clearedStatus (r.cache.blk q).status } else r.cache.blk q :=
    fun q => State.blk_modifyBlk _ p q _
  have htag : ∀ q, (c.blk q).tag = (r.cache.blk q).tag := by
    intro q
    rw [hblk]
    split <;> rfl
  have hstatus : ∀ q, (c.blk q).status
      = if q = p then clearedStatus (r.cache.blk q).status else (r.cache.blk q).status := by
    intro q
    rw [hblk]
    split <;> rfl
  -- Which does not hide from the write-back that it is dirty.
  have hdirty : (c.blk p).dirty = (r.cache.blk p).dirty := by
    rw [Blk.dirty, hstatus, if_pos rfl, dirty_clearedStatus, ← Blk.dirty]
  have hrep : Rep (fun _ => True) c ord := by
    refine (hc.congr rfl).modifyBlk p (fun _ => rfl) (fun _ => rfl) (fun _ => rfl) fun _ x =>
      ⟨rfl, fun hx => ?_⟩
    have hbits := valid_clearedStatus x.status
    rw [Blk.valid] at hx
    exact absurd hbits (bne_iff_ne.mp hx)
  refine (writeBack_ends now p { r with cache := c, env := r.env.note (.leave p) }).mono
    fun r' hr' => ?_
  rcases hr' with ⟨hsets, hwb, hlog⟩
  have hr : ∀ q, r'.cache.blk q = c.blk q := fun q => blk_congr hsets.sets q
  refine ⟨hrep.congr hsets.sets, hsets.lastTagset, hsets.lastBlk, hvalid, fun q => ?_, fun q => ?_,
    ?_, ?_⟩
  · exact (congrArg Blk.tag (hr q)).trans (htag q)
  · exact (congrArg Blk.status (hr q)).trans (hstatus q)
  · refine hwb.trans ?_
    change r.cache.writebacks + _ = r.cache.writebacks + writesBack r.cache p
    rw [writesBack]
    simp only [hdirty, hvalid, true_and]
  · refine hlog.trans ?_
    change (if (c.blk p).dirty then [Event.call .Write (c.baddr p)] else [])
      ++ .leave p :: r.env.log = departure r.cache p ++ r.env.log
    rw [hdirty, baddr_congr (htag p), departure, if_pos hvalid]
    split <;> rfl

/-- A block is invalid after a flush has come to it. -/
theorem flushBlk_ends {p : BlkPtr g} (now : Tick) (r : State.Timed g σ)
    (hc : Rep (fun _ => True) r.cache ord) : Ends (Expected g) (State.flushBlk out now p r)
      fun r' => Rep (fun _ => True) r'.cache ord ∧ r'.cache.lastTagset = r.cache.lastTagset ∧
        r'.cache.lastBlk = r.cache.lastBlk ∧ Emptied r.sys r'.sys ∧ ¬ (r'.cache.blk p).valid := by
  refine Ends.ite (fun hvalid => ?_) fun hvalid => .ret ⟨hc, rfl, rfl, .refl, hvalid⟩
  refine (invalidate_ends now r hc hvalid).mono fun r' hr' => ?_
  rcases hr' with ⟨hrep, htagset, hlast, hinv⟩
  exact ⟨hrep, htagset, hlast, .single ⟨p, hinv⟩, fun h => ((hinv.valid_iff p).mp h).2 rfl⟩

/-- The loop of a flush, whose way list runs through the remaining blocks. -/
theorem flushSet_ends (now : Tick) (i : Fin g.nsets) (cells : List (Fin g.assoc)) :
    ∀ (pre : List (Fin g.assoc)) (fuel : Nat) (r : State.Timed g σ), ord i = pre ++ cells →
      cells.length ≤ fuel → Rep (fun _ => True) r.cache ord →
      Ends (Expected g) (State.flushSet out now i fuel cells.head? r) fun r' =>
        Rep (fun _ => True) r'.cache ord ∧ r'.cache.lastTagset = r.cache.lastTagset ∧
          r'.cache.lastBlk = r.cache.lastBlk ∧ Emptied r.sys r'.sys ∧
          ∀ b ∈ cells, ¬ (r'.cache.blk (i, b)).valid := by
  induction cells with
  | nil =>
      intro pre fuel r _ _ hc
      rw [List.head?_nil, State.flushSet]
      exact .ret ⟨hc, rfl, rfl, .refl, fun b hb => absurd hb List.not_mem_nil⟩
  | cons b cells ih =>
      intro pre fuel r hord hfuel hc
      rcases fuel with _ | fuel
      · exact absurd hfuel (Nat.not_succ_le_zero _)
      rw [List.head?_cons, State.flushSet]
      refine (flushBlk_ends (p := (i, b)) now r hc).bind fun r₁ hr₁ => ?_
      rcases hr₁ with ⟨hrep, htagset, hlast, hemptied, hinvalid⟩
      have hnext : (r₁.cache.blk (i, b)).wayNext = cells.head? := by
        have hlinked := (hrep i).linked
        rw [hord] at hlinked
        exact hlinked.next_eq
      rw [hnext]
      refine (ih (pre ++ [b]) fuel r₁ (hord.trans (List.append_cons pre b cells))
        (Nat.le_of_succ_le_succ hfuel) hrep).mono fun r₂ hr₂ => ?_
      rcases hr₂ with ⟨hrep₂, htagset₂, hlast₂, hemptied₂, hinvalid₂⟩
      refine ⟨hrep₂, htagset₂.trans htagset, hlast₂.trans hlast, hemptied.trans hemptied₂,
        fun x hx hvalid => ?_⟩
      rcases List.mem_cons.mp hx with rfl | hx
      · exact hinvalid (hemptied₂.valid_of hvalid)
      · exact hinvalid₂ x hx hvalid

theorem flush_ends {c : State g} (hc : Inv c ord) (now : Tick) (e : Env g σ) :
    Ends (Expected g) (State.flush out now c e) fun r =>
      Inv r.cache ord ∧
      Emptied { cache := { c with lastTagset := 0, lastBlk := none }, env := e.note .flush } r.sys ∧
      ∀ p, ¬ (r.cache.blk p).valid := by
  let r₀ : State.Timed g σ :=
    { lat := g.hitLatency, cache := { c with lastTagset := 0, lastBlk := none }
      env := e.note .flush }
  have hloop : Ends (Expected g) ((List.finRange g.nsets).foldlM
      (fun r i => State.flushSet out now i g.assoc (r.cache.sets i).wayHead r) r₀) _ :=
    Ends.foldlM (fun pre r => Rep (fun _ => True) r.cache ord ∧ r.cache.lastTagset = 0 ∧
      r.cache.lastBlk = none ∧ Emptied r₀.sys r.sys ∧
      ∀ i ∈ pre, ∀ b, ¬ (r.cache.blk (i, b)).valid)
    (List.finRange g.nsets)
    ⟨hc.rep.congr rfl, rfl, rfl, .refl, fun i hi => absurd hi List.not_mem_nil⟩ ?_
  · refine hloop.mono fun r hr => ?_
    rcases hr with ⟨hrep, htagset, hlast, hemptied, hinvalid⟩
    refine ⟨⟨hrep, ?_⟩, hemptied, fun p => hinvalid p.1 (List.mem_finRange p.1) p.2⟩
    rw [LastBlock, hlast]
    exact htagset
  · intro pre i r _ hr
    rcases hr with ⟨hrep, htagset, hlast, hemptied, hinvalid⟩
    have hhead : (r.cache.sets i).wayHead = (ord i).head? := (hrep i).linked.head_eq
    have hlength : (ord i).length ≤ g.assoc := by
      have hcard := (hrep i).linked.nodup.length_le_card
      rwa [Fintype.card_fin] at hcard
    rw [hhead]
    refine (flushSet_ends now i (ord i) [] g.assoc r rfl hlength hrep).mono fun r' hr' => ?_
    rcases hr' with ⟨hrep', htagset', hlast', hemptied', hinvalid'⟩
    refine ⟨hrep', htagset'.trans htagset, hlast'.trans hlast, hemptied.trans hemptied',
      fun j hj b hvalid => ?_⟩
    rcases List.mem_append.mp hj with hj | hj
    · exact hinvalid j hj b (hemptied'.valid_of hvalid)
    · rw [List.mem_singleton] at hj
      subst hj
      exact hinvalid' b ((hrep' j).complete b) hvalid

/-- The order after a block was moved to the end of its set. -/
def toBack (ord : Order g) (p : BlkPtr g) : Order g :=
  Function.update ord p.1 ((ord p.1).erase p.2 ++ [p.2])

/-- What `cache_flush_addr` does: nothing, or the block that holds the address
    is invalidated. -/
inductive FlushedAddr (s s' : Sys g σ) (ord ord' : Order g) (addr : Addr) : Prop
  | miss (hmiss : ∀ b, ¬ Holds s.cache (g.cacheSet addr, b) addr) (hcache : s'.cache = s.cache)
      (hord : ord' = ord) (hlog : s'.env.log = .flushAddr addr :: s.env.log) :
      FlushedAddr s s' ord ord' addr
  | hit (p : BlkPtr g) (hp : Holds s.cache p addr)
      (h : Invalidated { s with env := s.env.note (.flushAddr addr) } s' p)
      (hord : ord' = toBack ord p) : FlushedAddr s s' ord ord' addr

theorem flushAddr_ends {c : State g} (hc : Inv c ord) (addr : Addr) (now : Tick) (e : Env g σ) :
    Ends (Expected g) (State.flushAddr out addr now c e) fun r => ∃ ord', Inv r.cache ord' ∧
      FlushedAddr { cache := c, env := e } r.sys ord ord' addr := by
  rcases hc.rep.searchSet (g.cacheSet addr) (g.cacheTag addr) with ⟨found, hsearch, hfound⟩
  rw [State.flushAddr, hsearch]
  rcases found with _ | b
  · refine .ret ⟨ord, hc, .miss (fun b hb => ?_) rfl rfl rfl⟩
    exact absurd ((hfound b).mpr ⟨hb.1, hb.2.2⟩) (by simp only [reduceCtorEq, not_false_eq_true])
  · have hb := (hfound b).mp rfl
    let p : BlkPtr g := (g.cacheSet addr, b)
    let r₀ : State.Timed g σ :=
      { lat := g.hitLatency, cache := { c with lastTagset := 0, lastBlk := none }
        env := e.note (.flushAddr addr) }
    change Ends _ (do
      let r ← State.invalidate out now p r₀
      let s ← (r.cache.sets p.1).updateWayList p.2 .Tail
      return { r with cache := r.cache.modifySet p.1 fun _ => s }) _
    refine (invalidate_ends (p := p) now r₀ (hc.rep.congr rfl) hb.1).bind fun r hr => ?_
    rcases hr with ⟨hrep, htagset, hlast, hinv⟩
    rcases hrep.move p .Tail with ⟨s, heq, hrep', hdata⟩
    rw [heq]
    refine .ret ⟨toBack ord p, ⟨hrep', ?_⟩, .hit p ⟨hb.1, rfl, hb.2⟩
      ⟨hb.1, fun q => ?_, fun q => ?_, hinv.writebacks, hinv.log⟩ rfl⟩
    · rw [LastBlock, show (r.cache.modifySet p.1 fun _ => s).lastBlk = none from hlast]
      exact htagset
    · exact (Blk.tag_of_data (hdata q)).trans (hinv.tag q)
    · exact (Blk.status_of_data (hdata q)).trans (hinv.status q)

end Flush

end Cache

end MicroArch
