import MicroArch.Cache.Coherence

/-!
# Write-Backs

The residencies of blocks, as the log tells of them: from the fill of a block,
through the hits on it, to the end when it is replaced or invalidated. A
residency in which the block was written ends in one write-back, of the block
that was accessed, and there are no other write-backs.

The dirty bit of a block is what the cache knows of this. It is set by every
write, and it survives the end of a residency, but a fill resets it.

The address of a write-back is not in the block. It is put together from the
tag of the block and the number of its set, and these give the block that was
accessed where the sets fit into the memory. In a cache whose tags are shifted
by 32 bits the tag of a block is the whole address that filled it, and that is
where the block is written back.

## Main definitions

* `residency`: The residency of a block at some point of the log.
* `Lawful`: The log has the write-backs it should have.
* `Tracks`: What valid and dirty bits mean.

## Theorems

* `Tracks.departure`: The end of a residency.
* `run_writesBackOnce`: The log is lawful after every run of a cache that fits
  into the memory.
* `written_elsewhere`: A write-back in a cache that does not.
-/

namespace MicroArch

namespace Cache

variable {g : Geometry} {σ ω : Type}

/-- The addresses accessed in a residency, and whether one of the accesses was
    a write. -/
structure Residency where
  addrs : List Addr
  written : Bool

/-- The residency of a block after the entries of a log, the latest first. -/
def residency (p : BlkPtr g) : List (Event g) → Option Residency
  | [] => none
  | .fill q cmd addr _ _ :: log =>
      if q = p then some { addrs := [addr], written := cmd = .Write } else residency p log
  | .hit q cmd addr _ :: log =>
      if q = p then
        (residency p log).map fun r =>
          { addrs := addr :: r.addrs, written := r.written || cmd = .Write }
      else residency p log
  | .leave q :: log => if q = p then none else residency p log
  | _ :: log => residency p log

/-- The number of calls that write. -/
def writeCalls : List (Event g) → Nat
  | [] => 0
  | .call .Write _ :: log => writeCalls log + 1
  | _ :: log => writeCalls log

/-- A log with the write-backs it should have. Residencies begin with a fill
    and all their accesses are to one block of memory. When one ends in which
    the block was written, the next entry is the call that writes that block,
    and only there are such calls. -/
inductive Lawful : List (Event g) → Prop
  | nil : Lawful []
  | hit {log : List (Event g)} {p : BlkPtr g} {r : Residency} (cmd : Cmd) (addr : Addr)
      (prefetch : Bool) (hlog : Lawful log) (hr : residency p log = some r)
      (hblock : ∀ a ∈ r.addrs, g.cacheBaddr a = g.cacheBaddr addr) :
      Lawful (.hit p cmd addr prefetch :: log)
  | fill {log : List (Event g)} {p : BlkPtr g} (cmd : Cmd) (addr : Addr) (prefetch : Bool)
      (replaced : Option Addr) (hlog : Lawful log) (hr : residency p log = none) :
      Lawful (.fill p cmd addr prefetch replaced :: log)
  | leaveClean {log : List (Event g)} {p : BlkPtr g} {r : Residency} (hlog : Lawful log)
      (hr : residency p log = some r) (hclean : r.written = false) : Lawful (.leave p :: log)
  | leaveWritten {log : List (Event g)} {p : BlkPtr g} {r : Residency} {baddr : Addr}
      (hlog : Lawful log) (hr : residency p log = some r) (hwritten : r.written = true)
      (hblock : ∀ a ∈ r.addrs, g.cacheBaddr a = baddr) :
      Lawful (.call .Write baddr :: .leave p :: log)
  | read {log : List (Event g)} (baddr : Addr) (hlog : Lawful log) :
      Lawful (.call .Read baddr :: log)
  | flush {log : List (Event g)} (hlog : Lawful log) : Lawful (.flush :: log)
  | flushAddr {log : List (Event g)} (addr : Addr) (hlog : Lawful log) :
      Lawful (.flushAddr addr :: log)
  | generate {log : List (Event g)} (PC addr : Addr) (c : State g) (t : Tables)
      (hlog : Lawful log) : Lawful (.generate PC addr c t :: log)

/-- What the valid and dirty bits of a cache mean. -/
structure Tracks (c : State g) (log : List (Event g)) : Prop where
  lawful : Lawful log
  writebacks : c.writebacks = writeCalls log
  invalid : ∀ p, residency p log = none → ¬ (c.blk p).valid
  valid : ∀ p r, residency p log = some r → (c.blk p).valid ∧ (c.blk p).dirty = r.written ∧
    ∀ a ∈ r.addrs, p.1 = g.cacheSet a ∧ (c.blk p).tag = g.cacheTag a

section Tracks

variable {c c' : State g} {log : List (Event g)}

theorem Tracks.residency_of_valid (h : Tracks c log) {p : BlkPtr g} (hp : (c.blk p).valid) :
    ∃ r, residency p log = some r := by
  rcases hr : residency p log with _ | r
  · exact absurd hp (h.invalid p hr)
  · exact ⟨r, rfl⟩

/-- The accesses of a residency are to the block that would be written back. -/
theorem Tracks.baddr (h : Tracks c log) (hfits : g.Fits) {p : BlkPtr g} {r : Residency}
    (hr : residency p log = some r) : ∀ a ∈ r.addrs, g.cacheBaddr a = c.baddr p := by
  intro a ha
  rcases h.valid p r hr with ⟨-, -, hparts⟩
  rw [State.baddr, (hparts a ha).2, (hparts a ha).1, g.cacheMkBaddr_tag_set hfits]

/-- The end of a residency. -/
theorem Tracks.departure (h : Tracks c log) (hfits : g.Fits) (p : BlkPtr g) :
    Lawful (departure c p ++ log) ∧
    writeCalls (departure c p ++ log) = writeCalls log + writesBack c p ∧
    ∀ q, residency q (departure c p ++ log) = if p = q then none else residency q log := by
  rw [Cache.departure, writesBack]
  -- A block leaves when it is valid, and with a write-back when it is dirty.
  by_cases hvalid : (c.blk p).valid
  · rcases h.residency_of_valid hvalid with ⟨r, hr⟩
    have hwritten := (h.valid p r hr).2.1
    by_cases hdirty : (c.blk p).dirty
    · rw [if_pos hvalid, if_pos hdirty, if_pos ⟨hvalid, hdirty⟩]
      exact ⟨.leaveWritten h.lawful hr (hwritten.symm.trans hdirty) (h.baddr hfits hr), rfl,
        fun _ => rfl⟩
    · rw [if_pos hvalid, if_neg hdirty, if_neg fun hboth => hdirty hboth.2]
      rw [Bool.not_eq_true] at hdirty
      exact ⟨.leaveClean h.lawful hr (hwritten.symm.trans hdirty), rfl, fun _ => rfl⟩
  · rw [if_neg hvalid, if_neg fun hboth => hvalid hboth.1]
    refine ⟨h.lawful, rfl, fun q => ?_⟩
    split
    · rename_i heq
      rcases hr : residency q log with _ | r
      · exact hr
      · rw [heq] at hvalid
        exact absurd (h.valid q r hr).1 hvalid
    · rfl

theorem Tracks.touched {ord ord' : Order g} {cmd : Cmd} {addr : Addr} {p : BlkPtr g}
    (h : Tracks c log) (hfits : g.Fits) (hp : Holds c p addr) (ht : Touched c c' ord ord' cmd p)
    (prefetch : Bool) : Tracks c' (.hit p cmd addr prefetch :: log) := by
  rcases h.residency_of_valid hp.1 with ⟨r, hr⟩
  rcases h.valid p r hr with ⟨-, hdirty, hparts⟩
  -- All accesses of a residency are to one block of memory.
  have hblock : ∀ a ∈ r.addrs, g.cacheBaddr a = g.cacheBaddr addr := by
    intro a ha
    rw [g.cacheBaddr_eq_iff hfits, ← (hparts a ha).1, ← (hparts a ha).2]
    exact ⟨hp.2.2, hp.2.1⟩
  refine ⟨.hit cmd addr prefetch h.lawful hr hblock, ?_, fun q hq => ?_, fun q r' hq => ?_⟩
  · rw [ht.writebacks, h.writebacks]
    rfl
  · rw [ht.valid]
    rw [residency] at hq
    -- In the place of the hit the residency goes on with one more address.
    by_cases heq : p = q
    · rw [if_pos heq, ← heq, hr] at hq
      exact absurd hq (by simp only [Option.map_some, reduceCtorEq, not_false_eq_true])
    · rw [if_neg heq] at hq
      exact h.invalid q hq
  · rw [residency] at hq
    rw [ht.valid, ht.tag]
    by_cases heq : p = q
    · subst heq
      rw [if_pos rfl, hr, Option.map_some, Option.some.injEq] at hq
      subst hq
      refine ⟨hp.1, ?_, fun a ha => ?_⟩
      · -- A write hit sets the dirty bit, and the residency is a written one from now on.
        rw [Blk.dirty, ht.status, if_pos rfl, dirty_markedStatus, ← hdirty]
        cases cmd with
        | Read =>
            rw [if_neg Cmd.noConfusion, ← Blk.dirty, decide_eq_false Cmd.noConfusion, Bool.or_false]
        | Write => rw [if_pos rfl, decide_eq_true rfl, Bool.or_true]; rfl
      · rcases List.mem_cons.mp ha with rfl | ha
        · exact hp.2
        · exact hparts a ha
    · rw [if_neg heq] at hq
      have hq' := h.valid q r' hq
      have hsame : (c'.blk q).dirty = (c.blk q).dirty := by
        rw [Blk.dirty, ht.status, if_neg (Ne.symm heq), ← Blk.dirty]
      rw [hsame]
      exact hq'

theorem Tracks.replaced {s s' : Sys g σ} {ord ord' : Order g} {cmd : Cmd} {addr : Addr}
    {prefetch : Bool} {p : BlkPtr g} (h : Tracks s.cache s.env.log) (hfits : g.Fits)
    (hr : Replaced s s' ord ord' cmd addr prefetch p) : Tracks s'.cache s'.env.log := by
  rcases h.departure hfits p with ⟨hlawful, hwrites, hres⟩
  rw [hr.log]
  refine ⟨.fill cmd addr prefetch _ (.read _ hlawful) ?_, ?_, fun q hq => ?_, fun q r hq => ?_⟩
  · exact (hres p).trans (if_pos rfl)
  · rw [hr.writebacks, h.writebacks, ← hwrites]
    rfl
  · rw [residency] at hq
    -- The place of the miss starts a new residency with the address of the access.
    by_cases heq : p = q
    · rw [if_pos heq] at hq
      exact absurd hq (Option.some_ne_none _)
    · -- The end of the residency in this place leaves the others alone.
      rw [if_neg heq] at hq
      change residency q (Cache.departure s.cache p ++ s.env.log) = none at hq
      rw [hres, if_neg heq] at hq
      rw [hr.valid_iff]
      exact fun hor => h.invalid q hq (hor.resolve_left (Ne.symm heq))
  · rw [residency] at hq
    rw [hr.valid_iff, hr.tag, Blk.dirty, hr.status]
    by_cases heq : p = q
    · subst heq
      rw [if_pos rfl, Option.some.injEq] at hq
      subst hq
      rw [if_pos rfl, if_pos rfl]
      refine ⟨Or.inl rfl, ?_, fun a ha => ?_⟩
      · rw [dirty_markedStatus]
        cases cmd with
        | Read => rw [if_neg Cmd.noConfusion, decide_eq_false Cmd.noConfusion]; rfl
        | Write => rw [if_pos rfl, decide_eq_true rfl]; rfl
      · rw [List.mem_singleton.mp ha]
        exact ⟨hr.set, rfl⟩
    · rw [if_neg heq] at hq
      change residency q (Cache.departure s.cache p ++ s.env.log) = some r at hq
      rw [hres, if_neg heq] at hq
      rw [if_neg (Ne.symm heq), if_neg (Ne.symm heq), ← Blk.dirty]
      rcases h.valid q r hq with ⟨hq, hrest⟩
      exact ⟨Or.inr hq, hrest⟩

theorem Tracks.invalidated {s s' : Sys g σ} {p : BlkPtr g} (h : Tracks s.cache s.env.log)
    (hfits : g.Fits) (hi : Invalidated s s' p) : Tracks s'.cache s'.env.log := by
  rcases h.departure hfits p with ⟨hlawful, hwrites, hres⟩
  rw [hi.log]
  refine ⟨hlawful, ?_, fun q hq => ?_, fun q r hq => ?_⟩
  · rw [hi.writebacks, h.writebacks, hwrites]
  · rw [hi.valid_iff]
    rw [hres] at hq
    -- The place is empty afterwards, and the others are as they were.
    by_cases heq : p = q
    · exact fun hboth => hboth.2 heq.symm
    · rw [if_neg heq] at hq
      exact fun hboth => h.invalid q hq hboth.1
  · rw [hres] at hq
    by_cases heq : p = q
    · rw [if_pos heq] at hq
      exact absurd hq.symm (Option.some_ne_none _)
    · rw [if_neg heq] at hq
      rw [hi.valid_iff, hi.tag, Blk.dirty, hi.status, if_neg (Ne.symm heq), ← Blk.dirty]
      rcases h.valid q r hq with ⟨hq, hrest⟩
      exact ⟨⟨hq, Ne.symm heq⟩, hrest⟩

theorem Tracks.emptied {s s' : Sys g σ} (h : Tracks s.cache s.env.log) (hfits : g.Fits)
    (he : Emptied s s') : Tracks s'.cache s'.env.log := by
  induction he with
  | refl => exact h
  | tail _ hstep ih =>
      rcases hstep with ⟨p, hp⟩
      exact ih.invalidated hfits hp

/-- The log has entries that do not concern the blocks. -/
theorem Tracks.congr {log' : List (Event g)} (h : Tracks c log) (hsets : c'.sets = c.sets)
    (hwb : c'.writebacks = c.writebacks) (hlawful : Lawful log')
    (hcalls : writeCalls log' = writeCalls log)
    (hres : ∀ p, residency p log' = residency p log) : Tracks c' log' := by
  have hblk : ∀ p, c'.blk p = c.blk p := fun p => blk_congr hsets p
  refine ⟨hlawful, ?_, fun p hp => ?_, fun p r hr => ?_⟩
  · rw [hwb, h.writebacks, hcalls]
  · rw [hblk]
    exact h.invalid p ((hres p).symm.trans hp)
  · rw [hblk]
    exact h.valid p r ((hres p).symm.trans hr)

end Tracks

/-- Every operation keeps the meaning of the valid and dirty bits. -/
theorem effectInvariant_tracks (hfits : g.Fits) :
    EffectInvariant fun (_ : Order g) (s : Sys g (Tables × ω)) => Tracks s.cache s.env.log where
  served := by
    intro s s' ord ord' cmd addr prefetch answer _ ht hserved
    cases hserved with
    | miss lat p hmiss hreplaced => exact ht.replaced hfits hreplaced
    -- A hit is to the block held there, as the tags of blocks that fit tell them apart.
    | hit p hp htouched hlog =>
        rw [hlog]
        exact ht.touched hfits (hp.holds hfits) htouched prefetch
    | null hzero hsets hord hwb hlog =>
        rw [hlog]
        exact ht.congr hsets hwb ht.lawful rfl fun _ => rfl
  predicted _ _ _ ht := ht.congr rfl rfl (.generate _ _ _ _ ht.lawful) rfl fun _ => rfl
  flushed := by
    intro s s' ord ht hemptied _
    have hnoted : Tracks { s.cache with lastTagset := 0, lastBlk := none } (.flush :: s.env.log) :=
      ht.congr rfl rfl (.flush ht.lawful) rfl fun _ => rfl
    exact Tracks.emptied hnoted hfits hemptied
  flushedAddr := by
    intro s s' ord ord' addr _ ht hflushed
    have hnoted : Tracks s.cache (.flushAddr addr :: s.env.log) :=
      ht.congr rfl rfl (.flushAddr addr ht.lawful) rfl fun _ => rfl
    cases hflushed with
    | miss hmiss hcache hord hlog =>
        rw [hlog, hcache]
        exact hnoted
    | hit p hp hinv hord => exact Tracks.invalidated hnoted hfits hinv

theorem tracks_create (g : Geometry) : Tracks (cacheCreate g) [] where
  lawful := .nil
  writebacks := rfl
  invalid p _ := by
    rw [Blk.valid_of_status (status_create p)]
    exact Bool.false_ne_true
  valid p r hr := absurd hr.symm (Option.some_ne_none r)

/-- In a cache whose sets fit into the memory, every residency in which the
    block was written ends with one write-back of the block of memory that was
    accessed, every other one with none, and nothing else is written back. The
    counter counts these calls, and the residencies that have not ended are
    those of the valid blocks. -/
theorem run_writesBackOnce (g : Geometry) (hfits : g.Fits) (out : Outside (Tables × ω))
    (t : Tables) (w : ω) (ops : List Op) : Ends (Expected g) (run g out t w ops) fun s =>
      Lawful s.env.log ∧ s.cache.writebacks = writeCalls s.env.log ∧
      ∀ p, (residency p s.env.log).isSome ↔ (s.cache.blk p).valid := by
  have hinvariant := (effectInvariant_tracks hfits).runInvariant out
  refine (hinvariant.run ⟨_, Inv.create g, tracks_create g⟩ ops).mono fun s hs => ?_
  rcases hs with ⟨ord, -, ht⟩
  -- A residency goes on in the log exactly where a block is valid in the cache.
  refine ⟨ht.lawful, ht.writebacks, fun p => ⟨fun hsome => ?_, fun hvalid => ?_⟩⟩
  · rcases Option.isSome_iff_exists.mp hsome with ⟨r, hr⟩
    exact (ht.valid p r hr).1
  · rcases ht.residency_of_valid hvalid with ⟨r, hr⟩
    rw [hr, Option.isSome_some]

/-- A write of a block by a hit, its replacement by a prefetch, and two
    flushes. -/
theorem run_writesBackOnce_nextLine : ∃ s, run nextLine memory (Tables.initial.create 1) ()
      [.demand 4 .Read 8 1 0, .demand 4 .Write 12 4 0, .demand 4 .Read 40 1 0,
        .demand 4 .Write 48 1 0, .flushAddr 48 0, .flush 0] = .ok s ∧
    s.cache.writebacks = 2 ∧ Lawful s.env.log ∧ s.cache.writebacks = writeCalls s.env.log ∧
    ∀ p, (residency p s.env.log).isSome ↔ (s.cache.blk p).valid := by
  have hends : ∃ s, run nextLine memory (Tables.initial.create 1) ()
      [.demand 4 .Read 8 1 0, .demand 4 .Write 12 4 0, .demand 4 .Read 40 1 0,
        .demand 4 .Write 48 1 0, .flushAddr 48 0, .flush 0] = .ok s ∧ s.cache.writebacks = 2 :=
    ⟨_, rfl, by decide +kernel⟩
  rcases hends with ⟨s, hrun, hwrites⟩
  exact ⟨s, hrun, hwrites, (run_writesBackOnce nextLine (by decide) memory _ () _).of_eq hrun⟩

/-- Four sets of one block, which are as large as the memory. The block size is
    two to the power of 30, and the tag of an address is the address. -/
def wholeMemory : Geometry :=
  { oneBlock with
    nsets := 4, bsize := 1073741824
    nsets_pos := pos_four, nsets_pow := powerOfTwo_four, nsets_lt := four_lt_int
    bsize_le := by decide, bsize_pow := by decide, bsize_lt := by decide }

/-- The entries that show a write-back of another block. -/
theorem not_lawful_elsewhere {log : List (Event g)} {p : BlkPtr g} {r : Residency} {baddr a : Addr}
    (hr : residency p log = some r) (ha : a ∈ r.addrs) (hne : g.cacheBaddr a ≠ baddr) :
    ¬ Lawful (.call .Write baddr :: .leave p :: log) := by
  intro h
  cases h with
  | leaveWritten hlog hr' hwritten hblock =>
      rw [hr, Option.some.injEq] at hr'
      subst hr'
      exact hne (hblock a ha)

/-- Eight bytes into the second block, a byte is written, and all blocks are
    flushed: the write-back is of the address, not of its block. -/
theorem written_elsewhere : ¬ Ends (Expected wholeMemory) (run wholeMemory memory .initial ()
    [.demand 4 .Write 1073741832 1 0, .flush 0]) fun s =>
      Lawful s.env.log ∧ s.cache.writebacks = writeCalls s.env.log ∧
      ∀ p, (residency p s.env.log).isSome ↔ (s.cache.blk p).valid := by
  intro h
  have hends : ∃ s p log, run wholeMemory memory .initial ()
      [.demand 4 .Write 1073741832 1 0, .flush 0] = .ok s ∧
      s.env.log = .call .Write 1073741832 :: .leave p :: log ∧
      residency p log = some { addrs := [1073741832], written := true } :=
    ⟨_, (⟨1, by decide⟩, ⟨0, by decide⟩), _, rfl, rfl, rfl⟩
  -- The only residency is of the address itself, and its block of memory starts before it.
  have hblock : wholeMemory.cacheBaddr 1073741832 ≠ 1073741832 := by decide
  rcases hends with ⟨s, p, log, hrun, hlog, hres⟩
  have hlawful := (h.of_eq hrun).1
  rw [hlog] at hlawful
  exact not_lawful_elsewhere hres List.mem_cons_self hblock hlawful

end Cache

end MicroArch
