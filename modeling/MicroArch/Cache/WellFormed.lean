import MicroArch.Cache.Probes
import MicroArch.Cache.Runs

/-!
# The Sets Stay Well Formed

The invariant of a cache, in full, for every run: the way list of a set is a
doubly linked list of all its blocks, every block is on the one bucket chain
that its tag belongs to, and no two valid blocks have the same tag. It makes
the assertions of the pointer functions hold, and the loops along the pointers
end.

Nothing is assumed of the operations. An access to block address zero may stop
a run, but does not damage a set.

Most properties of runs are shown together with this one, since the effects of
the operations in `Cache.Effect` are those of a well-formed cache.
`EffectInvariant` asks for what such a property has to provide, one field for
each effect, and the invariant of the pointers comes with it.

## Main definitions

* `WellFormed`: The pointers and tags of a set.
* `EffectInvariant`: What has to be shown of a further property.

## Theorems

* `run_wellFormed`: They are well formed after every run.
-/

namespace MicroArch

namespace Cache

open Pointer

variable {g : Geometry} {ω : Type}

/-- The pointers and tags of a set. -/
structure WellFormed (g : Geometry) (s : CacheSet g.assoc g.hsize) : Prop where
  wayList : ∃ l, Linked s.links l ∧ ∀ b, b ∈ l
  chains : ∀ hpos : 0 < g.hsize, ∃ cells : Fin g.hsize → List (Fin g.assoc),
    (∀ index, Chain s.hashLinks (s.hash index) (cells index) ∧ (cells index).Nodup) ∧
    ∀ b index, b ∈ cells index ↔ index = g.cacheHash hpos (s.blks b).tag
  unique : ∀ b b', (s.blks b).valid → (s.blks b').valid → (s.blks b).tag = (s.blks b').tag → b = b'

theorem SetRep.wellFormed {s : CacheSet g.assoc g.hsize} {ord : List (Fin g.assoc)}
    (hs : SetRep g.bucket (fun _ => True) s ord) : WellFormed g s where
  wayList := ⟨ord, hs.linked, hs.complete⟩
  chains hpos := by
    choose cells hcells hnodup hmem using hs.chained
    refine ⟨cells, fun index => ⟨hcells index, hnodup index⟩, fun b index => ?_⟩
    rw [hmem index b, Geometry.bucket, dif_pos hpos, true_and, Option.some.injEq, eq_comm]
  unique b b' := hs.unique b b' trivial trivial

/-- What has to be shown of a property of well-formed caches: the effects of
    the operations keep it. -/
structure EffectInvariant (I : Order g → Sys g (Tables × ω) → Prop) : Prop where
  served : ∀ {s s' ord ord' cmd addr prefetch answer}, Inv s.cache ord → I ord s →
    Served s s' ord ord' cmd addr prefetch answer → I ord' s'
  predicted : ∀ {s ord} PC addr t, I ord s → I ord (s.predicted PC addr t)
  flushed : ∀ {s s' ord}, I ord s →
    Emptied { cache := { s.cache with lastTagset := 0, lastBlk := none }
              env := s.env.note .flush } s' →
    (∀ p, ¬ (s'.cache.blk p).valid) → I ord s'
  flushedAddr : ∀ {s s' ord ord' addr}, Inv s.cache ord → I ord s →
    FlushedAddr s s' ord ord' addr → I ord' s'

/-- Such a property is an invariant, together with the one of the pointers. -/
theorem EffectInvariant.runInvariant {I : Order g → Sys g (Tables × ω) → Prop}
    (h : EffectInvariant I) (out : Outside (Tables × ω)) :
    RunInvariant (Expected g) out fun s => ∃ ord, Inv s.cache ord ∧ I ord s where
  fatal _ _ := trivial
  serve := by
    intro s cmd addr now prefetch hs
    rcases hs with ⟨ord, hc, hI⟩
    -- What an access does is one of the cases of `Served`; only block zero gets no block.
    refine (serve_ends hc cmd addr now prefetch).mono fun r hr => ?_
    rcases hr with ⟨ord', hc', hserved⟩
    refine ⟨⟨ord', hc', h.served hc hI hserved⟩, fun hnone => ?_⟩
    rw [hnone] at hserved
    cases hserved with
    | null h => exact h
  predict := by
    intro s PC addr hs
    rcases hs with ⟨ord, hc, hI⟩
    rw [generatePrefetch_probe hc]
    exact .ret ⟨ord, hc, h.predicted PC addr _ hI⟩
  flush := by
    intro s now hs
    rcases hs with ⟨ord, hc, hI⟩
    exact (flush_ends hc now s.env).mono fun r hr => ⟨ord, hr.1, h.flushed hI hr.2.1 hr.2.2⟩
  flushAddr := by
    intro s addr now hs
    rcases hs with ⟨ord, hc, hI⟩
    refine (flushAddr_ends hc addr now s.env).mono fun r hr => ?_
    rcases hr with ⟨ord', hc', hflushed⟩
    exact ⟨ord', hc', h.flushedAddr hc hI hflushed⟩

/-- Every operation keeps the invariant of the pointers. -/
theorem runInvariant_inv (out : Outside (Tables × ω)) :
    RunInvariant (Expected g) out fun s : Sys g (Tables × ω) => ∃ ord, Inv s.cache ord := by
  -- The property that always holds leaves the one of the pointers.
  have hnothing : EffectInvariant fun (_ : Order g) (_ : Sys g (Tables × ω)) => True :=
    ⟨fun _ _ _ => trivial, fun _ _ _ _ => trivial, fun _ _ _ => trivial, fun _ _ _ => trivial⟩
  simpa only [and_true] using hnothing.runInvariant out

/-- The invariant holds after every run, and when the next access has been
    served. -/
theorem served_inv {out : Outside (Tables × ω)} {t : Tables} {w : ω} {ops : List Op} {cmd : Cmd}
    {addr : Addr} {now : Tick} {prefetch : Bool} {answer : Answer g} {s₀ s : Sys g (Tables × ω)}
    (hrun : run g out t w ops = .ok s₀)
    (hserve : serve out cmd addr now prefetch s₀ = .ok (answer, s)) : ∃ ord, Inv s.cache ord := by
  have hinv := runInvariant_inv (g := g) out
  have hs₀ := (hinv.run ⟨_, Inv.create g⟩ ops).of_eq hrun
  exact ((hinv.serve s₀ cmd addr now prefetch hs₀).of_eq hserve).1

/-- After every run the sets are well formed, and a run is stopped only by the
    checks of an access, in the next level, or by an access to block address
    zero. No assertion fails, no other null pointer is dereferenced, and every
    loop ends. -/
theorem run_wellFormed (g : Geometry) (out : Outside (Tables × ω)) (t : Tables) (w : ω)
    (ops : List Op) : Ends (Expected g) (run g out t w ops) fun s =>
      ∀ i, WellFormed g (s.cache.sets i) := by
  refine ((runInvariant_inv out).run ⟨_, Inv.create g⟩ ops).mono fun s hs i => ?_
  rcases hs with ⟨ord, hc⟩
  exact (hc.rep i).wellFormed

end Cache

end MicroArch
