import MicroArch.Cache.Interference
import MicroArch.Cache.Replacement
import MicroArch.Cache.Residency

/-!
# All Caches of a Hierarchy

What holds of one cache with any surroundings holds of every cache of a
program, whatever lies behind it and however the accesses to the caches
interleave. The misses of a cache are accesses to the next one, which may make
further accesses before the first one goes on.

While a cache serves an access it is in hand, and the world still has it as it
was before. The levels go down, so what lies behind never looks at it.

A fault of the next level ends the access that has called it, and the whole
run. Which faults a run may end with is said of the cache that has the fault,
however far down it is: each level passes on what the next one has.

## Main definitions

* `ExpectedAt`: The faults that a well-formed hierarchy can have at a cache.
* `Everywhere`: Every cache is well formed and has its property.
* `InHand`: So are the caches of the world, and the one in hand.

## Theorems

* `keeps_everywhere`: What lies behind a cache keeps it.
* `sysRun_everywhere`: So does every run.
* `sysRun_caches`: The pointers, the write-backs and the replacements of all
  caches.
-/

namespace MicroArch

namespace Cache

variable {k : Nat} {G : Fin k → Geometry} {ρ : Type} {H : Hierarchy k}
  {draw : ρ → BitVec 32 × ρ}

/-- The faults that an operation on a cache may end with: those of a well-formed
    cache, in this cache or in one that lies behind it. -/
def ExpectedAt (G : Fin k → Geometry) (H : Hierarchy k) : Fin k → Fault → Prop
  | i, .outside fault => ∃ j, H.next i = some j ∧ ExpectedAt G H j fault
  | i, .fatal text addr => Expected (G i) (.fatal text addr)
  | i, .nullBlock addr => Expected (G i) (.nullBlock addr)
  | i, .nullPointer => Expected (G i) .nullPointer
  | i, .assertion name => Expected (G i) (.assertion name)
  | i, .endless => Expected (G i) .endless

/-- A fault of the next level is one that it may end with. -/
def Passed (G : Fin k → Geometry) (H : Hierarchy k) (i : Fin k) (e : Fault) : Prop :=
  ∀ fault, e = .outside fault → ExpectedAt G H i e

theorem passed_internal (G : Fin k → Geometry) (H : Hierarchy k) (i : Fin k) :
    Internal (Passed G H i) where
  nullPointer := nofun
  assertion _ := nofun
  endless := nofun

theorem ExpectedAt.of_passed {i : Fin k} {e : Fault} (h : Expected (G i) e)
    (hpassed : Passed G H i e) : ExpectedAt G H i e := by
  cases e with
  | outside fault => exact hpassed fault rfl
  | fatal text addr => exact h
  | nullBlock addr => exact h
  | nullPointer => exact h
  | assertion name => exact h
  | endless => exact h

/-- Every cache is well formed and has its property, which is one of the cache
    and its log. -/
def Everywhere (I : ∀ i, Order (G i) → State (G i) → List (Event (G i)) → Prop)
    (x : World G ρ) : Prop :=
  ∀ i, ∃ ord, Inv (x.2.caches i) ord ∧ I i ord (x.2.caches i) (x.2.logs i)

/-- The property of the caches of the world, and of the one in hand. -/
structure InHand (I : ∀ i, Order (G i) → State (G i) → List (Event (G i)) → Prop) (j : Fin k)
    (s : Sys (G j) (World G ρ)) : Prop where
  world : Everywhere I s.env.shared
  hand : ∃ ord, Inv s.cache ord ∧ I j ord s.cache s.env.log

section Lift

variable {I : ∀ i, Order (G i) → State (G i) → List (Event (G i)) → Prop}

theorem InHand.put {j : Fin k} {s : Sys (G j) (World G ρ)} (h : InHand I j s) :
    Everywhere I (put j s) := by
  intro i
  -- The cache that was put back has the property in hand, and the others had it before.
  by_cases hi : i = j
  · subst hi
    unfold Cache.put
    dsimp only
    rw [Function.update_self, Function.update_self]
    exact h.hand
  · unfold Cache.put
    dsimp only
    rw [Function.update_of_ne hi, Function.update_of_ne hi]
    exact h.world i

theorem Everywhere.sys {x : World G ρ} (h : Everywhere I x) (j : Fin k) : InHand I j (x.sys j) :=
  ⟨h, h j⟩

/-- A cache keeps the property, if what lies behind it does. Its own faults are
    those of a well-formed cache, and the others come from behind it. -/
theorem runInvariant_inHand
    (hI : ∀ i, EffectInvariant (ω := Others G ρ) fun ord s => I i ord s.cache s.env.log)
    (PC : Addr) (j : Fin k) (hout : Keeps (Passed G H j) (behind H draw PC j) (Everywhere I)) :
    RunInvariant (ExpectedAt G H j) (behind H draw PC j) (InHand (ρ := ρ) I j) where
  fatal _ _ := trivial
  serve := by
    intro s cmd addr now prefetch hs
    have hown := ((hI j).runInvariant (behind H draw PC j)).serve s cmd addr now prefetch hs.hand
    -- The access runs into its own faults or into those that were passed on to it.
    refine (hown.meet (serve_frame hout cmd nofun now prefetch hs.world)
      fun _ he hpassed => .of_passed he hpassed).mono fun r hr => ?_
    exact ⟨⟨hr.2.1, hr.1.1⟩, hr.1.2⟩
  predict := by
    intro s PC' addr hs
    rcases hs.hand with ⟨ord, hc, hown⟩
    rw [generatePrefetch_probe hc]
    exact .ret ⟨hs.world, ord, hc, (hI j).predicted PC' addr _ hown⟩
  flush := by
    intro s now hs
    have hown := ((hI j).runInvariant (behind H draw PC j)).flush s now hs.hand
    refine (hown.meet (flush_frame hout now s.cache hs.world)
      fun _ he hpassed => .of_passed he hpassed).mono fun r hr => ?_
    exact ⟨hr.2.1, hr.1⟩
  flushAddr := by
    intro s addr now hs
    have hown := ((hI j).runInvariant (behind H draw PC j)).flushAddr s addr now hs.hand
    refine (hown.meet (flushAddr_frame hout addr now s.cache hs.world)
      fun _ he hpassed => .of_passed he hpassed).mono fun r hr => ?_
    exact ⟨hr.2.1, hr.1⟩

/-- What lies behind a cache keeps a property of the world, if every access to
    the next level does. -/
theorem keeps_next {allowed : Fault → Prop} (hin : Internal allowed) {W : World G ρ → Prop}
    {PC : Addr} {j : Fin k}
    (hdraw : ∀ (x : World G ρ) seed, W x → W (x.1, { x.2 with seed := seed }))
    (hnext : ∀ j', H.next j = some j' → ∀ cmd baddr nbytes now prefetch x, W x →
      Ends (fun fault => allowed (.outside fault))
        (cacheAccess (behind H draw PC j') (generate (behind H draw PC j') PC baddr)
          cmd baddr nbytes now prefetch (x.sys j')) fun r => W (put j' r.2)) :
    Keeps allowed (behind H draw PC j) W where
  toInternal := hin
  call cmd baddr size now prefetch x r hx hcall := by
    -- The last level goes to memory, which always answers.
    rcases hj : H.next j with _ | j'
    · rw [behind_none hj] at hcall
      cases hcall
      exact hx
    · have haccess := hnext j' hj cmd baddr (BitVec.ofNat 32 size) now prefetch x hx
      rw [behind_some hj] at hcall
      split at hcall
      · rename_i lat s hs
        cases hcall
        exact haccess.of_eq hs
      · cases hcall
  refuse cmd baddr size now prefetch x fault hx hcall := by
    rcases hj : H.next j with _ | j'
    · rw [behind_none hj] at hcall
      cases hcall
    · have haccess := hnext j' hj cmd baddr (BitVec.ofNat 32 size) now prefetch x hx
      rw [behind_some hj] at hcall
      split at hcall
      · -- A fault of the next level comes back as one of `.outside`.
        cases hcall
      · rename_i fault' hfault
        cases hcall
        rw [hfault] at haccess
        exact haccess
  draw x hx := by
    rw [behind_myrand]
    exact hdraw x _ hx

/-- What lies behind a cache keeps the property, and has no other faults. -/
theorem keeps_everywhere
    (hI : ∀ i, EffectInvariant (ω := Others G ρ) fun ord s => I i ord s.cache s.env.log)
    (PC : Addr) (j : Fin k) : Keeps (Passed G H j) (behind H draw PC j) (Everywhere I) := by
  -- By induction on the level.
  induction hn : H.level j using Nat.strong_induction_on generalizing j with
  | _ n ih =>
      refine keeps_next (passed_internal G H j) (fun _ _ hx => hx)
        fun j' hnext cmd baddr nbytes now prefetch x hx => ?_
      have hlt := H.next_lt hnext
      have haccess := (runInvariant_inHand hI PC j' (ih _ (by omega) j' rfl)).access PC cmd baddr
        nbytes now prefetch (hx.sys j')
      exact (haccess.weaken fun _ hfault _ _ => ⟨j', hnext, hfault⟩).mono fun _ hr => hr.put

/-- So does every run. A run is stopped by no other fault than a well-formed
    cache can have, in the cache of the operation or behind it. -/
theorem sysRun_everywhere
    (hI : ∀ i, EffectInvariant (ω := Others G ρ) fun ord s => I i ord s.cache s.env.log)
    (hcreate : ∀ i, I i (createdOrder (G i)) (cacheCreate (G i)) []) (seed : ρ)
    (as : List (SysOp k)) :
    Ends (fun e => ∃ i, ExpectedAt G H i e) (sysRun G H draw seed as) (Everywhere I) := by
  refine Ends.foldlM (fun _ => Everywhere I) as (fun i => ⟨_, Inv.create (G i), hcreate i⟩)
    fun _ a x _ hx => ?_
  have hkeeps : Keeps (Passed G H a.cache) (behind H draw a.PC a.cache) (Everywhere I) :=
    keeps_everywhere hI a.PC a.cache
  have hstep := (runInvariant_inHand hI a.PC a.cache hkeeps).step (hx.sys a.cache) a.op
  exact (hstep.weaken fun e he => ⟨a.cache, he⟩).bind fun s hs => .ret hs.put

end Lift

/-! ### What is known of one cache -/

theorem EffectInvariant.and {g : Geometry} {ω : Type} {I J : Order g → Sys g (Tables × ω) → Prop}
    (h : EffectInvariant I) (h' : EffectInvariant J) :
    EffectInvariant fun ord s => I ord s ∧ J ord s where
  served hc hs hserved := ⟨h.served hc hs.1 hserved, h'.served hc hs.2 hserved⟩
  predicted PC addr t hs := ⟨h.predicted PC addr t hs.1, h'.predicted PC addr t hs.2⟩
  flushed hs he hv := ⟨h.flushed hs.1 he hv, h'.flushed hs.2 he hv⟩
  flushedAddr hc hs hf := ⟨h.flushedAddr hc hs.1 hf, h'.flushedAddr hc hs.2 hf⟩

theorem EffectInvariant.imp {g : Geometry} {ω : Type} {c : Prop}
    {I : Order g → Sys g (Tables × ω) → Prop} (h : c → EffectInvariant I) :
    EffectInvariant fun ord s => c → I ord s where
  served hc hs hserved hcond := (h hcond).served hc (hs hcond) hserved
  predicted PC addr t hs hcond := (h hcond).predicted PC addr t (hs hcond)
  flushed hs he hv hcond := (h hcond).flushed (hs hcond) he hv
  flushedAddr hc hs hf hcond := (h hcond).flushedAddr hc (hs hcond) hf

/-- In every run of a hierarchy the sets of all caches stay well formed. In a
    cache whose sets fit into the memory, every residency of a dirty block ends
    with one write-back to the next level, and without random replacement the
    blocks are replaced in the order of the policy. At no level an assertion
    fails, another null pointer is dereferenced, or a loop goes on for ever. -/
theorem sysRun_caches (G : Fin k → Geometry) (H : Hierarchy k) (draw : ρ → BitVec 32 × ρ)
    (seed : ρ) (as : List (SysOp k)) :
    Ends (fun e => ∃ i, ExpectedAt G H i e) (sysRun G H draw seed as) fun x => ∀ i,
      (∀ n, WellFormed (G i) ((x.2.caches i).sets n)) ∧
      ((G i).Fits → Lawful (x.2.logs i) ∧ (x.2.caches i).writebacks = writeCalls (x.2.logs i) ∧
        ((G i).policy ≠ .Random → AsPredicted (x.2.logs i))) := by
  let I : ∀ i, Order (G i) → State (G i) → List (Event (G i)) → Prop := fun i ord c log =>
    (G i).Fits → Tracks c log ∧
      ((G i).policy ≠ .Random → Refines c ord (tagLists log) ∧ AsPredicted log)
  have hI : ∀ i, EffectInvariant (ω := Others G ρ) fun ord s => I i ord s.cache s.env.log :=
    fun i => .imp fun hfits =>
      (effectInvariant_tracks hfits).and (.imp fun hpolicy => effectInvariant_refines hpolicy hfits)
  have hcreate : ∀ i, I i (createdOrder (G i)) (cacheCreate (G i)) [] :=
    fun i _ => ⟨tracks_create _, fun _ => ⟨refines_create _, trivial⟩⟩
  refine (sysRun_everywhere hI hcreate seed as).mono fun x hx i => ?_
  rcases hx i with ⟨ord, hc, hown⟩
  refine ⟨fun n => (hc.rep n).wellFormed, fun hfits => ?_⟩
  rcases hown hfits with ⟨ht, href⟩
  exact ⟨ht.lawful, ht.writebacks, fun hpolicy => (href hpolicy).2⟩

end Cache

end MicroArch
