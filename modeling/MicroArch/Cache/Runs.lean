import MicroArch.Cache.Machine
import MicroArch.Library.Ends

/-!
# Invariants of Runs

What has to be shown of a property so that it holds after every run: an access
keeps it up to its prefetch, so does the call of the prefetcher, and so do the
flushes. The prefetches are accesses too, so the rest follows once for all
properties.

The faults that may stop an operation are a parameter. The checks of an access
are always among them.

An access calls its prefetcher, which makes accesses, which call none. The
recursion of the source ends there, and the rules follow it: `ServeKeeps` is
about an access up to that call, a prefetch is such an access with the checks
and the latency around it, and `generate_ends` is a call of the prefetcher
followed by a list of them. What a property has to provide is one field for
each of these, and the induction over the operations is made once.

## Main definitions

* `ServeKeeps`: Every access keeps the property, up to its prefetch.
* `RunInvariant`: What has to be shown of a property.

## Theorems

* `cacheAccess_ends`, `generate_ends`: Whole accesses.
* `RunInvariant.run`: The property holds after every run.
-/

namespace MicroArch

namespace Cache

variable {g : Geometry} {σ ω : Type} {allowed : Fault → Prop}

/-- Every access keeps the property, up to its prefetch, and is answered by no
    block only if the fault is allowed. -/
def ServeKeeps (allowed : Fault → Prop) (out : Outside σ) (I : Sys g σ → Prop) : Prop :=
  ∀ s cmd addr now prefetch, I s → Ends allowed (serve out cmd addr now prefetch s)
    fun r => I r.2 ∧ (r.1 = .hit none → allowed (.nullBlock addr))

section Access

variable {out : Outside σ} {I J : Sys g σ → Prop} {s : Sys g σ}

theorem checkAccess_ends (hfatal : ∀ text addr, allowed (.fatal text addr)) (addr : Addr)
    (nbytes : BitVec 32) : Ends allowed (checkAccess g addr nbytes) fun _ => True := by
  rw [checkAccess]
  exact Ends.ite (fun _ => .fail (hfatal _ _)) fun _ => Ends.ite (fun _ => .fail (hfatal _ _))
    fun _ => .ret trivial

theorem latency_ends (addr : Addr) (now : Tick) (c : State g) {answer : Answer g}
    (h : answer = .hit none → allowed (.nullBlock addr)) :
    Ends allowed (latency addr now c answer) fun _ => True := by
  rcases answer with lat | _ | p
  · exact .ret trivial
  · exact .fail (h rfl)
  · exact .ret trivial

/-- An access, whose prefetcher turns one property into another. -/
theorem cacheAccess_ends {generate : Sys g σ → Except Fault (Sys g σ)}
    (hfatal : ∀ text addr, allowed (.fatal text addr)) (hI : ServeKeeps allowed out I)
    (hgenerate : ∀ s, I s → Ends allowed (generate s) J) (cmd : Cmd) (addr : Addr)
    (nbytes : BitVec 32) (now : Tick) (hs : I s) :
    Ends allowed (cacheAccess out generate cmd addr nbytes now false s) fun r => J r.2 := by
  refine (checkAccess_ends hfatal addr nbytes).bind fun _ _ => ?_
  refine (hI s cmd addr now false hs).bind fun r hr => ?_
  -- The latency is read in the state that the prefetcher leaves, not the one it found.
  refine (hgenerate r.2 hr.1).bind fun s' hs' => ?_
  exact (latency_ends addr now s'.cache hr.2).bind fun _ _ => .ret hs'

/-- An access that is a prefetch. -/
theorem prefetchAccess_ends {generate : Sys g σ → Except Fault (Sys g σ)}
    (hfatal : ∀ text addr, allowed (.fatal text addr)) (hI : ServeKeeps allowed out I) (cmd : Cmd)
    (addr : Addr) (nbytes : BitVec 32) (now : Tick) (hs : I s) :
    Ends allowed (cacheAccess out generate cmd addr nbytes now true s) fun r => I r.2 := by
  refine (checkAccess_ends hfatal addr nbytes).bind fun _ _ => ?_
  refine (hI s cmd addr now true hs).bind fun r hr => ?_
  exact (latency_ends addr now r.2.cache hr.2).bind fun _ _ => .ret hr.1

theorem requests_ends (hfatal : ∀ text addr, allowed (.fatal text addr))
    (hI : ServeKeeps allowed out I) (requests : List Addr) (hs : I s) :
    Ends allowed (requests.foldlM (request out) s) I :=
  Ends.foldlM (fun _ => I) requests hs fun _ baddr _ _ hs =>
    (prefetchAccess_ends hfatal hI .Read baddr _ 0 hs).bind fun _ hr => .ret hr

end Access

section Run

variable {out : Outside (Tables × ω)} {I J : Sys g (Tables × ω) → Prop}

theorem generate_ends (hfatal : ∀ text addr, allowed (.fatal text addr))
    (hJ : ServeKeeps allowed out J) {PC addr : Addr} {s : Sys g (Tables × ω)}
    (hpredict : Ends allowed (generatePrefetch g s.cache.probe PC addr s.tables)
      fun r => J (s.predicted PC addr r.1)) :
    Ends allowed (generate out PC addr s) J :=
  hpredict.bind fun r hr => requests_ends hfatal hJ r.2 hr

/-- What has to be shown of a property. -/
structure RunInvariant (allowed : Fault → Prop) (out : Outside (Tables × ω))
    (I : Sys g (Tables × ω) → Prop) : Prop where
  fatal : ∀ text addr, allowed (.fatal text addr)
  serve : ServeKeeps allowed out I
  predict : ∀ s PC addr, I s → Ends allowed
    (generatePrefetch g s.cache.probe PC addr s.tables) fun r => I (s.predicted PC addr r.1)
  flush : ∀ s now, I s → Ends allowed (State.flush out now s.cache s.env) fun r => I r.sys
  flushAddr : ∀ s addr now, I s → Ends allowed (State.flushAddr out addr now s.cache s.env)
    fun r => I r.sys

theorem RunInvariant.generate (h : RunInvariant allowed out I) (PC addr : Addr)
    {s : Sys g (Tables × ω)} (hs : I s) : Ends allowed (generate out PC addr s) I :=
  generate_ends h.fatal h.serve (h.predict s PC addr hs)

/-- A whole access, of the program or of the level above. -/
theorem RunInvariant.access (h : RunInvariant allowed out I) (PC : Addr) (cmd : Cmd) (addr : Addr)
    (nbytes : BitVec 32) (now : Tick) (prefetch : Bool) {s : Sys g (Tables × ω)} (hs : I s) :
    Ends allowed (cacheAccess out (Cache.generate out PC addr) cmd addr nbytes now prefetch s)
      fun r => I r.2 := by
  cases prefetch with
  | true => exact prefetchAccess_ends h.fatal h.serve cmd addr nbytes now hs
  | false =>
      exact cacheAccess_ends h.fatal h.serve (fun _ hs => h.generate PC addr hs) cmd addr nbytes
        now hs

theorem RunInvariant.step (h : RunInvariant allowed out I) {s : Sys g (Tables × ω)} (hs : I s)
    (op : Op) : Ends allowed (step out s op) I := by
  cases op with
  | demand PC cmd addr nbytes now =>
      exact (h.access PC cmd addr nbytes now false hs).bind fun _ hr => .ret hr
  | prefetch addr nbytes now =>
      exact (prefetchAccess_ends h.fatal h.serve .Read addr nbytes now hs).bind fun _ hr => .ret hr
  | flush now => exact (h.flush s now hs).bind fun _ hr => .ret hr
  | flushAddr addr now => exact (h.flushAddr s addr now hs).bind fun _ hr => .ret hr

theorem RunInvariant.run (h : RunInvariant allowed out I) {t : Tables} {w : ω}
    (hinit : I (initial g t w)) (ops : List Op) : Ends allowed (run g out t w ops) I :=
  Ends.foldlM (fun _ => I) ops hinit fun _ op _ _ hs => h.step hs op

end Run

end Cache

end MicroArch
