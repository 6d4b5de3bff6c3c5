import MicroArch.Cache.Crowding
import MicroArch.Cache.Middle

/-!
# Prefetches of Block Zero

When there is no last block to hit, an access to the first block of memory is
taken for one to that block, and ends the program at a null pointer. This can
happen to the requests of a prefetcher. The access before them was a hit, so
the first of them finds a last block to hit. It misses, since only blocks that
are not in the cache are requested, and after a miss there is none.

Which request ends the program is therefore a matter of the list alone. The
first one does not. The second does if it is for block zero. The third does if
it is for block zero and the second has missed, and that one hits only if it is
for the block the first one has brought in. `Stops` says this of the list, and
the two theorems say it of the code.

## Main definitions

* `Stops`: The requests after a hit end the program.
* `Requested`: What a request does that does not.

## Theorems

* `requests_stop`: Requests that end the program.
* `requests_return`: All others return, if the next level answers.
-/

namespace MicroArch

namespace Cache

variable {g : Geometry} {σ : Type}

/-- Requests after a hit of which one is for block zero and follows a miss.
    There are three at most; the second hits if it is for the same block as
    the first. -/
def Stops (g : Geometry) : List Addr → Prop
  | [_, r₂] => g.cacheBaddr r₂ = 0
  | [r₁, r₂, r₃] =>
      g.cacheBaddr r₂ = 0 ∨ (g.cacheBaddr r₁ ≠ g.cacheBaddr r₂ ∧ g.cacheBaddr r₃ = 0)
  | _ => False

/-- The last block to hit after an access. -/
def Answer.last : Answer g → Option (BlkPtr g)
  | .miss _ => none
  | .hit blk => blk

/-- A request that was answered. -/
structure Requested (s s' : Sys g σ) (r : Addr) : Prop where
  inv : ∃ ord, Inv s'.cache ord
  resident : s'.cache.resident r
  others : ∀ x, s'.cache.resident x → s.cache.resident x ∨ g.cacheBaddr x = g.cacheBaddr r
  last : s'.cache.lastBlk = none ↔ s.cache.resident r = false

variable {out : Outside σ} {s s' : Sys g σ} {ord : Order g} {requests : List Addr}

theorem load_last (cmd : Cmd) (addr : Addr) (now : Tick) (prefetch : Bool) (p : BlkPtr g)
    (r : State.Timed g σ) : Ends (Expected g) (State.load out cmd addr now prefetch p r) fun r' =>
      r'.cache.lastBlk = r.cache.lastBlk := by
  rw [State.load]
  refine (call_ends ..).bind fun a _ => .ret ?_
  refine (sameRest_linkHash _ p).fields.2.2.trans ?_
  exact (sameRest_markDirty _ cmd p).fields.2.2

theorem fill_last {c : State g} (hc : Inv c ord) (cmd : Cmd) (addr : Addr) (now : Tick)
    (prefetch : Bool) (e : Env g σ) : Ends (Expected g)
      (State.fill out cmd addr now prefetch c e) fun r => r.cache.lastBlk = none := by
  rcases fill_eq hc out cmd addr now prefetch e with ⟨p, c₁, e₁, hfill, hsel⟩
  rw [hfill, State.refill]
  refine (evict_ends now p c₁ e₁).bind fun r hr => ?_
  refine (load_last cmd addr now prefetch p r).bind fun r' hr' => .ret ?_
  exact hr'.trans (hr.1.lastBlk.trans hsel.rest.fields.2.2)

/-- The last block to hit is the one an access hits, and there is none after a
    miss. -/
theorem serve_last (hc : Inv s.cache ord) (cmd : Cmd) (addr : Addr) (now : Tick)
    (prefetch : Bool) : Ends (Expected g) (serve out cmd addr now prefetch s) fun r =>
      r.2.cache.lastBlk = r.1.last := by
  -- A miss leaves no last block, a slow hit sets it, a fast hit is one to it.
  refine serve_rule hc (fun _ => fill_last hc cmd addr now prefetch s.env) (fun p _ => ?_)
    (fun p _ _ => .ret rfl) fun h => ?_
  · have hrep := (hc.rep.congr (sets_countHit s.cache cmd prefetch)).markDirty cmd p
    rcases reorder_eq hrep p with ⟨c', heq, -⟩
    rw [State.touch, heq]
    exact .ret rfl
  · rw [State.fastTouch]
    cases cmd with
    -- The fast path is taken by reads only.
    | Write => exact .fail h
    | Read => exact .ret rfl

theorem request_effect (hfits : g.Fits) (hc : Inv s.cache ord) (r : Addr) :
    Ends (Expected g) (request out s r) fun s' => Requested s s' r := by
  refine request_rule (((serve_ends hc .Read r 0 true).meet (serve_last hc .Read r 0 true)
    fun _ he _ => he).mono fun x hx => ?_)
  rcases x with ⟨answer, s'⟩
  rcases hx with ⟨⟨ord', hinv, hserved⟩, hlast⟩
  refine ⟨hserved.nullBlock, fun hne => ?_⟩
  rcases hserved.holds hfits hne with ⟨p, hp, -⟩
  refine ⟨⟨ord', hinv⟩, resident_of_holds hp, fun x hx => ?_, ?_⟩
  · rcases exists_holds hx with ⟨q, hq⟩
    exact (hserved.holds_of hfits hq).imp_left resident_of_holds
  · cases hserved with
    | miss lat v hmiss =>
        -- The block was not resident, and there is no last block.
        refine iff_of_true hlast (Bool.eq_false_iff.mpr fun h => ?_)
        rcases (resident_iff s.cache r).mp h with ⟨b, hb⟩
        exact hmiss b hb
    | hit q hq =>
        -- The block was resident, and is the last one.
        refine iff_of_false (fun h => ?_) (Bool.eq_false_iff.not.mpr ?_)
        · exact Option.some_ne_none q (hlast.symm.trans h)
        · exact not_not.mpr (resident_of_holds (hq.holds hfits))
    | null => exact absurd rfl hne

/-- Without a last block to hit, a request for block zero does not return. -/
theorem request_null (hc : Inv s.cache ord) {r : Addr} (hzero : g.cacheBaddr r = 0)
    (hlast : s.cache.lastBlk = none) : request out s r ≠ .ok s' := by
  intro h
  -- No last block means that the last tag and set are 0, like those of block zero.
  have htagset := hc.last
  rw [LastBlock, hlast] at htagset
  have hfast : g.cacheTagset r = s.cache.lastTagset := hzero.trans htagset.symm
  have hlookup : s.cache.lookup r = .ok (.fastHit none) := by
    rw [State.lookup, if_pos hfast, hlast]
  rcases bind_eq_ok h with ⟨⟨lat, s₁⟩, haccess, -⟩
  rcases cacheAccess_steps haccess with ⟨answer, s₂, hserve, -, hlat⟩
  rw [serve, hlookup] at hserve
  cases hserve
  cases hlat

/-- Any other request returns. -/
theorem request_answered (hfits : g.Fits) (hout : Inert out) (hc : Inv s.cache ord) {r : Addr}
    (hblock : ∃ x, r = g.requestAddr x)
    (hnull : ¬ (g.cacheBaddr r = 0 ∧ s.cache.lastBlk = none)) :
    Ends (fun _ => False) (request out s r) fun s' => Requested s s' r := by
  rcases hblock with ⟨x, rfl⟩
  rw [requestAddr_eq hfits] at hnull ⊢
  rw [g.cacheBaddr_baddr] at hnull
  exact ((request_effect hfits hc _).meet (request_total hout hc hnull) fun _ _ h => h).mono
    fun s' hs' => hs'.1

/-- After a request that misses, another one misses if it is for another
    block. -/
theorem Requested.second {r₁ r₂ : Addr} (hfits : g.Fits) (h : Requested s s' r₁)
    (hnew : s.cache.resident r₂ = false) :
    s'.cache.resident r₂ = false ↔ g.cacheBaddr r₁ ≠ g.cacheBaddr r₂ := by
  constructor
  · intro hfalse heq
    rw [← resident_congr hfits s'.cache heq, h.resident] at hfalse
    exact absurd hfalse nofun
  · intro hne
    refine Bool.eq_false_iff.mpr fun hres => ?_
    rcases h.others r₂ hres with hold | heq
    · exact Bool.eq_false_iff.mp hnew hold
    · exact hne heq.symm

/-- Requests of which one ends the program. -/
theorem requests_stop (hfits : g.Fits) (hc : Inv s.cache ord)
    (hnew : ∀ r ∈ requests, s.cache.resident r = false) (hstops : Stops g requests) :
    requests.foldlM (request out) s ≠ .ok s' := by
  intro h
  unfold Stops at hstops
  split at hstops
  · rename_i r₁ r₂
    rcases bind_eq_ok h with ⟨s₁, hfirst, h⟩
    rcases bind_eq_ok h with ⟨s₂, hsecond, -⟩
    -- Two requests: the first misses, so the second finds no last block.
    have heffect := (request_effect hfits hc r₁).of_eq hfirst
    rcases heffect.inv with ⟨ord₁, hc₁⟩
    exact request_null hc₁ hstops (heffect.last.mpr (hnew r₁ List.mem_cons_self)) hsecond
  · rename_i r₁ r₂ r₃
    rcases bind_eq_ok h with ⟨s₁, hfirst, h⟩
    rcases bind_eq_ok h with ⟨s₂, hsecond, h⟩
    rcases bind_eq_ok h with ⟨s₃, hthird, -⟩
    have heffect := (request_effect hfits hc r₁).of_eq hfirst
    rcases heffect.inv with ⟨ord₁, hc₁⟩
    -- Three requests: the second one ends the program, or it misses and the third does.
    rcases hstops with hzero | ⟨hne, hzero⟩
    · exact request_null hc₁ hzero (heffect.last.mpr (hnew r₁ List.mem_cons_self)) hsecond
    · have heffect₂ := (request_effect hfits hc₁ r₂).of_eq hsecond
      rcases heffect₂.inv with ⟨ord₂, hc₂⟩
      refine request_null hc₂ hzero (heffect₂.last.mpr ((heffect.second hfits ?_).mpr hne)) hthird
      exact hnew r₂ (List.mem_cons_of_mem _ List.mem_cons_self)
  · exact hstops

/-- All others return, after a hit. -/
theorem requests_return (hfits : g.Fits) (hout : Inert out) (hc : Inv s.cache ord)
    (hlast : s.cache.lastBlk ≠ none)
    (hnew : ∀ r ∈ requests, (∃ x, r = g.requestAddr x) ∧ s.cache.resident r = false)
    (hlength : requests.length ≤ 3) (hstops : ¬ Stops g requests) :
    Ends (fun _ => False) (requests.foldlM (request out) s) fun _ => True := by
  rcases requests with _ | ⟨r₁, requests⟩
  · exact .ret trivial
  have hr₁ := hnew r₁ List.mem_cons_self
  refine (request_answered hfits hout hc hr₁.1 fun h => hlast h.2).bind fun s₁ h₁ => ?_
  rcases h₁.inv with ⟨ord₁, hc₁⟩
  rcases requests with _ | ⟨r₂, requests⟩
  · exact .ret trivial
  have hr₂ := hnew r₂ (List.mem_cons_of_mem _ List.mem_cons_self)
  -- With two or three requests the second is not for block zero.
  have hsecond : g.cacheBaddr r₂ ≠ 0 := by
    rcases requests with _ | ⟨r₃, _ | ⟨r₄, requests⟩⟩
    · exact hstops
    · exact fun h => hstops (.inl h)
    · exact absurd hlength (by simp only [List.length_cons]; omega)
  refine (request_answered hfits hout hc₁ hr₂.1 fun h => hsecond h.1).bind fun s₂ h₂ => ?_
  rcases h₂.inv with ⟨ord₂, hc₂⟩
  rcases requests with _ | ⟨r₃, requests⟩
  · exact .ret trivial
  -- The third finds no last block only if the second missed, which is then for another block.
  have hr₃ := hnew r₃ (List.mem_cons_of_mem _ (List.mem_cons_of_mem _ List.mem_cons_self))
  rcases requests with _ | ⟨r₄, requests⟩
  · refine (request_answered hfits hout hc₂ hr₃.1 fun h => hstops (.inr ⟨?_, h.1⟩)).bind
      fun _ _ => .ret trivial
    exact (h₁.second hfits hr₂.2).mp (h₂.last.mp h.2)
  · exact absurd hlength (by simp only [List.length_cons]; omega)

end Cache

end MicroArch
