import MicroArch.Cache.Runs

/-!
# What Surrounds a Cache

What a cache does to its surroundings: it calls the next level and draws
random numbers, nothing else. So a property that these two keep is kept by
every operation. Nothing is assumed of the cache itself, and an operation may
end in any fault, except that the program is not ended by the next level when
that always answers.

The calls of the prefetcher are the entries of the log that only
`generate_prefetch` makes, so the rest of an access leaves them as they are.

## Main definitions

* `Keeps`: The outside keeps a property of what surrounds the cache.
* `Frame`: An operation keeps it, and makes no call of the prefetcher.

## Theorems

* `serve_frame`, `flush_frame`, `flushAddr_frame`: The operations keep it.
* `requests_frame`: So do the accesses a prefetcher makes.
* `runInvariant_shared`: So does every run, if the prefetcher keeps it as well.
-/

namespace MicroArch

namespace Cache

variable {g : Geometry} {σ : Type}

/-- The faults that a cache has by itself are allowed. -/
structure Internal (allowed : Fault → Prop) : Prop where
  nullPointer : allowed .nullPointer
  assertion : ∀ name, allowed (.assertion name)
  endless : allowed .endless

/-- Calls and draws keep a property. The call may also have a fault, if that is
    allowed. -/
structure Keeps (allowed : Fault → Prop) (out : Outside σ) (K : σ → Prop) : Prop
    extends Internal allowed where
  call : ∀ cmd baddr size now prefetch x r, K x →
    out.blkAccess cmd baddr size now prefetch x = .ok r → K r.2
  refuse : ∀ cmd baddr size now prefetch x fault, K x →
    out.blkAccess cmd baddr size now prefetch x = .error fault → allowed (.outside fault)
  draw : ∀ x, K x → K (out.myrand x).2

/-- The calls of the prefetcher in a log. -/
def calls (log : List (Event g)) : List (Event g) :=
  log.filter fun ev => match ev with
    | .generate .. => true
    | _ => false

/-- The surroundings have the property, and the prefetcher was not called. -/
def Frame (K : σ → Prop) (e e' : Env g σ) : Prop := K e'.shared ∧ calls e'.log = calls e.log

section Pure

variable {n h : Nat} {allowed : Fault → Prop} (hin : Internal allowed)

include hin

theorem linkWay_internal (s : CacheSet n h) (b : Fin n) (loc : CacheSet.ListLoc) :
    Ends allowed (s.linkWay b loc) fun _ => True := by
  unfold CacheSet.linkWay
  split
  · split
    · exact .fail hin.nullPointer
    · exact .ret trivial
  · split
    · exact .fail hin.nullPointer
    · exact .ret trivial

theorem updateWayList_internal (s : CacheSet n h) (b : Fin n) (loc : CacheSet.ListLoc) :
    Ends allowed (s.updateWayList b loc) fun _ => True := by
  unfold CacheSet.updateWayList
  split
  · exact Ends.ite (fun _ => .ret trivial) fun _ => .fail (hin.assertion _)
  · exact Ends.ite (fun _ => Ends.ite (fun _ => .ret trivial) fun _ => linkWay_internal hin ..)
      fun _ => .fail (hin.assertion _)
  · exact Ends.ite (fun _ => Ends.ite (fun _ => .ret trivial) fun _ => linkWay_internal hin ..)
      fun _ => .fail (hin.assertion _)
  · exact Ends.ite (fun _ => linkWay_internal hin ..) fun _ => .fail (hin.assertion _)

theorem unlinkHash_internal (c : State g) (p : BlkPtr g) :
    Ends allowed (c.unlinkHash p) fun _ => True := by
  unfold State.unlinkHash
  split
  · exact .ret trivial
  · refine Ends.bind (P := fun _ => True) ?_ fun _ _ => .ret trivial
    unfold CacheSet.unlinkHtabEnt
    split
    · exact .fail hin.endless
    · exact .fail (hin.assertion _)
    · exact .ret trivial
    · exact .ret trivial

theorem searchSet_internal (c : State g) (i : Fin g.nsets) (tag : Addr) :
    Ends allowed (c.searchSet i tag) fun _ => True := by
  unfold State.searchSet State.orEndless
  dsimp only
  split
  · exact .ret trivial
  · exact .fail hin.endless

end Pure

section Frame

variable {allowed : Fault → Prop} {out : Outside σ} {K : σ → Prop} {e e' e'' : Env g σ}

theorem Frame.refl (h : K e.shared) : Frame K e e := ⟨h, rfl⟩

theorem Frame.trans (h : Frame K e e') (h' : Frame K e' e'') : Frame K e e'' :=
  ⟨h'.1, h'.2.trans h.2⟩

theorem call_frame (hout : Keeps allowed out K) (he : K e.shared) (cmd : Cmd) (baddr : Addr)
    (now : Tick) (prefetch : Bool) :
    Ends allowed (e.call out cmd baddr now prefetch) fun r => Frame K e r.2 := by
  unfold Env.call
  rcases hcall : out.blkAccess cmd baddr g.bsize now prefetch e.shared with fault | ⟨lat, shared⟩
  · exact .fail (hout.refuse _ _ _ _ _ _ _ he hcall)
  · exact .ret ⟨hout.call _ _ _ _ _ _ _ he hcall, rfl⟩

theorem selectVictim_frame (hout : Keeps allowed out K) (he : K e.shared) (i : Fin g.nsets)
    (c : State g) :
    Ends allowed (State.selectVictim out i c e) fun r => Frame K e r.2.2 := by
  unfold State.selectVictim
  split
  · -- A random victim costs a draw.
    exact .ret ⟨hout.draw _ he, rfl⟩
  · split
    · exact .fail hout.nullPointer
    · exact (updateWayList_internal hout.toInternal ..).bind fun _ _ => .ret (.refl he)

theorem writeBack_frame (hout : Keeps allowed out K) (now : Tick) (p : BlkPtr g)
    {r : State.Timed g σ} (he : K r.env.shared) :
    Ends allowed (State.writeBack out now p r) fun r' => Frame K r.env r'.env := by
  unfold State.writeBack
  exact Ends.ite (fun _ => (call_frame hout he ..).bind fun _ ha => .ret ha)
    fun _ => .ret (.refl he)

theorem evict_frame (hout : Keeps allowed out K) (now : Tick) (p : BlkPtr g) (c : State g)
    (he : K e.shared) : Ends allowed (State.evict out now p c e) fun r => Frame K e r.env := by
  unfold State.evict
  exact Ends.ite (fun _ => (writeBack_frame hout now p he).mono fun _ ha => ha)
    fun _ => .ret (.refl he)

theorem load_frame (hout : Keeps allowed out K) (cmd : Cmd) (addr : Addr) (now : Tick)
    (prefetch : Bool) (p : BlkPtr g) {r : State.Timed g σ} (he : K r.env.shared) :
    Ends allowed (State.load out cmd addr now prefetch p r) fun r' =>
      Frame K r.env r'.env := by
  unfold State.load
  exact (call_frame hout he ..).bind fun _ ha => .ret ha

theorem fill_frame (hout : Keeps allowed out K) (cmd : Cmd) (addr : Addr) (now : Tick)
    (prefetch : Bool) (c : State g) (he : K e.shared) :
    Ends allowed (State.fill out cmd addr now prefetch c e) fun r => Frame K e r.env := by
  unfold State.fill
  -- In the order of the source: a victim, its write-back, the block from the next level.
  -- The bucket chain is the cache's own.
  refine (selectVictim_frame hout he _ _).bind fun r hr => ?_
  refine (unlinkHash_internal hout.toInternal _ _).bind fun c _ => ?_
  refine (evict_frame hout now _ _ hr.1).bind fun r' hr' => ?_
  refine (load_frame hout cmd addr now prefetch _ hr'.1).bind fun r'' hr'' => ?_
  exact .ret (hr.trans (hr'.trans hr''))

theorem lookup_internal (hin : Internal allowed) (c : State g) (addr : Addr) :
    Ends allowed (c.lookup addr) fun _ => True := by
  unfold State.lookup
  refine Ends.ite (fun _ => .ret trivial) fun _ => (searchSet_internal hin ..).bind fun r _ => ?_
  split <;> exact .ret trivial

theorem touch_internal (hin : Internal allowed) (c : State g) (cmd : Cmd) (addr : Addr)
    (prefetch : Bool) (p : BlkPtr g) :
    Ends allowed (c.touch cmd addr prefetch p) fun _ => True := by
  unfold State.touch
  refine Ends.bind (P := fun _ => True) ?_ fun _ _ => .ret trivial
  unfold State.reorder
  exact Ends.ite (fun _ => (updateWayList_internal hin ..).bind fun _ _ => .ret trivial)
    fun _ => .ret trivial

theorem fastTouch_internal {addr : Addr} (hnull : allowed (.nullBlock addr)) (c : State g)
    (cmd : Cmd) (prefetch : Bool) (blk : Option (BlkPtr g)) :
    Ends allowed (c.fastTouch cmd addr prefetch blk) fun _ => True := by
  unfold State.fastTouch
  dsimp only
  split
  · exact .ret trivial
  · exact Ends.ite (fun _ => .fail hnull) fun _ => .ret trivial

theorem serve_frame (hout : Keeps allowed out K) (cmd : Cmd) {addr : Addr}
    (hnull : allowed (.nullBlock addr)) (now : Tick) (prefetch : Bool) {s : Sys g σ}
    (he : K s.env.shared) :
    Ends allowed (serve out cmd addr now prefetch s) fun r => Frame K s.env r.2.env := by
  unfold serve
  refine (lookup_internal hout.toInternal ..).bind fun path _ => ?_
  split
  · exact (fill_frame hout cmd addr now prefetch _ he).bind fun _ hr => .ret hr
  · exact (touch_internal hout.toInternal ..).bind fun _ _ => .ret ⟨he, rfl⟩
  · refine (fastTouch_internal hnull ..).bind fun _ _ => .ret ?_
    dsimp only
    -- The log gets an entry only if there is a block to hit, and none of the prefetcher.
    split
    · exact ⟨he, rfl⟩
    · exact .refl he

theorem invalidate_frame (hout : Keeps allowed out K) (now : Tick) (p : BlkPtr g)
    {r : State.Timed g σ} (he : K r.env.shared) :
    Ends allowed (State.invalidate out now p r) fun r' => Frame K r.env r'.env := by
  unfold State.invalidate
  refine (writeBack_frame hout now p ?_).mono fun _ ha => ha
  exact he

theorem flushSet_frame (hout : Keeps allowed out K) (now : Tick) (i : Fin g.nsets) (fuel : Nat) :
    ∀ (b : Option (Fin g.assoc)) {r : State.Timed g σ}, K r.env.shared →
      Ends allowed (State.flushSet out now i fuel b r) fun r' => Frame K r.env r'.env := by
  -- The fuel bounds the walk along the way list; each step flushes one block.
  induction fuel with
  | zero =>
      intro b r he
      cases b with
      | none => exact .ret (.refl he)
      | some b => exact .fail hout.endless
  | succ fuel ih =>
      intro b r he
      cases b with
      | none => exact .ret (.refl he)
      | some b =>
          have hblk : Ends allowed (State.flushBlk out now (i, b) r) fun r' =>
              Frame K r.env r'.env := by
            unfold State.flushBlk
            exact Ends.ite (fun _ => invalidate_frame hout now _ he) fun _ => .ret (.refl he)
          exact hblk.bind fun r' hr' => (ih _ hr'.1).mono fun _ hr'' => hr'.trans hr''

theorem flush_frame (hout : Keeps allowed out K) (now : Tick) (c : State g) (he : K e.shared) :
    Ends allowed (State.flush out now c e) fun r => Frame K e r.env := by
  unfold State.flush
  refine Ends.foldlM (fun _ (r : State.Timed g σ) => Frame K e r.env) _ ⟨he, rfl⟩ ?_
  intro _ i r _ hr
  exact (flushSet_frame hout now i _ _ hr.1).mono fun _ hr' => hr.trans hr'

theorem flushAddr_frame (hout : Keeps allowed out K) (addr : Addr) (now : Tick) (c : State g)
    (he : K e.shared) :
    Ends allowed (State.flushAddr out addr now c e) fun r => Frame K e r.env := by
  unfold State.flushAddr
  refine (searchSet_internal hout.toInternal ..).bind fun blk _ => ?_
  split
  · exact .ret ⟨he, rfl⟩
  · refine Ends.bind (P := fun r : State.Timed g σ => Frame K e r.env)
      ((invalidate_frame hout now _ ?_).mono fun _ ha => ha) fun r hr => ?_
    · exact he
    · exact (updateWayList_internal hout.toInternal ..).bind fun _ _ => .ret hr

/-- An access keeps what its outside keeps, up to its prefetch. -/
theorem serveKeeps_frame (hout : Keeps (fun _ => True) out K) (e : Env g σ) :
    ServeKeeps (fun _ => True) out fun s => Frame K e s.env := fun _ cmd _ now prefetch hs =>
  (serve_frame hout cmd trivial now prefetch hs.1).mono fun _ hr => ⟨hs.trans hr, fun _ => trivial⟩

theorem requests_frame (hout : Keeps (fun _ => True) out K) (requests : List Addr) {s : Sys g σ}
    (he : K s.env.shared) :
    Ends (fun _ => True) (requests.foldlM (request out) s) fun s' => Frame K s.env s'.env :=
  requests_ends (fun _ _ => trivial) (serveKeeps_frame hout s.env) requests (.refl he)

end Frame

/-- A property of the surroundings that calls and draws keep, and the
    prefetcher as well, is an invariant. -/
theorem runInvariant_shared {ω : Type} {out : Outside (Tables × ω)} {K : Tables × ω → Prop}
    (hout : Keeps (fun _ => True) out K)
    (hpredict : ∀ probe PC addr x, K x →
      Ends (fun _ => True) (generatePrefetch g probe PC addr x.1) fun r => K (r.1, x.2)) :
    RunInvariant (fun _ => True) out fun s : Sys g (Tables × ω) => K s.env.shared where
  fatal _ _ := trivial
  serve _ cmd _ now prefetch hs :=
    (serve_frame hout cmd trivial now prefetch hs).mono fun _ hr => ⟨hr.1, fun _ => trivial⟩
  predict _ PC addr hs := hpredict _ PC addr _ hs
  flush s now hs := (flush_frame hout now s.cache hs).mono fun _ hr => hr.1
  flushAddr s addr now hs := (flushAddr_frame hout addr now s.cache hs).mono fun _ hr => hr.1

end Cache

end MicroArch
