import Mathlib.Algebra.BigOperators.Ring.Finset
import Mathlib.Tactic.Ring
import MicroArch.Cache.Levels
import MicroArch.Cache.Statistics

/-!
# The Traffic Between the Levels

The counters of the caches of a program against each other. A miss of a cache
is a read at the next level, a write-back is a write there, and the miss of a
prefetch is a prefetch. Nothing else gets there, apart from what the program
itself asks for and what the prefetcher of that level requests. So nothing is
lost between the levels and nothing is made twice.

Each kind of request is given a weight. The ledger of a cache is what it has
got, less what it has sent, and what lies behind has got. An access changes it
only by what it is itself.

## Main definitions

* `Kind`: The kinds of requests.
* `Counters.received`, `Counters.sent`: What a cache has got and sent.
* `Meters`: What lies behind a cache measures what it gets.
* `ledger`: What a cache and those behind it have got and not sent.
* `flow`: The requests of a world that were not sent by a cache.

## Theorems

* `serve_ledger`, `flush_ledger`, `flushAddr_ledger`: What is sent is received.
* `step_weighed`: An operation is received once.
* `sysRun_flow`: What the caches have got and not sent is what a program asks
  for.
* `traffic_at`, `sysRun_traffic`: The counters of a cache and of those in front of it.
-/

namespace MicroArch

namespace Cache

variable {g : Geometry} {σ : Type}

/-! ### Requests -/

/-- The kinds of requests that a cache gets. -/
inductive Kind where
  | read
  | write
  | prefetch
  deriving DecidableEq

def Kind.of (cmd : Cmd) (prefetch : Bool) : Kind :=
  if prefetch then .prefetch else if cmd = .Read then .read else .write

namespace Counters

variable (w : Kind → ℤ) (k : Counters)

/-- What a cache has got, with weights. -/
def received : ℤ :=
  (k.readHits + k.readMisses) * w .read +
    (k.hits + k.misses - (k.readHits + k.readMisses)) * w .write +
    (k.prefetchHits + k.prefetchMisses) * w .prefetch

/-- What it has sent to the next level. -/
def sent : ℤ := k.misses * w .read + k.writebacks * w .write + k.prefetchMisses * w .prefetch

theorem received_hit (cmd : Cmd) (prefetch : Bool) :
    (k.hit cmd prefetch).received w = k.received w + w (.of cmd prefetch) := by
  cases prefetch <;> cases cmd <;> simp [hit, received, Kind.of] <;> ring

theorem received_miss (cmd : Cmd) (prefetch : Bool) :
    (k.miss cmd prefetch).received w = k.received w + w (.of cmd prefetch) := by
  cases prefetch <;> cases cmd <;> simp [miss, received, Kind.of] <;> ring

theorem sent_hit (cmd : Cmd) (prefetch : Bool) : (k.hit cmd prefetch).sent w = k.sent w := by
  cases prefetch <;> rfl

theorem sent_miss (cmd : Cmd) (prefetch : Bool) :
    (k.miss cmd prefetch).sent w = k.sent w + w (.of .Read prefetch) := by
  cases prefetch <;> simp [miss, sent, Kind.of] <;> ring

end Counters

/-! ### The ledger of a cache -/

/-- What lies behind a cache measures what it gets. -/
structure Meters (s : Kind → ℤ) (out : Outside σ) (bal : σ → ℤ) : Prop where
  call : ∀ cmd baddr size now prefetch x r, out.blkAccess cmd baddr size now prefetch x = .ok r →
    bal r.2 = bal x + s (.of cmd prefetch)
  draw : ∀ x, bal (out.myrand x).2 = bal x

/-- What a cache has got less what it has sent, and the balance behind it. -/
def ledger (r s : Kind → ℤ) (bal : σ → ℤ) (c : State g) (e : Env g σ) : ℤ :=
  bal e.shared + c.counters.received r - c.counters.sent s

section Ledger

variable {r s : Kind → ℤ} {bal : σ → ℤ} {out : Outside σ} {c c' : State g} {e : Env g σ}

theorem ledger_congr (h : c'.counters = c.counters) (e : Env g σ) :
    ledger r s bal c' e = ledger r s bal c e := by
  rw [ledger, ledger, h]

variable (hout : Meters s out bal)

include hout

theorem call_balance (cmd : Cmd) (baddr : Addr) (now : Tick) (prefetch : Bool) (e : Env g σ) :
    Ends (fun _ => True) (e.call out cmd baddr now prefetch) fun a =>
      bal a.2.shared = bal e.shared + s (.of cmd prefetch) := by
  unfold Env.call
  rcases hcall : out.blkAccess cmd baddr g.bsize now prefetch e.shared with fault | ⟨lat, shared⟩
  · exact .fail trivial
  · exact .ret (hout.call _ _ _ _ _ _ _ hcall)

theorem selectVictim_ledger (i : Fin g.nsets) (c : State g) (e : Env g σ) :
    Ends (fun _ => True) (State.selectVictim out i c e) fun a =>
      ledger r s bal a.2.1 a.2.2 = ledger r s bal c e := by
  unfold State.selectVictim
  split
  · refine .ret ?_
    unfold ledger
    rw [hout.draw]
  · split
    · exact .fail trivial
    · exact (Ends.any _).bind fun _ _ => .ret rfl

theorem writeBack_ledger (now : Tick) (p : BlkPtr g) (a : State.Timed g σ) :
    Ends (fun _ => True) (State.writeBack out now p a) fun a' =>
      ledger r s bal a'.cache a'.env = ledger r s bal a.cache a.env := by
  unfold State.writeBack
  refine Ends.ite (fun _ => ?_) fun _ => .ret rfl
  refine (call_balance hout .Write _ _ false a.env).bind fun b hb => .ret ?_
  have hwrite : Kind.of .Write false = .write := rfl
  simp only [ledger, hb, hwrite, Counters.received, Counters.sent, State.counters]
  push_cast
  ring

theorem evict_ledger (now : Tick) (p : BlkPtr g) (c : State g) (e : Env g σ) :
    Ends (fun _ => True) (State.evict out now p c e) fun a =>
      ledger r s bal a.cache a.env = ledger r s bal c e := by
  unfold State.evict
  exact Ends.ite (fun _ => (writeBack_ledger hout now p _).mono fun _ ha => ha) fun _ => .ret rfl

/-- The read of a miss. The miss itself has been counted before. -/
theorem load_ledger (cmd : Cmd) (addr : Addr) (now : Tick) (prefetch : Bool) (p : BlkPtr g)
    (a : State.Timed g σ) :
    Ends (fun _ => True) (State.load out cmd addr now prefetch p a) fun a' =>
      ledger r s bal a'.cache a'.env = ledger r s bal a.cache a.env + s (.of .Read prefetch) := by
  have hcounters : Ends (fun _ => True) (State.load out cmd addr now prefetch p a) fun a' =>
      a'.cache.counters = a.cache.counters := load_counters cmd addr now prefetch p a
  have hcall : Ends (fun _ => True) (State.load out cmd addr now prefetch p a) fun a' =>
      bal a'.env.shared = bal a.env.shared + s (.of .Read prefetch) := by
    unfold State.load
    exact (call_balance hout .Read _ _ prefetch a.env).bind fun b hb => .ret hb
  -- The counters stay, and the balance behind the cache rises by the one read.
  refine (hcounters.meet hcall fun _ _ _ => trivial).mono fun a' ha' => ?_
  rw [ledger, ha'.1, ha'.2, ledger]
  ring

theorem fill_ledger (cmd : Cmd) (addr : Addr) (now : Tick) (prefetch : Bool) (c : State g)
    (e : Env g σ) :
    Ends (fun _ => True) (State.fill out cmd addr now prefetch c e) fun a =>
      ledger r s bal a.cache a.env = ledger r s bal c e + r (.of cmd prefetch) := by
  -- The miss is received here and passed on, so the ledger counts the access once.
  have hmiss : ledger r s bal (c.countMiss cmd prefetch) e + s (.of .Read prefetch)
      = ledger r s bal c e + r (.of cmd prefetch) := by
    rw [ledger, counters_countMiss, Counters.received_miss, Counters.sent_miss, ledger]
    ring
  unfold State.fill
  refine (selectVictim_ledger (r := r) hout _ _ _).bind fun a ha => ?_
  have hunlink : Ends (fun _ => True) (a.2.1.unlinkHash (g.cacheSet addr, a.1)) fun c' =>
      c'.counters = a.2.1.counters := by
    unfold State.unlinkHash
    split
    · exact .ret rfl
    · exact (Ends.any _).bind fun _ _ => .ret rfl
  refine hunlink.bind fun c₁ hc₁ => ?_
  refine (evict_ledger (r := r) hout now _ _ _).bind fun a₁ ha₁ => ?_
  refine (load_ledger (r := r) hout cmd addr now prefetch _ a₁).bind fun a₂ ha₂ => .ret ?_
  have hcleared : ledger r s bal { c₁ with lastTagset := 0, lastBlk := none } a.2.2
      = ledger r s bal a.2.1 a.2.2 := ledger_congr hc₁ _
  rw [← hmiss, ← ha, ← hcleared, ← ha₁]
  exact ha₂

/-- An access adds what it is. -/
theorem serve_ledger (cmd : Cmd) (addr : Addr) (now : Tick) (prefetch : Bool) (x : Sys g σ) :
    Ends (fun _ => True) (serve out cmd addr now prefetch x) fun a =>
      ledger r s bal a.2.cache a.2.env = ledger r s bal x.cache x.env + r (.of cmd prefetch) := by
  have hhit : ∀ (c : State g) (e : Env g σ), e.shared = x.env.shared →
      c.counters = x.cache.counters.hit cmd prefetch →
      ledger r s bal c e = ledger r s bal x.cache x.env + r (.of cmd prefetch) := by
    intro c e he hc
    rw [ledger, he, hc, Counters.received_hit, Counters.sent_hit, ledger]
    ring
  unfold serve
  -- Which path the lookup takes does not matter for the sums.
  refine (Ends.any _).bind fun path _ => ?_
  split
  · exact (fill_ledger (r := r) hout cmd addr now prefetch _ _).bind fun _ ha => .ret ha
  · exact (touch_counters x.cache cmd addr prefetch _).bind fun c hc => .ret (hhit _ _ rfl hc)
  · refine (fastTouch_counters x.cache cmd addr prefetch _).bind fun c hc => .ret ?_
    dsimp only
    split
    · exact hhit _ _ rfl hc
    · exact hhit _ _ rfl hc

theorem invalidate_ledger (now : Tick) (p : BlkPtr g) (a : State.Timed g σ) :
    Ends (fun _ => True) (State.invalidate out now p a) fun a' =>
      ledger r s bal a'.cache a'.env = ledger r s bal a.cache a.env := by
  unfold State.invalidate
  exact (writeBack_ledger hout now p _).mono fun _ ha => ha

theorem flushSet_ledger (now : Tick) (i : Fin g.nsets) (fuel : Nat) :
    ∀ (b : Option (Fin g.assoc)) (a : State.Timed g σ),
      Ends (fun _ => True) (State.flushSet out now i fuel b a) fun a' =>
        ledger r s bal a'.cache a'.env = ledger r s bal a.cache a.env := by
  -- By induction on the fuel, as `flushSet` goes along the chain.
  induction fuel with
  | zero =>
      intro b a
      cases b with
      | none => exact .ret rfl
      | some b => exact .fail trivial
  | succ fuel ih =>
      intro b a
      cases b with
      | none => exact .ret rfl
      | some b =>
          have hblk : Ends (fun _ => True) (State.flushBlk out now (i, b) a) fun a' =>
              ledger r s bal a'.cache a'.env = ledger r s bal a.cache a.env := by
            unfold State.flushBlk
            exact Ends.ite (fun _ => invalidate_ledger hout now _ a) fun _ => .ret rfl
          exact hblk.bind fun a' ha' => (ih _ a').mono fun _ ha'' => ha''.trans ha'

theorem flush_ledger (now : Tick) (c : State g) (e : Env g σ) :
    Ends (fun _ => True) (State.flush out now c e) fun a =>
      ledger r s bal a.cache a.env = ledger r s bal c e := by
  unfold State.flush
  refine Ends.foldlM (fun _ (a : State.Timed g σ) =>
    ledger r s bal a.cache a.env = ledger r s bal c e) _ rfl ?_
  intro _ i a _ ha
  exact (flushSet_ledger hout now i _ _ a).mono fun _ ha' => ha'.trans ha

theorem flushAddr_ledger (addr : Addr) (now : Tick) (c : State g) (e : Env g σ) :
    Ends (fun _ => True) (State.flushAddr out addr now c e) fun a =>
      ledger r s bal a.cache a.env = ledger r s bal c e := by
  unfold State.flushAddr
  refine (Ends.any _).bind fun blk _ => ?_
  split
  · exact .ret rfl
  · refine Ends.bind (P := fun a : State.Timed g σ =>
      ledger r s bal a.cache a.env = ledger r s bal c e)
      ((invalidate_ledger hout now _ _).mono fun _ ha => ha) fun a ha => ?_
    exact (Ends.any _).bind fun _ _ => .ret ha

end Ledger

/-! ### The requests of its prefetcher -/

section Run

variable {ω : Type} {r s : Kind → ℤ} {bal : ω → ℤ} {out : Outside (Tables × ω)}

/-- The ledger without what the prefetcher of the cache has asked for. -/
def total (r s : Kind → ℤ) (bal : ω → ℤ) (x : Sys g (Tables × ω)) : ℤ :=
  ledger r s (fun y : Tables × ω => bal y.2) x.cache x.env - requested x.env.log * r .prefetch

variable (hout : Meters s out fun y : Tables × ω => bal y.2)

include hout

theorem serve_weighed (cmd : Cmd) (addr : Addr) (now : Tick) (prefetch : Bool)
    (x : Sys g (Tables × ω)) :
    Ends (fun _ => True) (serve out cmd addr now prefetch x) fun a =>
      total r s bal a.2 = total r s bal x + r (.of cmd prefetch) := by
  have hledger := serve_ledger (r := r) hout cmd addr now prefetch x
  have hframe : Ends (fun _ => True) (serve out cmd addr now prefetch x) fun a =>
      Frame (fun _ => True) x.env a.2.env :=
    serve_frame (keeps_true out) cmd trivial now prefetch trivial
  refine (hledger.meet hframe fun _ _ _ => trivial).mono fun a ha => ?_
  rw [total, ha.1, requested_congr ha.2.2, total]
  ring

theorem prefetch_weighed (generate : Sys g (Tables × ω) → Except Fault (Sys g (Tables × ω)))
    (cmd : Cmd) (addr : Addr) (nbytes : BitVec 32) (now : Tick) (x : Sys g (Tables × ω)) :
    Ends (fun _ => True) (cacheAccess out generate cmd addr nbytes now true x) fun a =>
      total r s bal a.2 = total r s bal x + r .prefetch := by
  refine (Ends.any _).bind fun _ _ => ?_
  refine (serve_weighed (r := r) hout cmd addr now true x).bind fun a ha => ?_
  exact (Ends.any (latency addr now a.2.cache a.1)).bind fun _ _ => .ret ha

/-- What a prefetcher asks for, it gets. -/
theorem generate_weighed (PC addr : Addr) (x : Sys g (Tables × ω)) :
    Ends (fun _ => True) (generate out PC addr x) fun x' =>
      total r s bal x' = total r s bal x := by
  unfold generate
  rcases hpredict : generatePrefetch g x.cache.probe PC addr x.tables with e | ⟨t, requests⟩
  · exact .fail trivial
  -- The call enters its requests in the log at once, which are then missing from the total.
  have hstart : total r s bal (x.predicted PC addr t)
      = total r s bal x - requests.length * r .prefetch := by
    have hevent : requested (x.predicted PC addr t).env.log
        = requests.length + requested x.env.log := by
      have hrequests : Event.requests (.generate PC addr x.cache x.tables) = requests.length := by
        rw [Event.requests, hpredict]
      rw [← hrequests]
      rfl
    have hsame : ledger r s (fun y : Tables × ω => bal y.2) (x.predicted PC addr t).cache
        (x.predicted PC addr t).env = ledger r s (fun y => bal y.2) x.cache x.env := rfl
    rw [total, hevent, hsame, total, Nat.cast_add]
    ring
  have hloop : Ends (fun _ => True) (requests.foldlM (request out) (x.predicted PC addr t))
      fun x' => total r s bal x' = total r s bal x - requests.length * r .prefetch +
        requests.length * r .prefetch := by
    -- Every request that is served gives one of them back.
    refine Ends.foldlM (fun pre x' => total r s bal x' = total r s bal x -
      requests.length * r .prefetch + pre.length * r .prefetch) requests ?_ ?_
    · rw [hstart, List.length_nil, Nat.cast_zero, Int.zero_mul, Int.add_zero]
    · intro pre baddr x' _ hx'
      refine (prefetch_weighed (r := r) hout pure .Read baddr _ 0 x').bind fun a ha => .ret ?_
      rw [ha, hx', List.length_append, List.length_singleton, Nat.cast_add, Nat.cast_one]
      ring
  exact hloop.mono fun x' hx' => hx'.trans (sub_add_cancel _ _)

/-- An access, with the prefetches it makes, is received once. -/
theorem access_weighed (PC : Addr) (cmd : Cmd) (addr : Addr) (nbytes : BitVec 32) (now : Tick)
    (prefetch : Bool) (x : Sys g (Tables × ω)) :
    Ends (fun _ => True)
      (cacheAccess out (generate out PC addr) cmd addr nbytes now prefetch x) fun a =>
      total r s bal a.2 = total r s bal x + r (.of cmd prefetch) := by
  -- A prefetch does not call the prefetcher again.
  cases prefetch with
  | true => exact prefetch_weighed hout _ cmd addr nbytes now x
  | false =>
      refine (Ends.any _).bind fun _ _ => ?_
      refine (serve_weighed (r := r) hout cmd addr now false x).bind fun a ha => ?_
      refine (generate_weighed (r := r) hout PC addr a.2).bind fun x' hx' => ?_
      exact (Ends.any _).bind fun _ _ => .ret (hx'.trans ha)

/-- What an operation is for the cache it is made on. -/
def Op.weight (r : Kind → ℤ) : Op → ℤ
  | .demand _ cmd _ _ _ => r (.of cmd false)
  | .prefetch .. => r .prefetch
  | _ => 0

/-- An operation is received once. -/
theorem step_weighed (x : Sys g (Tables × ω)) (op : Op) :
    Ends (fun _ => True) (step out x op) fun x' =>
      total r s bal x' = total r s bal x + op.weight r := by
  cases op with
  | demand PC cmd addr nbytes now =>
      exact (access_weighed (r := r) hout PC cmd addr nbytes now false x).bind fun _ ha => .ret ha
  | prefetch addr nbytes now =>
      exact (prefetch_weighed (r := r) hout pure .Read addr nbytes now x).bind fun _ ha => .ret ha
  | flush now =>
      refine ((flush_ledger (r := r) hout now x.cache x.env).meet (flush_frame (keeps_true out) now
        x.cache trivial) fun _ _ _ => trivial).bind fun a ha => .ret ?_
      rw [total, requested_congr ha.2.2]
      change ledger r s _ a.cache a.env - _ = _
      rw [ha.1]
      exact (Int.add_zero _).symm
  | flushAddr addr now =>
      refine ((flushAddr_ledger (r := r) hout addr now x.cache x.env).meet (flushAddr_frame
        (keeps_true out) addr now x.cache trivial) fun _ _ _ => trivial).bind fun a ha => .ret ?_
      rw [total, requested_congr ha.2.2]
      change ledger r s _ a.cache a.env - _ = _
      rw [ha.1]
      exact (Int.add_zero _).symm

end Run

/-! ### All caches -/

section World

variable {k : Nat} {G : Fin k → Geometry} {ρ : Type} {draw : ρ → BitVec 32 × ρ}
  (H : Hierarchy k) (j : Fin k) (w : Kind → ℤ)

/-- The weights when only the requests to one cache count: of what a cache
    gets, and of what it sends. -/
def gets (i : Fin k) : Kind → ℤ := if i = j then w else 0

def sends (i : Fin k) : Kind → ℤ := if H.next i = some j then w else 0

/-- What a cache has got and its prefetcher has not asked for, less what it has
    sent. -/
def share (i : Fin k) (c : State (G i)) (log : List (Event (G i))) : ℤ :=
  c.counters.received (gets j w i) - c.counters.sent (sends H j w i)
    - requested log * gets j w i .prefetch

/-- The requests of a world that were not sent by a cache. -/
def flow (x : World G ρ) : ℤ := ∑ i, share H j w i (x.2.caches i) (x.2.logs i)

/-- Those at the other caches. -/
def besides (i : Fin k) (y : Others G ρ) : ℤ :=
  ∑ i' ∈ Finset.univ.erase i, share H j w i' (y.caches i') (y.logs i')

variable {H j w}

theorem flow_eq (i : Fin k) (x : World G ρ) :
    flow H j w x = share H j w i (x.2.caches i) (x.2.logs i) + besides H j w i x.2 :=
  (Finset.add_sum_erase _ _ (Finset.mem_univ i)).symm

theorem flow_put (i : Fin k) (x : Sys (G i) (World G ρ)) :
    flow H j w (put i x) = total (gets j w i) (sends H j w i) (besides H j w i) x := by
  -- Only the cache at `i` was put back, so the shares of the others are the old ones.
  have hothers : besides H j w i (put i x).2 = besides H j w i x.env.shared.2 := by
    refine Finset.sum_congr rfl fun i' hi' => ?_
    have hne := Finset.ne_of_mem_erase hi'
    unfold put
    dsimp only
    rw [Function.update_of_ne hne, Function.update_of_ne hne]
  have hown : share H j w i ((put i x).2.caches i) ((put i x).2.logs i)
      = share H j w i x.cache x.env.log := by
    unfold put
    dsimp only
    rw [Function.update_self, Function.update_self]
  rw [flow_eq i, hothers, hown, share, total, ledger]
  ring

/-- What lies behind a cache leaves the cache and those above as they are. -/
theorem keeps_above (PC : Addr) (i i' : Fin k) (hi : H.level i' ≤ H.level i) (c : State (G i))
    (log : List (Event (G i))) :
    Keeps (fun _ => True) (behind H draw PC i')
      fun x : World G ρ => x.2.caches i = c ∧ x.2.logs i = log := by
  -- By induction on the level; the next level is another cache than `i`.
  induction hn : H.level i' using Nat.strong_induction_on generalizing i' with
  | _ n ih =>
      refine keeps_next ⟨trivial, fun _ => trivial, trivial⟩ (fun _ _ hx => hx)
        fun i'' hnext cmd baddr nbytes now prefetch x hx => ?_
      have hlt := H.next_lt hnext
      have hne : i ≠ i'' := by
        intro heq
        subst heq
        omega
      have hkeeps := ih _ (by omega) i'' (by omega) rfl
      have haccess := (runInvariant_shared hkeeps fun _ _ _ _ hx => (Ends.any _).mono
        fun _ _ => hx).access PC cmd baddr nbytes now prefetch (s := x.sys i'') hx
      refine haccess.mono fun r hr => ?_
      unfold put
      dsimp only
      rw [Function.update_of_ne hne, Function.update_of_ne hne]
      exact hr

/-- What lies behind a cache measures what the cache sends. -/
theorem meters_behind (PC : Addr) (i : Fin k) :
    Meters (sends H j w i) (behind H draw PC i)
      fun y : World G ρ => besides H j w i y.2 := by
  -- By induction on the level.
  induction hn : H.level i using Nat.strong_induction_on generalizing i with
  | _ n ih =>
      refine ⟨fun cmd baddr size now prefetch x r hr => ?_, fun x => ?_⟩
      · have habove := (keeps_above PC i i le_rfl _ _).call cmd baddr size now prefetch x r
          ⟨rfl, rfl⟩ hr
        have hflow : flow H j w r.2 = flow H j w x + sends H j w i (.of cmd prefetch) := by
          rcases hnext : H.next i with _ | i'
          · rw [behind_none hnext] at hr
            -- Behind the last level is memory, where nothing is counted.
            cases hr
            rw [sends, hnext, if_neg (Option.some_ne_none j).symm]
            exact (Int.add_zero _).symm
          · rw [behind_some hnext] at hr
            split at hr
            · rename_i lat s hs
              cases hr
              have hmeters := ih _ (by have := H.next_lt hnext; omega) i' rfl
              have htotal := (access_weighed (r := gets j w i') hmeters PC cmd baddr _ now prefetch
                (x.sys i')).of_eq hs
              have hsame : sends H j w i = gets j w i' := by
                simp only [sends, gets, hnext, Option.some.injEq]
              rw [flow_put, htotal, ← flow_put, put_sys, hsame]
            · cases hr
        rw [flow_eq i, flow_eq i, habove.1, habove.2] at hflow
        -- The share of the cache itself has not changed, so the rest of the flow got it all.
        omega
      · rw [behind_myrand]
        rfl

/-- What the caches of a program have got, and neither they nor their
    prefetchers have sent, is what the program asks for. -/
theorem sysRun_flow (seed : ρ) (as : List (SysOp k)) :
    Ends (fun _ => True) (sysRun G H draw seed as) fun x =>
      flow H j w x = (as.map fun a => a.op.weight (gets j w a.cache)).sum := by
  refine Ends.foldlM (fun pre (x : World G ρ) =>
    flow H j w x = (pre.map fun a => a.op.weight (gets j w a.cache)).sum) as ?_
    fun pre a x _ hx => ?_
  · rw [List.map_nil, List.sum_nil]
    refine Finset.sum_eq_zero fun i _ => ?_
    have hcounters : (cacheCreate (G i)).counters = ⟨0, 0, 0, 0, 0, 0, 0, 0, 0⟩ := rfl
    change share H j w i (cacheCreate (G i)) [] = 0
    simp [share, hcounters, Counters.received, Counters.sent, requested]
  · have hmeters : Meters (sends H j w a.cache) (behind H draw a.PC a.cache)
        fun y : World G ρ => besides H j w a.cache y.2 := meters_behind a.PC a.cache
    refine (step_weighed (r := gets j w a.cache) hmeters (x.sys a.cache) a.op).bind
      fun s hs => .ret ?_
    rw [flow_put, hs, ← flow_put, put_sys, hx, List.map_append, List.sum_append,
      List.map_singleton, List.sum_singleton]

/-- The requests to a cache, by the counters. -/
theorem flow_at (x : World G ρ) :
    flow H j w x = (x.2.caches j).counters.received w
      - requested (x.2.logs j) * w .prefetch
      - ∑ i with H.next i = some j, (x.2.caches i).counters.sent w := by
  -- A cache has received at `j` when it is `j`, and has sent there when `j` is its next one.
  have hshare : ∀ i, share H j w i (x.2.caches i) (x.2.logs i)
      = (if i = j then (x.2.caches i).counters.received w
          - requested (x.2.logs i) * w .prefetch else 0)
        - if H.next i = some j then (x.2.caches i).counters.sent w else 0 := by
    intro i
    have hreceived : ∀ n : Counters, n.received 0 = 0 := by
      intro n
      simp [Counters.received]
    have hsent : ∀ n : Counters, n.sent 0 = 0 := by
      intro n
      simp [Counters.sent]
    unfold share gets sends
    split_ifs
    · ring
    · rw [hsent]
      ring
    · rw [hreceived, Pi.zero_apply]
      ring
    · rw [hreceived, hsent, Pi.zero_apply]
      ring
  rw [flow, Finset.sum_congr rfl fun i _ => hshare i, Finset.sum_sub_distrib,
    Finset.sum_ite_eq' Finset.univ j, if_pos (Finset.mem_univ j), ← Finset.sum_filter]

/-- The demands of a program on a cache, and those that read. -/
def demandsOn (j : Fin k) (as : List (SysOp k)) : Nat :=
  as.countP fun a => a.cache = j && a.op.isDemand

def readsOn (j : Fin k) (as : List (SysOp k)) : Nat :=
  as.countP fun a => a.cache = j && a.op.isRead

theorem sum_weight (as : List (SysOp k)) :
    (as.map fun a => a.op.weight (gets j w a.cache)).sum
      = readsOn j as * w .read + (demandsOn j as - readsOn j as) * w .write := by
  induction as with
  | nil => simp [readsOn, demandsOn]
  | cons a as ih =>
      rw [List.map_cons, List.sum_cons, ih]
      unfold readsOn demandsOn
      rw [List.countP_cons, List.countP_cons]
      rcases a with ⟨i, PC, task⟩
      -- An operation counts at its own cache, and a flush asks for nothing.
      by_cases hi : i = j
      · subst hi
        cases task with
        | access cmd addr nbytes now =>
            cases cmd <;>
              simp [SysOp.op, Op.weight, gets, Kind.of, Op.isDemand, Op.isRead] <;> ring
        | flush now => simp [SysOp.op, Op.weight, Op.isDemand, Op.isRead]
        | flushAddr addr now => simp [SysOp.op, Op.weight, Op.isDemand, Op.isRead]
      · cases task with
        | access cmd addr nbytes now => simp [SysOp.op, Op.weight, gets, hi]
        | flush now => simp [SysOp.op, Op.weight, hi]
        | flushAddr addr now => simp [SysOp.op, Op.weight, hi]

/-- The counters of a cache against what it was asked for and what was sent to
    it, for any weights. -/
theorem received_eq {seed : ρ} {as : List (SysOp k)} {x : World G ρ}
    (hx : sysRun G H draw seed as = .ok x) :
    (x.2.caches j).counters.received w
      = readsOn j as * w .read + (demandsOn j as - readsOn j as) * w .write
        + requested (x.2.logs j) * w .prefetch
        + ∑ i with H.next i = some j, (x.2.caches i).counters.sent w := by
  have hflow := (sysRun_flow (H := H) (j := j) (w := w) seed as).of_eq hx
  rw [flow_at, sum_weight] at hflow
  rw [← hflow]
  ring

/-- The counters of a cache against those of the caches in front of it. -/
theorem traffic_at {seed : ρ} {as : List (SysOp k)} {x : World G ρ}
    (hx : sysRun G H draw seed as = .ok x) (j : Fin k) :
    (x.2.caches j).hits + (x.2.caches j).misses = demandsOn j as +
        ∑ i with H.next i = some j, ((x.2.caches i).misses + (x.2.caches i).writebacks) ∧
      (x.2.caches j).readHits + (x.2.caches j).readMisses = readsOn j as +
        ∑ i with H.next i = some j, (x.2.caches i).misses ∧
      (x.2.caches j).prefetchHits + (x.2.caches j).prefetchMisses = requested (x.2.logs j) +
        ∑ i with H.next i = some j, (x.2.caches i).prefetchMisses := by
  -- One equation for all weights: each of the three lines picks the kinds that it counts.
  refine ⟨?_, ?_, ?_⟩
  · have hall := received_eq (j := j) (w := fun κ => if κ = .prefetch then 0 else 1) hx
    simp only [Counters.received, Counters.sent, State.counters, reduceCtorEq, if_true, if_false,
      mul_one, mul_zero, add_zero, add_sub_cancel] at hall
    exact_mod_cast hall
  · have hreads := received_eq (j := j) (w := fun κ => if κ = .read then 1 else 0) hx
    simp only [Counters.received, Counters.sent, State.counters, reduceCtorEq, if_true, if_false,
      mul_one, mul_zero, add_zero] at hreads
    exact_mod_cast hreads
  · have hprefetches := received_eq (j := j) (w := fun κ => if κ = .prefetch then 1 else 0) hx
    simp only [Counters.received, Counters.sent, State.counters, reduceCtorEq, if_true, if_false,
      mul_one, mul_zero, zero_add] at hprefetches
    exact_mod_cast hprefetches

end World

/-- In every run of a hierarchy, the accesses that a cache has counted are
    those of the program, and one for each miss and each write-back of the
    caches in front of it; the reads among them are those of the program, and
    one for each miss; and the prefetches are those its prefetcher has
    requested, and one for each prefetch that missed in front of it. -/
theorem sysRun_traffic {k : Nat} {ρ : Type} (G : Fin k → Geometry) (H : Hierarchy k)
    (draw : ρ → BitVec 32 × ρ) (seed : ρ) (as : List (SysOp k)) :
    Ends (fun _ => True) (sysRun G H draw seed as) fun x => ∀ j,
      (x.2.caches j).hits + (x.2.caches j).misses = demandsOn j as +
        ∑ i with H.next i = some j, ((x.2.caches i).misses + (x.2.caches i).writebacks) ∧
      (x.2.caches j).readHits + (x.2.caches j).readMisses = readsOn j as +
        ∑ i with H.next i = some j, (x.2.caches i).misses ∧
      (x.2.caches j).prefetchHits + (x.2.caches j).prefetchMisses = requested (x.2.logs j) +
        ∑ i with H.next i = some j, (x.2.caches i).prefetchMisses := by
  rcases hx : sysRun G H draw seed as with e | x
  · exact .fail trivial
  · exact .ret (traffic_at hx)

end Cache

end MicroArch
