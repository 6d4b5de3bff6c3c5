import MicroArch.Cache.Surround
import MicroArch.Cache.System

/-!
# Prefetchers of Different Caches

When the requests of a prefetcher depend on nothing but the accesses and the
contents of its own cache. The tables are global: all caches with a stride
prefetcher use the Reference Prediction Table, and all with the delta
correlation prefetcher the table of deltas. Each part of the tables follows
its only user, if it has only one.

What a call of a prefetcher depends on is its `PC`, its address, and what the
cache holds, as a probe tells it. A cache that never shares its part makes of
its calls what it would make of them alone.

The comparison is between two worlds: the one at hand, and one in which all
other caches are without a prefetcher. The accesses that reach a cache may be
different there, since the others request blocks through it. So what is
compared are not runs with the same operations but histories of calls: if a
cache has made the same calls with the same contents in both worlds, it has
made the same requests.

## Main definitions

* `Call`: A call of a prefetcher.
* `Shares`: Two prefetchers use the same part of the tables.
* `solo`: The tables of a cache that is alone.
* `quiet`: All other caches without a prefetcher.
* `Noninterference`: The calls of a cache are the same without the others'
  prefetchers.

## Theorems

* `generatePrefetch_agree`: A prefetcher depends on its own part.
* `generatePrefetch_other`: It leaves the other part alone.
* `sysRun_tied`: The part of an unshared prefetcher follows its cache.
* `noninterference_of_unshared`: Unshared prefetchers do not interfere.
-/

namespace MicroArch

namespace Cache

variable {g : Geometry} {k : Nat}

/-! ### Parts of the tables -/

/-- Prefetchers of the two types use the same part of the tables. -/
def Shares (type type' : Nat) : Prop := 2 < type ∧ 2 < type' ∨ type = 2 ∧ type' = 2

/-- The part of the tables that the type uses is the same. -/
structure SamePart (type : Nat) (t t' : Tables) : Prop where
  rpt : 2 < type → t.RPT = t'.RPT
  dcpt : type = 2 → t.DCPT = t'.DCPT

theorem SamePart.refl (type : Nat) (t : Tables) : SamePart type t t := ⟨fun _ => rfl, fun _ => rfl⟩

theorem SamePart.trans {type : Nat} {t₁ t₂ t₃ : Tables} (h : SamePart type t₁ t₂)
    (h' : SamePart type t₂ t₃) : SamePart type t₁ t₃ :=
  ⟨fun hr => (h.rpt hr).trans (h'.rpt hr), fun hd => (h.dcpt hd).trans (h'.dcpt hd)⟩

/-- The creation of a cache sets up its own part. -/
theorem samePart_create (type : Nat) (t t' : Tables) :
    SamePart type (t.create type) (t'.create type) := by
  unfold Tables.create
  refine ⟨fun htype => ?_, fun htype => ?_⟩
  · rw [if_pos htype, if_pos htype]
  · subst htype
    rfl

/-- The creation of a cache leaves the part of another type alone. -/
theorem samePart_create_other {type type' : Nat} (h : ¬ Shares type' type) (t : Tables) :
    SamePart type (t.create type') t := by
  unfold Tables.create
  refine ⟨fun htype => ?_, fun htype => ?_⟩
  · -- `cache_create` makes a new table for the stride prefetcher only when its type is above
    -- two, and clears the other one only when it is two.
    rw [if_neg fun htype' => h (.inl ⟨htype', htype⟩)]
    split <;> rfl
  · by_cases htype' : type' > 2
    · rw [if_pos htype']
    · rw [if_neg htype', if_neg fun heq => h (.inr ⟨heq, htype⟩)]

theorem two_lt_of_ne {n : Nat} (h0 : n ≠ 0) (h1 : n ≠ 1) (h2 : n ≠ 2) : 2 < n := by
  omega

theorem stridePrefetcher_agree {t t' : Tables} (h : t.RPT = t'.RPT)
    {probe : Addr → Except Fault Bool} {PC addr : Addr} {r : Tables × List Addr}
    (hr : stridePrefetcher g probe PC addr t = .ok r) :
    ∃ r', stridePrefetcher g probe PC addr t' = .ok r' ∧ r'.2 = r.2 ∧ r.1.RPT = r'.1.RPT := by
  have hrow : ∀ row,
      (t.setRptRow (g.rptIndex PC) row).RPT = (t'.setRptRow (g.rptIndex PC) row).RPT :=
    fun row => congrArg
      (fun rpt : Rpt => { rpt with cell := Function.update rpt.cell (g.rptIndex PC) row }) h
  unfold stridePrefetcher at hr ⊢
  dsimp only at hr ⊢
  -- Both rows are read from the same table, so they predict the same.
  rw [← h]
  rcases hstride : strideRow (PC >>> 2) addr (.of (t.RPT.cell (g.rptIndex PC)))
    with ⟨_ | target, row⟩
  · rw [hstride] at hr
    cases hr
    exact ⟨_, rfl, rfl, hrow _⟩
  · rw [hstride] at hr
    dsimp only at hr ⊢
    rcases hprobe : requestUnlessProbed probe (g.requestAddr target) with f | requests
    · rw [hprobe] at hr
      cases hr
    · rw [hprobe] at hr
      cases hr
      exact ⟨_, rfl, rfl, hrow _⟩

theorem openEndedPrefetcher_agree {t t' : Tables} (h : t.DCPT = t'.DCPT)
    {probe : Addr → Except Fault Bool} {PC addr : Addr} {r : Tables × List Addr}
    (hr : openEndedPrefetcher g probe PC addr t = .ok r) :
    ∃ r', openEndedPrefetcher g probe PC addr t' = .ok r' ∧ r'.2 = r.2 ∧
      r.1.DCPT = r'.1.DCPT := by
  unfold openEndedPrefetcher at hr ⊢
  dsimp only at hr ⊢
  rw [← h]
  rcases hv : openEndedRow g probe (PC >>> 2) addr (t.DCPT (dcptIndex PC)) with f | v
  · rw [hv] at hr
    cases hr
  · rw [hv] at hr
    cases hr
    exact ⟨_, rfl, rfl, congrArg (fun cells => Function.update cells _ _) h⟩

/-- A prefetcher depends on its own part of the tables, and changes it in the
    same way. -/
theorem generatePrefetch_agree {t t' : Tables} (h : SamePart g.prefetchType t t')
    {probe : Addr → Except Fault Bool} {PC addr : Addr} {r : Tables × List Addr}
    (hr : generatePrefetch g probe PC addr t = .ok r) :
    ∃ r', generatePrefetch g probe PC addr t' = .ok r' ∧ r'.2 = r.2 ∧
      SamePart g.prefetchType r.1 r'.1 := by
  unfold generatePrefetch at hr ⊢
  split at hr
  · rename_i htype
    rw [htype] at h ⊢
    cases hr
    exact ⟨_, rfl, rfl, h⟩
  · rename_i htype
    rw [htype] at h ⊢
    rcases hline : nextLinePrefetcher g probe addr with f | requests
    · rw [hline] at hr
      cases hr
    · rw [hline] at hr
      cases hr
      exact ⟨_, rfl, rfl, h⟩
  · rename_i htype
    rw [htype] at h ⊢
    rcases openEndedPrefetcher_agree (h.dcpt rfl) hr with ⟨r', hr', hrequests, hpart⟩
    exact ⟨r', hr', hrequests, fun _ => by omega, fun _ => hpart⟩
  · -- Every type above two is the stride prefetcher, as `cache.c` tests for it last.
    rename_i h0 h1 h2
    have htype : 2 < g.prefetchType := two_lt_of_ne h0 h1 h2
    rcases stridePrefetcher_agree (h.rpt htype) hr with ⟨r', hr', hrequests, hpart⟩
    exact ⟨r', hr', hrequests, fun _ => hpart, fun heq => absurd heq h2⟩

/-- A prefetcher leaves the part of another type alone. -/
theorem generatePrefetch_other {type : Nat} (h : ¬ Shares g.prefetchType type)
    (probe : Addr → Except Fault Bool) (PC addr : Addr) (t : Tables) :
    Ends (fun _ => True) (generatePrefetch g probe PC addr t) fun r => SamePart type r.1 t := by
  unfold generatePrefetch
  split
  · exact .ret (.refl type t)
  · exact (Ends.any _).bind fun _ _ => .ret (.refl type t)
  · -- The delta correlation prefetcher leaves `RPT` alone, and type two shares nothing with the
    -- other part.
    rename_i htype
    unfold openEndedPrefetcher
    refine (Ends.any _).bind fun v _ => .ret ⟨fun _ => rfl, fun heq => ?_⟩
    exact absurd (.inr ⟨htype, heq⟩) h
  · rename_i h0 h1 h2
    have htype : 2 < g.prefetchType := two_lt_of_ne h0 h1 h2
    have hpart : ∀ row, SamePart type (t.setRptRow (g.rptIndex PC) row) t := fun row =>
      ⟨fun hlt => absurd (.inl ⟨htype, hlt⟩) h, fun _ => rfl⟩
    unfold stridePrefetcher
    dsimp only
    split
    · exact (Ends.any _).bind fun _ _ => .ret (hpart _)
    · exact .ret (hpart _)

/-! ### Calls -/

/-- What a call of a prefetcher may depend on: the `PC`, the address, and the
    contents of the cache. -/
structure Own where
  PC : Addr
  addr : Addr
  probe : Addr → Except Fault Bool

/-- A call, with the number of rows that are allocated, and what it makes of
    it all. -/
structure Call extends Own where
  rows : Nat
  requests : Except Fault (List Addr)

/-- The call in an entry of a log. -/
def callOf : Event g → Option Call
  | .generate PC addr c t =>
      some { PC := PC, addr := addr, probe := c.probe, rows := t.RPT.rows
             requests := (generatePrefetch g c.probe PC addr t).map Prod.snd }
  | _ => none

/-- The calls in a log, the latest first. -/
def callsOf (log : List (Event g)) : List Call := log.filterMap callOf

theorem callsOf_congr {log log' : List (Event g)} (h : calls log' = calls log) :
    callsOf log' = callsOf log := by
  have hcalls : ∀ log : List (Event g), callsOf log = (calls log).filterMap callOf := by
    intro log
    unfold callsOf calls
    rw [List.filterMap_filter]
    refine List.filterMap_congr fun ev _ => ?_
    cases ev <;> rfl
  rw [hcalls, hcalls, h]

/-- The tables of a cache that is alone, after these calls. -/
def solo (g : Geometry) : List Own → Tables
  | [] => Tables.initial.create g.prefetchType
  | u :: l =>
      match generatePrefetch g u.probe u.PC u.addr (solo g l) with
      | .ok r => r.1
      | .error _ => solo g l

/-- What the calls request when the cache is alone. -/
def soloRequests (g : Geometry) : List Own → List (Except Fault (List Addr))
  | [] => []
  | u :: l =>
      (generatePrefetch g u.probe u.PC u.addr (solo g l)).map Prod.snd :: soloRequests g l

/-- The part of the tables that the cache uses, and the calls in its log, are
    what they would be if the cache were alone. -/
structure Tied (g : Geometry) (t : Tables) (log : List (Event g)) : Prop where
  part : SamePart g.prefetchType t (solo g ((callsOf log).map Call.toOwn))
  requests : (callsOf log).map Call.requests = soloRequests g ((callsOf log).map Call.toOwn)
  rows : 2 < g.prefetchType → ∀ c ∈ callsOf log, c.rows = g.prefetchType

theorem Tied.congr {t t' : Tables} {log log' : List (Event g)} (h : Tied g t log)
    (ht : SamePart g.prefetchType t' t) (hlog : calls log' = calls log) : Tied g t' log' := by
  have hcalls := callsOf_congr hlog
  refine ⟨?_, ?_, ?_⟩
  · rw [hcalls]
    exact ht.trans h.part
  · rw [hcalls]
    exact h.requests
  · rw [hcalls]
    exact h.rows

/-- The number of rows does not change. -/
theorem generatePrefetch_rows (probe : Addr → Except Fault Bool) (PC addr : Addr) (t : Tables) :
    Ends (fun _ => True) (generatePrefetch g probe PC addr t) fun r =>
      r.1.RPT.rows = t.RPT.rows := by
  unfold generatePrefetch
  split
  · exact .ret rfl
  · exact (Ends.any _).bind fun _ _ => .ret rfl
  · unfold openEndedPrefetcher
    exact (Ends.any _).bind fun _ _ => .ret rfl
  · unfold stridePrefetcher
    dsimp only
    split
    · exact (Ends.any _).bind fun _ _ => .ret rfl
    · exact .ret rfl

theorem solo_rows (htype : 2 < g.prefetchType) (l : List Own) :
    (solo g l).RPT.rows = g.prefetchType := by
  -- The table was made with as many rows as the type, and a call changes rows, not their
  -- number.
  induction l with
  | nil =>
      unfold solo Tables.create
      rw [if_pos htype]
  | cons u l ih =>
      rw [solo]
      rcases hr : generatePrefetch g u.probe u.PC u.addr (solo g l) with f | r
      · exact ih
      · exact ((generatePrefetch_rows ..).of_eq hr).trans ih

/-- A call keeps the cache tied. -/
theorem Tied.generate {t : Tables} {log : List (Event g)} (h : Tied g t log) {c : State g}
    {PC addr : Addr} {r : Tables × List Addr} (hr : generatePrefetch g c.probe PC addr t = .ok r) :
    Tied g r.1 (.generate PC addr c t :: log) := by
  rcases generatePrefetch_agree h.part hr with ⟨r', hr', hrequests, hpart⟩
  have hcalls : callsOf (.generate PC addr c t :: log) =
      { PC := PC, addr := addr, probe := c.probe, rows := t.RPT.rows
        requests := (generatePrefetch g c.probe PC addr t).map Prod.snd } :: callsOf log := rfl
  -- On its own the cache made the same call, with the same part of the tables.
  refine ⟨?_, ?_, fun htype => ?_⟩
  · rw [hcalls, List.map_cons, solo]
    dsimp only
    rw [hr']
    exact hpart
  · rw [hcalls, List.map_cons, List.map_cons, soloRequests, h.requests]
    dsimp only
    rw [hr, hr']
    exact congrArg (fun l => Except.ok l :: _) hrequests.symm
  · rw [hcalls]
    refine List.forall_mem_cons.mpr ⟨?_, h.rows htype⟩
    exact (congrArg Rpt.rows (h.part.rpt htype)).trans (solo_rows htype _)

/-- A cache stays tied as long as what lies behind it leaves its part of the
    tables alone. -/
theorem runInvariant_own {ω : Type} {out : Outside (Tables × ω)}
    (hout : ∀ t, Keeps (fun _ => True) out fun x => SamePart g.prefetchType x.1 t) :
    RunInvariant (fun _ => True) out fun s : Sys g (Tables × ω) => Tied g s.tables s.env.log where
  fatal _ _ := trivial
  serve s cmd _ now prefetch hs :=
    (serve_frame (hout s.tables) cmd trivial now prefetch (.refl _ _)).mono fun _ hr =>
      ⟨hs.congr hr.1 hr.2, fun _ => trivial⟩
  predict s PC addr hs := by
    rcases hr : generatePrefetch g s.cache.probe PC addr s.tables with f | r
    · exact .fail trivial
    · exact .ret (hs.generate hr)
  flush s now hs :=
    (flush_frame (hout s.tables) now s.cache (.refl _ _)).mono fun _ hr => hs.congr hr.1 hr.2
  flushAddr s addr now hs :=
    (flushAddr_frame (hout s.tables) addr now s.cache (.refl _ _)).mono fun _ hr =>
      hs.congr hr.1 hr.2

/-! ### The caches of a world -/

/-- No other cache uses the part of this one. -/
def Unshared (G : Fin k → Geometry) (i : Fin k) : Prop :=
  ∀ j, j ≠ i → ¬ Shares (G j).prefetchType (G i).prefetchType

section World

variable {G : Fin k → Geometry} {ρ : Type} {H : Hierarchy k} {draw : ρ → BitVec 32 × ρ} {i : Fin k}

theorem samePart_foldl_create {type : Nat} (l : List (Fin k))
    (h : ∀ j ∈ l, ¬ Shares (G j).prefetchType type) (t : Tables) :
    SamePart type (l.foldl (fun t j => t.create (G j).prefetchType) t) t := by
  induction l generalizing t with
  | nil => exact .refl type t
  | cons j l ih =>
      exact (ih (fun j' hj' => h j' (List.mem_cons_of_mem j hj')) _).trans
        (samePart_create_other (h j List.mem_cons_self) t)

/-- The caches that are created later leave the part alone, and what the
    earlier ones have made of it does not matter. -/
theorem samePart_createAll (h : Unshared G i) :
    SamePart (G i).prefetchType (createAll G) (Tables.initial.create (G i).prefetchType) := by
  rcases List.append_of_mem (List.mem_finRange i) with ⟨pre, post, hsplit⟩
  have hnodup := List.nodup_finRange k
  rw [hsplit] at hnodup
  -- A list of all caches names each once, so the later ones are others.
  have hpost : ∀ j ∈ post, ¬ Shares (G j).prefetchType (G i).prefetchType := by
    intro j hj
    refine h j fun heq => ?_
    subst heq
    exact (List.nodup_cons.mp hnodup.of_append_right).1 hj
  unfold createAll
  rw [hsplit, List.foldl_append, List.foldl_cons]
  exact (samePart_foldl_create post hpost _).trans (samePart_create _ _ _)

/-- What lies behind a cache keeps a property of the world, if the next level
    does. -/
theorem keeps_behind {W : World G ρ → Prop} {PC : Addr} {j : Fin k}
    (hdraw : ∀ (x : World G ρ) seed, W x → W (x.1, { x.2 with seed := seed }))
    (hnext : ∀ j', H.next j = some j' →
      RunInvariant (fun _ => True) (behind H draw PC j') fun s => W (put j' s)) :
    Keeps (fun _ => True) (behind H draw PC j) W where
  call cmd baddr size now prefetch x r hx hcall := by
    -- Behind the last level is memory, which has no tables.
    rcases hj : H.next j with _ | j'
    · rw [behind_none hj] at hcall
      cases hcall
      exact hx
    · have hstart : W (put j' (x.sys j')) := by rwa [put_sys]
      have haccess := (hnext j' hj).access PC cmd baddr (BitVec.ofNat 32 size) now prefetch hstart
      rw [behind_some hj] at hcall
      split at hcall
      · rename_i lat s hs
        cases hcall
        exact haccess.of_eq hs
      · cases hcall
  refuse _ _ _ _ _ _ _ _ _ := trivial
  nullPointer := trivial
  assertion _ := trivial
  endless := trivial
  draw x hx := by
    rw [behind_myrand]
    exact hdraw x _ hx

/-- The caches below leave the part alone. -/
theorem keeps_part (h : Unshared G i) (PC : Addr) (t : Tables) (j : Fin k)
    (hj : H.level j ≤ H.level i) :
    Keeps (fun _ => True) (behind H draw PC j)
      fun x : World G ρ => SamePart (G i).prefetchType x.1 t := by
  -- By induction on the level; the next level is another cache than `i`.
  induction hn : H.level j using Nat.strong_induction_on generalizing j with
  | _ n ih =>
      refine keeps_behind (fun _ _ hx => hx) fun j' hnext => ?_
      have hlt := H.next_lt hnext
      have hne : j' ≠ i := by
        intro heq
        subst heq
        omega
      refine runInvariant_shared (ih _ (by omega) j' (by omega) rfl) fun probe PC addr x hx => ?_
      exact (generatePrefetch_other (h j' hne) probe PC addr x.1).mono fun _ hr => hr.trans hx

/-- The cache of a world is tied. -/
def TiedIn (i : Fin k) (x : World G ρ) : Prop := Tied (G i) x.1 (x.2.logs i)

/-- Every cache keeps a cache with an unshared part tied. -/
theorem runInvariant_tied (h : Unshared G i) (PC : Addr) (j : Fin k)
    (hout : j ≠ i → Keeps (fun _ => True) (behind H draw PC j) (TiedIn (G := G) i)) :
    RunInvariant (fun _ => True) (behind H draw PC j)
      fun s : Sys (G j) (World G ρ) => TiedIn i (put j s) := by
  -- At the cache itself the property is one of its own tables and log. At another one it is
  -- one of the world behind it, which the calls there leave alone.
  by_cases hji : j = i
  · subst hji
    have hown : (fun s : Sys (G j) (World G ρ) => TiedIn j (put j s))
        = fun s => Tied (G j) s.tables s.env.log := by
      funext s
      unfold TiedIn put
      dsimp only
      rw [Function.update_self]
      rfl
    rw [hown]
    exact runInvariant_own fun t => keeps_part h PC t j le_rfl
  · have hother : (fun s : Sys (G j) (World G ρ) => TiedIn i (put j s))
        = fun s => TiedIn i s.env.shared := by
      funext s
      unfold TiedIn put
      dsimp only
      rw [Function.update_of_ne (Ne.symm hji)]
    rw [hother]
    refine runInvariant_shared (hout hji) fun probe PC addr x hx => ?_
    exact (generatePrefetch_other (h j hji) probe PC addr x.1).mono fun _ hr => hx.congr hr rfl

theorem keeps_tied (h : Unshared G i) (PC : Addr) (j : Fin k) :
    Keeps (fun _ => True) (behind H draw PC j) (TiedIn (G := G) (ρ := ρ) i) := by
  induction hn : H.level j using Nat.strong_induction_on generalizing j with
  | _ n ih =>
      refine keeps_behind (fun _ _ hx => hx) fun j' hnext => runInvariant_tied h PC j' fun _ => ?_
      have hlt := H.next_lt hnext
      exact ih _ (by omega) j' rfl

/-- The part of a cache follows its own calls in every run, if no other cache
    uses it. -/
theorem sysRun_tied (h : Unshared G i) (seed : ρ) (as : List (SysOp k)) :
    Ends (fun _ => True) (sysRun G H draw seed as) (TiedIn i) := by
  refine Ends.foldlM (fun _ => TiedIn i) as ?_ fun _ a x _ hx => ?_
  · exact ⟨samePart_createAll h, rfl, fun _ => nofun⟩
  · have hstart : TiedIn i (put a.cache (x.sys a.cache)) := by rwa [put_sys]
    exact ((runInvariant_tied h a.PC a.cache fun _ => keeps_tied h a.PC a.cache).step hstart
      a.op).bind fun _ hs => .ret hs

/-- The calls of the prefetcher of a cache, the latest first. -/
def history (x : World G ρ) (i : Fin k) : List Call := callsOf (x.2.logs i)

end World

/-! ### Two worlds -/

/-- The other caches have no prefetcher. -/
def quiet (G : Fin k → Geometry) (i : Fin k) : Fin k → Geometry := fun j =>
  if j = i then G j else { G j with prefetchType := 0, prefetchType_lt := Nat.two_pow_pos 31 }

/-- In every run, whatever the next levels and the random numbers are, a cache
    uses only rows that are allocated for it. And whenever it has the same
    calls with the same contents in a run in which the other caches have no
    prefetcher, its calls request the same. -/
def Noninterference (G : Fin k → Geometry) : Prop :=
  ∀ (H : Hierarchy k) (ρ : Type) (draw : ρ → BitVec 32 × ρ) (seed : ρ) (as : List (SysOp k))
    (x : World G ρ), sysRun G H draw seed as = .ok x → ∀ i,
    (2 < (G i).prefetchType → ∀ c ∈ history x i, (G i).rptIndex c.PC < c.rows) ∧
    ∀ (H' : Hierarchy k) (ρ' : Type) (draw' : ρ' → BitVec 32 × ρ') (seed' : ρ')
      (as' : List (SysOp k)) (x' : World (quiet G i) ρ'),
      sysRun (quiet G i) H' draw' seed' as' = .ok x' →
      (history x' i).map Call.toOwn = (history x i).map Call.toOwn →
      (history x' i).map Call.requests = (history x i).map Call.requests

theorem quiet_self (G : Fin k → Geometry) (i : Fin k) : quiet G i i = G i := if_pos rfl

theorem prefetchType_quiet (G : Fin k → Geometry) {i j : Fin k} (h : j ≠ i) :
    (quiet G i j).prefetchType = 0 := by
  unfold quiet
  rw [if_neg h]

theorem unshared_quiet (G : Fin k → Geometry) (i : Fin k) : Unshared (quiet G i) i := by
  intro j hj hshares
  rw [prefetchType_quiet G hj] at hshares
  unfold Shares at hshares
  omega

/-- Caches that do not share their parts of the tables do not interfere. -/
theorem noninterference_of_unshared {G : Fin k → Geometry} (h : ∀ i, Unshared G i) :
    Noninterference G := by
  intro H ρ draw seed as x hx i
  have htied := (sysRun_tied (h i) seed as).of_eq hx
  refine ⟨fun htype c hc => ?_, fun H' ρ' draw' seed' as' x' hx' hown => ?_⟩
  · rw [htied.rows htype c hc]
    exact Nat.mod_lt _ (by omega)
  · -- The other system is compared with the same cache alone, where all others are quiet.
    have htied' := (sysRun_tied (unshared_quiet G i) seed' as').of_eq hx'
    calc (history x' i).map Call.requests
        = soloRequests (quiet G i i) ((history x' i).map Call.toOwn) := htied'.requests
      _ = soloRequests (G i) ((history x i).map Call.toOwn) := by rw [hown, quiet_self]
      _ = (history x i).map Call.requests := htied.requests.symm

end Cache

end MicroArch
