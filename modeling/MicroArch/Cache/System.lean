import MicroArch.Cache.Machine

/-!
# Several Caches

The caches of a program, as `sim_check_options` creates them. Each has its own
sets and counters. The tables of the prefetchers and the random numbers are
shared, and every `cache_create` may reset a table.

The `blk_access_fn` of a cache is an access to the cache of the next level, or
to the memory, which answers at once. It is made with the same `PC`. The next
levels go down, so no access comes back to a cache that it has come through.

What lies behind a cache is therefore defined by recursion on the level. It has
the same type as any other outside of a cache, so all that is known of a cache
with an arbitrary outside is known of every cache of a hierarchy. A fault of the
next level is returned as it is, inside `Fault.outside`, and so the nesting of
that constructor tells the level at which the fault occurred.

The state that an outside works on is the whole world, with the cache that calls
it among the others. While that one is in hand its entry in the world is old,
and `put` writes it back when the operation is done. No access behind it looks
at the entry, because the levels go down.

## Main definitions

* `Hierarchy`: The next level of each cache.
* `World`: The tables, the caches with their logs, and the random numbers.
* `behind`: What lies behind a cache.
* `createAll`: The tables after all caches were created.
* `SysOp`, `sysRun`: The operations on the caches and their runs.
-/

namespace MicroArch

namespace Cache

variable {k : Nat}

/-- The next level of each cache, if there is one, further down. -/
structure Hierarchy (k : Nat) where
  next : Fin k → Option (Fin k)
  level : Fin k → Nat
  next_lt : ∀ {i j}, next i = some j → level j < level i

/-- Caches that all read the memory. -/
def Hierarchy.flat (k : Nat) : Hierarchy k :=
  { next := fun _ => none, level := fun _ => 0, next_lt := nofun }

/-- The caches with their logs, and the state of the random numbers. -/
structure Others (G : Fin k → Geometry) (ρ : Type) where
  caches : ∀ i, State (G i)
  logs : ∀ i, List (Event (G i))
  seed : ρ

/-- All that a program changes. -/
abbrev World (G : Fin k → Geometry) (ρ : Type) := Tables × Others G ρ

variable {G : Fin k → Geometry} {ρ : Type}

/-- A cache of the world and its surroundings, which is the world. -/
def World.sys (x : World G ρ) (i : Fin k) : Sys (G i) (World G ρ) :=
  { cache := x.2.caches i, env := { shared := x, log := x.2.logs i } }

/-- The world once a cache is done. -/
def put (i : Fin k) (s : Sys (G i) (World G ρ)) : World G ρ :=
  (s.env.shared.1,
    { s.env.shared.2 with
      caches := Function.update s.env.shared.2.caches i s.cache
      logs := Function.update s.env.shared.2.logs i s.env.log })

/-- What lies behind a cache. -/
def behind (H : Hierarchy k) (draw : ρ → BitVec 32 × ρ) (PC : Addr) (i : Fin k) :
    Outside (World G ρ) :=
  { blkAccess := fun cmd baddr bsize now prefetch x =>
      match _h : H.next i with
      | none => .ok (1, x)
      | some j =>
          match cacheAccess (behind H draw PC j) (generate (behind H draw PC j) PC baddr) cmd baddr
            (BitVec.ofNat 32 bsize) now prefetch (x.sys j) with
          | .ok (lat, s) => .ok (lat, put j s)
          | .error fault => .error fault
    myrand := fun x => ((draw x.2.seed).1, x.1, { x.2 with seed := (draw x.2.seed).2 }) }
termination_by H.level i
decreasing_by exact H.next_lt _h

/-- What the program or a driver asks of a cache. -/
inductive Task where
  | access (cmd : Cmd) (addr : Addr) (nbytes : BitVec 32) (now : Tick)
  | flush (now : Tick)
  | flushAddr (addr : Addr) (now : Tick)

/-- An operation on one of the caches, by a program that runs at `PC`. -/
structure SysOp (k : Nat) where
  cache : Fin k
  PC : Addr
  task : Task

def SysOp.op (a : SysOp k) : Op :=
  match a.task with
  | .access cmd addr nbytes now => .demand a.PC cmd addr nbytes now
  | .flush now => .flush now
  | .flushAddr addr now => .flushAddr addr now

/-- One operation. -/
def sysStep (H : Hierarchy k) (draw : ρ → BitVec 32 × ρ) (x : World G ρ) (a : SysOp k) :
    Except Fault (World G ρ) := do
  let s ← step (behind H draw a.PC a.cache) (x.sys a.cache) a.op
  return put a.cache s

/-- The tables after all caches were created, in their order. -/
def createAll (G : Fin k → Geometry) : Tables :=
  (List.finRange k).foldl (fun t i => t.create (G i).prefetchType) .initial

/-- The world before the program runs. -/
def created (G : Fin k → Geometry) (seed : ρ) : World G ρ :=
  (createAll G, { caches := fun i => cacheCreate (G i), logs := fun _ => [], seed := seed })

/-- The run of a sequence of operations on new caches. -/
def sysRun (G : Fin k → Geometry) (H : Hierarchy k) (draw : ρ → BitVec 32 × ρ) (seed : ρ)
    (as : List (SysOp k)) : Except Fault (World G ρ) :=
  as.foldlM (sysStep H draw) (created G seed)

/-! ### One cache of the world -/

theorem behind_none {H : Hierarchy k} {i : Fin k} (h : H.next i = none)
    (draw : ρ → BitVec 32 × ρ) (PC : Addr) (cmd : Cmd) (baddr : Addr) (bsize : Nat) (now : Tick)
    (prefetch : Bool) (x : World G ρ) :
    (behind H draw PC i).blkAccess cmd baddr bsize now prefetch x = .ok (1, x) := by
  rw [behind]
  dsimp only
  split
  · rfl
  · rename_i j hj
    exact absurd (h.symm.trans hj) nofun

theorem behind_some {H : Hierarchy k} {i j : Fin k} (h : H.next i = some j)
    (draw : ρ → BitVec 32 × ρ) (PC : Addr) (cmd : Cmd) (baddr : Addr) (bsize : Nat) (now : Tick)
    (prefetch : Bool) (x : World G ρ) :
    (behind H draw PC i).blkAccess cmd baddr bsize now prefetch x =
      match cacheAccess (behind H draw PC j) (generate (behind H draw PC j) PC baddr) cmd baddr
        (BitVec.ofNat 32 bsize) now prefetch (x.sys j) with
      | .ok (lat, s) => .ok (lat, put j s)
      | .error fault => .error fault := by
  rw [behind]
  dsimp only
  split
  · rename_i hnone
    exact absurd (h.symm.trans hnone) nofun
  · rename_i j' hj
    cases h.symm.trans hj
    rfl

theorem behind_myrand (H : Hierarchy k) (draw : ρ → BitVec 32 × ρ) (PC : Addr) (i : Fin k)
    (x : World G ρ) :
    (behind H draw PC i).myrand x =
      ((draw x.2.seed).1, x.1, { x.2 with seed := (draw x.2.seed).2 }) := by
  rw [behind]

theorem put_sys (i : Fin k) (x : World G ρ) : put i (x.sys i) = x := by
  unfold put World.sys
  dsimp only
  rw [Function.update_eq_self, Function.update_eq_self]

end Cache

end MicroArch
