import MicroArch.Cache.Traffic
import MicroArch.SimCache.Transparent

/-!
# What the Counters Count

The statistics of the caches against the instructions that were executed.

A cache is demanded what it is used for. One fetch is made for an instruction,
by the TLB and the cache of the first level, and the accesses of data are told
by the opcodes. A level that two uses share gets both. The rest of what a cache
has counted was sent by the caches in front of it.

`sim_num_refs` is said to be the number of loads and stores. It counts each
once, but an access of two words is two accesses of the cache, and so is a
store of a part of a word, which reads the word first.

## Main definitions

* `stepAccesses`: The accesses of data that a turn makes.
* `Caches.instUses`, `Caches.dataUses`: How often a cache is used.
* `simNumRefs`: The statistic `sim_num_refs`.

## Theorems

* `asks_references`: What a run demands of a cache.
* `simMain_counts`: What a cache counts in a run.
* `simNumRefs_bounds`: The statistic against the accesses.
-/

namespace MicroArch

namespace SimCache

open Cache (Cmd Geometry Hierarchy SysOp Task demandsOn readsOn traffic_at)
open Pisa (Host MD_OP_FLAGS Op Step mem_opcodes opcodes)
open Tomasulo (F_MEM)

variable {ω : Type} {k : Nat}

/-- The accesses of data that a turn makes. -/
def stepAccesses (c : Caches k) (sys : SysAccesses ω) (e : Step ω) : List Cmd :=
  if e.op = .SYSCALL then
    if c.flush_on_syscalls then [] else (sys e.inst e.before).map Access.cmd
  else (shapes e.op).map Prod.fst

/-- Those of a run. -/
def runAccesses (c : Caches k) (sys : SysAccesses ω) (steps : List (Step ω)) : List Cmd :=
  steps.flatMap (stepAccesses c sys)

/-- The statistic `sim_num_refs`. -/
def simNumRefs (steps : List (Step ω)) : Nat :=
  steps.countP fun e => MD_OP_FLAGS e.op &&& F_MEM ≠ 0

/-! ### Demands -/

/-- The accesses of a cache with some commands. -/
def asks (p : Cmd → Bool) (j : Fin k) (as : List (SysOp k)) : Nat :=
  as.countP fun a => a.cache = j && match a.task with
    | .access cmd .. => p cmd
    | _ => false

theorem demandsOn_eq (j : Fin k) (as : List (SysOp k)) :
    demandsOn j as = asks (fun _ => true) j as := by
  refine List.countP_congr fun a _ => ?_
  rcases a with ⟨i, PC, task⟩
  cases task <;> rfl

theorem readsOn_eq (j : Fin k) (as : List (SysOp k)) :
    readsOn j as = asks (· == .Read) j as := by
  refine List.countP_congr fun a _ => ?_
  rcases a with ⟨i, PC, task⟩
  cases task with
  | access cmd => cases cmd <;> rfl
  | _ => rfl

variable (p : Cmd → Bool) (j : Fin k)

/-- Whether a cache is the one. -/
def uses (cache : Option (Fin k)) : Nat := if cache = some j then 1 else 0

theorem asks_append (as bs : List (SysOp k)) :
    asks p j (as ++ bs) = asks p j as + asks p j bs := by
  rw [asks, List.countP_append]
  rfl

theorem asks_on (cache : Option (Fin k)) (PC : Pisa.Word) (task : Task) :
    asks p j (Caches.on cache PC task) = match task with
      | .access cmd .. => if p cmd then uses j cache else 0
      | _ => 0 := by
  rcases cache with _ | i
  · cases task <;> simp [Caches.on, asks, uses]
  · cases task with
    | access cmd =>
        -- One access, of a cache that is the one in question or is not.
        by_cases hi : i = j
        · cases hp : p cmd <;> simp [Caches.on, asks, uses, hi, hp]
        · cases hp : p cmd <;> simp [Caches.on, asks, uses, hi]
    | _ => simp [Caches.on, asks]

namespace Caches

variable (c : Caches k)

/-- How often a cache is accessed for a fetch. -/
def instUses : Nat := uses j c.itlb + uses j c.cache_il1

/-- How often a cache is accessed for an access of data. -/
def dataUses : Nat := uses j c.dtlb + uses j c.cache_dl1

theorem asks_fetch (PC : Pisa.Word) :
    asks p j (c.fetch PC) = if p .Read then c.instUses j else 0 := by
  simp only [fetch, asks_append, asks_on, instUses]
  split_ifs <;> rfl

theorem asks_data (PC : Pisa.Word) (a : Access) :
    asks p j (c.data PC a) = if p a.cmd then c.dataUses j else 0 := by
  simp only [data, asks_append, asks_on, dataUses]
  split_ifs <;> rfl

theorem asks_datas (PC : Pisa.Word) (as : List Access) :
    asks p j (as.flatMap (c.data PC)) = (as.map Access.cmd).countP p * c.dataUses j := by
  induction as with
  | nil => exact (Nat.zero_mul _).symm
  | cons a as ih =>
      -- Each access of data is made in both caches for data, where they are used.
      rw [List.flatMap_cons, asks_append, ih, asks_data, List.map_cons, List.countP_cons,
        Nat.add_mul]
      cases p a.cmd <;> simp [Nat.add_comm]

/-- What is demanded of a cache for a reference. -/
def asked : Shape → Nat
  | .fetch _ => if p .Read then c.instUses j else 0
  | .data cmd _ => if p cmd then c.dataUses j else 0
  | .syscall as =>
    if c.flush_on_syscalls then 0 else (as.map Access.cmd).countP p * c.dataUses j

theorem asks_ops (r : Ref) : asks p j (c.ops r) = c.asked p j r.shape := by
  cases r with
  | fetch PC => exact c.asks_fetch p j PC
  | data PC a => exact c.asks_data p j PC a
  | syscall PC as =>
      rw [ops, Ref.shape, asked]
      split
      · -- A flush is no access.
        simp only [flush, asks_append, asks_on]
      · exact c.asks_datas p j PC as

theorem asks_refs (refs : List Ref) :
    asks p j (refs.flatMap c.ops) = ((refs.map Ref.shape).map (c.asked p j)).sum := by
  induction refs with
  | nil => rfl
  | cons r refs ih =>
      rw [List.flatMap_cons, asks_append, asks_ops, ih]
      rfl

/-- What is demanded in a turn. -/
theorem asked_step (sys : SysAccesses ω) (e : Step ω) :
    ((stepShapes sys e).map (c.asked p j)).sum =
      (if p .Read then c.instUses j else 0)
        + (stepAccesses c sys e).countP p * c.dataUses j := by
  rw [stepShapes, List.map_cons, List.sum_cons]
  -- The fetch is the head; the rest are the accesses of the instruction.
  refine congrArg _ ?_
  unfold opShapes stepAccesses
  by_cases hop : e.op = .SYSCALL
  · rw [if_pos hop, if_pos hop, List.map_singleton, List.sum_singleton, asked]
    split
    · rw [List.countP_nil, Nat.zero_mul]
    · rfl
  · rw [if_neg hop, if_neg hop]
    generalize shapes e.op = l
    induction l with
    | nil => exact (Nat.zero_mul _).symm
    | cons a l ih =>
        rw [List.map_cons, List.map_cons, List.sum_cons, ih, List.map_cons, List.countP_cons,
          Nat.add_mul, asked]
        cases p a.1 <;> simp [Nat.add_comm]

theorem asked_steps (sys : SysAccesses ω) (steps : List (Step ω)) :
    ((steps.flatMap (stepShapes sys)).map (c.asked p j)).sum =
      (if p .Read then steps.length * c.instUses j else 0)
        + (runAccesses c sys steps).countP p * c.dataUses j := by
  induction steps with
  | nil =>
      cases p .Read <;> simp [runAccesses]
  | cons e steps ih =>
      have hcons : (runAccesses c sys (e :: steps)).countP p
          = (stepAccesses c sys e).countP p + (runAccesses c sys steps).countP p := by
        rw [runAccesses, List.flatMap_cons, List.countP_append]
        rfl
      rw [List.flatMap_cons, List.map_append, List.sum_append, asked_step, ih, hcons,
        List.length_cons, Nat.add_mul, Nat.add_mul]
      split_ifs <;> omega

end Caches

/-- What a run demands of a cache. -/
theorem asks_references {host : Host ω} {sys : SysAccesses ω} {n : Nat} {s s' : Pisa.State ω}
    {steps : List (Step ω)} (c : Caches k) (h : simSafe host n s = .ok (steps, s')) :
    asks p j ((references host sys n s).flatMap c.ops) =
      (if p .Read then steps.length * c.instUses j else 0)
        + (runAccesses c sys steps).countP p * c.dataUses j := by
  have hshaped := ((simRun_follows host sys n (started s)).logged h).1
  rw [Caches.asks_refs, ← c.asked_steps p j sys steps, ← hshaped]
  rfl

theorem length_safeRun {host : Host ω} (n : Nat) {s s' : Pisa.State ω} {steps : List (Step ω)}
    (h : safeRun host n s = .ok (steps, s')) : steps.length = n := by
  induction n generalizing steps s' with
  | zero =>
      cases h
      rfl
  | succ n ih =>
      -- `safeRun` appends the last turn to the run before it.
      rcases Pisa.bind_eq_ok.mp h with ⟨pre, s₁, hpre, hlast⟩
      rcases Pisa.bind_eq_ok.mp hlast with ⟨e, s₂, -, hret⟩
      cases hret
      rw [List.length_append, ih hpre, List.length_singleton]

/-! ### The number of references -/

/-- The loads and stores are the opcodes with accesses, and none has more than
    two. -/
theorem shapes_bounds {op : Op} (hop : op ≠ .SYSCALL) :
    (if MD_OP_FLAGS op &&& F_MEM ≠ 0 then 1 else 0) ≤ (shapes op).length ∧
      (shapes op).length ≤ 2 * if MD_OP_FLAGS op &&& F_MEM ≠ 0 then 1 else 0 := by
  -- The table is finite, so the bounds can be read off it.
  have htable : ∀ op ∈ opcodes, op ≠ .SYSCALL →
      (if MD_OP_FLAGS op &&& F_MEM ≠ 0 then 1 else 0) ≤ (shapes op).length ∧
        (shapes op).length ≤ 2 * if MD_OP_FLAGS op &&& F_MEM ≠ 0 then 1 else 0 := by
    decide +kernel
  exact htable op (mem_opcodes op) hop

/-- The accesses of the system calls of a run. -/
def sysAccesses (c : Caches k) (sys : SysAccesses ω) (steps : List (Step ω)) : List Cmd :=
  runAccesses c sys (steps.filter fun e => e.op = .SYSCALL)

theorem simNumRefs_bounds (c : Caches k) (sys : SysAccesses ω) (steps : List (Step ω)) :
    simNumRefs steps + (sysAccesses c sys steps).length ≤ (runAccesses c sys steps).length ∧
      (runAccesses c sys steps).length
        ≤ 2 * simNumRefs steps + (sysAccesses c sys steps).length := by
  induction steps with
  | nil => exact ⟨Nat.le_refl 0, Nat.le_refl 0⟩
  | cons e steps ih =>
      have hrun : (runAccesses c sys (e :: steps)).length
          = (stepAccesses c sys e).length + (runAccesses c sys steps).length := by
        rw [runAccesses, List.flatMap_cons, List.length_append]
        rfl
      have hnum : simNumRefs (e :: steps)
          = simNumRefs steps + if MD_OP_FLAGS e.op &&& F_MEM ≠ 0 then 1 else 0 := by
        simp [simNumRefs, List.countP_cons]
      rw [hrun, hnum]
      by_cases hop : e.op = .SYSCALL
      · -- A system call is no load or store.
        have hflags : MD_OP_FLAGS e.op &&& F_MEM = 0 := by
          rw [hop]
          decide +kernel
        have hsys : (sysAccesses c sys (e :: steps)).length
            = (stepAccesses c sys e).length + (sysAccesses c sys steps).length := by
          unfold sysAccesses
          rw [List.filter_cons_of_pos (by simpa using hop), runAccesses, List.flatMap_cons,
            List.length_append]
          rfl
        rw [hsys, if_neg (not_not.mpr hflags)]
        omega
      · have hsys : sysAccesses c sys (e :: steps) = sysAccesses c sys steps := by
          unfold sysAccesses
          rw [List.filter_cons_of_neg (by simpa using hop)]
        have hstep : (stepAccesses c sys e).length = (shapes e.op).length := by
          rw [stepAccesses, if_neg hop, List.length_map]
        have hbounds := shapes_bounds hop
        rw [hsys, hstep]
        omega

/-- In every simulation with caches, a cache has counted an access for each
    instruction if it is used for instructions, one for each access of data
    if it is used for data, and one for each miss and each write-back of the
    caches in front of it. The statistic of loads and stores counts each of
    them once, which is one or two accesses. -/
theorem simMain_counts {ω ρ : Type} {k : Nat} (G : Fin k → Geometry) (H : Hierarchy k)
    (draw : ρ → BitVec 32 × ρ) (seed : ρ) (c : Caches k) (host : Host ω) (sys : SysAccesses ω)
    (n : Nat) (s : Pisa.State ω) :
    Ends (fun _ => True) (simMain G H draw seed c host sys n s) fun r =>
      (∀ j, (r.2.2.2.caches j).hits + (r.2.2.2.caches j).misses
          = n * c.instUses j + (runAccesses c sys r.1).length * c.dataUses j
            + ∑ i with H.next i = some j,
              ((r.2.2.2.caches i).misses + (r.2.2.2.caches i).writebacks) ∧
        (r.2.2.2.caches j).readHits + (r.2.2.2.caches j).readMisses
          = n * c.instUses j + (runAccesses c sys r.1).count .Read * c.dataUses j
            + ∑ i with H.next i = some j, (r.2.2.2.caches i).misses) ∧
      simNumRefs r.1 + (sysAccesses c sys r.1).length ≤ (runAccesses c sys r.1).length ∧
      (runAccesses c sys r.1).length
        ≤ 2 * simNumRefs r.1 + (sysAccesses c sys r.1).length := by
  rcases hrun : simMain G H draw seed c host sys n s with e | ⟨steps, s', x⟩
  · exact .fail trivial
  · rcases simMain_ok hrun with ⟨hsafe, hx⟩
    refine .ret ⟨fun j => ?_, simNumRefs_bounds c sys steps⟩
    have hlength := length_safeRun n hsafe
    -- What is demanded from outside is what the references demand.
    rcases traffic_at hx j with ⟨hall, hreads, -⟩
    rw [demandsOn_eq, asks_references _ j c hsafe, hlength] at hall
    rw [readsOn_eq, asks_references _ j c hsafe, hlength] at hreads
    refine ⟨?_, ?_⟩
    · simpa using hall
    · exact hreads

end SimCache

end MicroArch
