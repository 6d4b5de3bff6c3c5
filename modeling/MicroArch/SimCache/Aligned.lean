import MicroArch.Library.Ends
import MicroArch.SimCache.Local

/-!
# What the Caches Rule Out

A simulation with caches ends only for programs that are aligned.

The functional simulator checks neither the program counter nor the address of
an access. The caches check every access they are shown: its size must be a
power of two, and divide its address. So in a simulation that ends, all
instructions stand at multiples of their size, if the caches for instructions
are used and get the addresses as they are, and all data is aligned, if those
for data are used.

Then no access leaves its page, and what a run depends on can be said without
that condition: the steps, the registers and all that the caches have counted
depend on the bytes that the program refers to.

## Main definitions

* `Checked`: An operation that the checks of its cache let through.
* `Caches.ChecksFetches`, `Caches.ChecksData`: What is checked.

## Theorems

* `sysRun_checked`: A run of the caches.
* `simMain_aligned`: A simulation with caches.
* `simMain_local`: What it depends on.
-/

namespace MicroArch

namespace SimCache

open Cache (Cmd Geometry Hierarchy SysOp Task World checkAccess oneBlock sysRun sysStep)
open Memory (Addr Byte Contents Mem Within contents_memCreate contents_memWrite_within memCreate
  memWrite)
open Pisa (Beside Host Op Step Word bareHost mem_opcodes opcodes)

variable {ω ρ : Type} {k : Nat} {G : Fin k → Geometry} {H : Hierarchy k}
  {draw : ρ → BitVec 32 × ρ}

/-! ### Checks -/

/-- An operation that the checks of its cache let through. -/
def Checked (G : Fin k → Geometry) (a : SysOp k) : Prop :=
  ∀ cmd addr nbytes now, a.task = .access cmd addr nbytes now →
    checkAccess (G a.cache) addr nbytes = .ok ()

theorem sysStep_checked {x x' : World G ρ} {a : SysOp k} (h : sysStep H draw x a = .ok x') :
    Checked G a := by
  intro cmd addr nbytes now htask
  rcases bind_eq_ok h with ⟨s, hstep, -⟩
  rw [SysOp.op, htask] at hstep
  rcases bind_eq_ok hstep with ⟨r, haccess, -⟩
  -- An access is checked before anything else.
  rcases bind_eq_ok haccess with ⟨u, hcheck, -⟩
  exact hcheck

theorem sysRun_checked (seed : ρ) (as : List (SysOp k)) :
    Ends (fun _ => True) (sysRun G H draw seed as) fun _ => ∀ a ∈ as, Checked G a := by
  refine Ends.foldlM (fun pre _ => ∀ a ∈ pre, Checked G a) as
    (fun a ha => absurd ha List.not_mem_nil) fun pre a x _ hpre => ?_
  rcases hstep : sysStep H draw x a with e | x'
  · exact .fail trivial
  · refine .ret fun b hb => ?_
    rcases List.mem_append.mp hb with hb | hb
    · exact hpre b hb
    · rw [List.mem_singleton.mp hb]
      exact sysStep_checked hstep

/-- The sizes of the accesses. -/
def Width (n : BitVec 32) : Prop := n = 1 ∨ n = 2 ∨ n = 4 ∨ n = 8

theorem aligned_of_checkAccess {g : Geometry} {addr : Addr} {n : BitVec 32} (hn : Width n)
    (h : checkAccess g addr n = .ok ()) : addr.toNat % n.toNat = 0 := by
  have hand : addr &&& (n - 1) = 0 := by
    by_contra hne
    rw [checkAccess, if_pos (.inr hne)] at h
    cases h
  have hnat := congrArg BitVec.toNat hand
  rw [BitVec.toNat_and] at hnat
  -- The sizes are powers of two, so that the mask is a remainder.
  rcases hn with rfl | rfl | rfl | rfl
  · exact Nat.mod_one _
  · exact (Nat.and_two_pow_sub_one_eq_mod addr.toNat 1).symm.trans hnat
  · exact (Nat.and_two_pow_sub_one_eq_mod addr.toNat 2).symm.trans hnat
  · exact (Nat.and_two_pow_sub_one_eq_mod addr.toNat 3).symm.trans hnat

/-! ### References -/

namespace Caches

variable (c : Caches k)

/-- The fetches are checked as they are. -/
def ChecksFetches : Prop := (c.itlb ≠ none ∨ c.cache_il1 ≠ none) ∧ c.compress_icache_addrs = false

/-- The accesses of data are checked. -/
def ChecksData : Prop := c.dtlb ≠ none ∨ c.cache_dl1 ≠ none

variable {c}

/-- An access that is made of one of two caches is checked. -/
theorem checked_on {i j : Option (Fin k)} {PC : Word} {cmd : Cmd} {addr : Addr}
    {nbytes : BitVec 32} (hij : i ≠ none ∨ j ≠ none)
    (h : ∀ a ∈ on i PC (.access cmd addr nbytes 0) ++ on j PC (.access cmd addr nbytes 0),
      Checked G a) :
    ∃ g, checkAccess g addr nbytes = .ok () := by
  rcases hij with hi | hj
  · rcases Option.ne_none_iff_exists'.mp hi with ⟨i, rfl⟩
    exact ⟨G i, h ⟨i, PC, _⟩ (List.mem_append_left _ (List.mem_singleton_self _)) _ _ _ _ rfl⟩
  · rcases Option.ne_none_iff_exists'.mp hj with ⟨j, rfl⟩
    exact ⟨G j, h ⟨j, PC, _⟩ (List.mem_append_right _ (List.mem_singleton_self _)) _ _ _ _ rfl⟩

theorem fetch_aligned (hc : c.ChecksFetches) {PC : Word} (h : ∀ a ∈ c.fetch PC, Checked G a) :
    PC.toNat % 8 = 0 := by
  rcases checked_on hc.1 h with ⟨g, hg⟩
  rw [IACOMPRESS, ISCOMPRESS, hc.2] at hg
  exact aligned_of_checkAccess (.inr (.inr (.inr rfl))) hg

theorem data_aligned (hc : c.ChecksData) {PC : Word} {a : Access} (hn : Width a.nbytes)
    (h : ∀ o ∈ c.data PC a, Checked G o) : a.addr.toNat % a.nbytes.toNat = 0 := by
  rcases checked_on hc h with ⟨g, hg⟩
  exact aligned_of_checkAccess hn hg

end Caches

/-- An instruction accesses one, two or four bytes at a time. -/
theorem width_shapes {op : Op} {a : Cmd × BitVec 32} (h : a ∈ shapes op) :
    a.2 = 1 ∨ a.2 = 2 ∨ a.2 = 4 := by
  have htable : ∀ op ∈ opcodes, ∀ a ∈ shapes op, a.2 = 1 ∨ a.2 = 2 ∨ a.2 = 4 := by
    decide +kernel
  exact htable op (mem_opcodes op) a h

section Runs

variable {host : Host ω} {sys : SysAccesses ω} {n : Nat} {s s' : Pisa.State ω}
  {steps : List (Step ω)}

/-- The references of a run come from its turns. -/
theorem mem_references (h : simSafe host n s = .ok (steps, s')) (p : Shape) :
    (∃ r ∈ references host sys n s, r.shape = p) ↔ ∃ e ∈ steps, p ∈ stepShapes sys e := by
  have hshaped := ((simRun_follows host sys n (started s)).logged h).1
  rw [← List.mem_flatMap, ← hshaped, List.mem_map]
  rfl

theorem fetch_mem (h : simSafe host n s = .ok (steps, s')) {e : Step ω} (he : e ∈ steps) :
    Ref.fetch e.before.regs.PC ∈ references host sys n s := by
  have hmem : ∃ r ∈ references host sys n s, r.shape = .fetch e.before.regs.PC :=
    (mem_references h _).mpr ⟨e, he, List.mem_cons_self ..⟩
  rcases hmem with ⟨r, hr, hshape⟩
  cases r with
  | fetch PC =>
      cases hshape
      exact hr
  | data PC a => cases hshape
  | syscall PC as => cases hshape

theorem width_references (h : simSafe host n s = .ok (steps, s')) {PC : Word} {a : Access}
    (ha : .data PC a ∈ references host sys n s) : a.nbytes = 1 ∨ a.nbytes = 2 ∨ a.nbytes = 4 := by
  rcases (mem_references h (.data a.cmd a.nbytes)).mp ⟨_, ha, rfl⟩ with ⟨e, -, hshape⟩
  rw [stepShapes, List.mem_cons, opShapes] at hshape
  rcases hshape with hfetch | hop
  · cases hfetch
  · split at hop
    · -- The accesses of a system call are shown as one reference.
      cases List.mem_singleton.mp hop
    · rcases List.mem_map.mp hop with ⟨b, hb, heq⟩
      injection heq with _ hsize
      rw [← hsize]
      exact width_shapes hb

/-- What was let through is aligned. -/
theorem fetch_aligned {seed : ρ} {x : World G ρ} {c : Caches k} (hc : c.ChecksFetches)
    {refs : List Ref} (hx : sysRun G H draw seed (refs.flatMap c.ops) = .ok x) {PC : Word}
    (hr : .fetch PC ∈ refs) : PC.toNat % 8 = 0 :=
  Caches.fetch_aligned (G := G) hc fun a ha =>
    (sysRun_checked seed _).of_eq hx a (List.mem_flatMap_of_mem hr ha)

theorem data_aligned {seed : ρ} {x : World G ρ} {c : Caches k} (hc : c.ChecksData)
    {refs : List Ref} (hx : sysRun G H draw seed (refs.flatMap c.ops) = .ok x) {PC : Word}
    {a : Access} (hr : .data PC a ∈ refs) (hn : a.nbytes = 1 ∨ a.nbytes = 2 ∨ a.nbytes = 4) :
    a.addr.toNat % a.nbytes.toNat = 0 := by
  have hwidth : Width a.nbytes := by
    rcases hn with h | h | h
    · exact .inl h
    · exact .inr (.inl h)
    · exact .inr (.inr (.inl h))
  exact Caches.data_aligned (G := G) hc hwidth fun o ho =>
    (sysRun_checked seed _).of_eq hx o (List.mem_flatMap_of_mem hr ho)

end Runs

/-- In a simulation with caches that ends, every instruction stands at a
    multiple of eight if the fetches are checked, and every load and store
    accesses a multiple of its size if those are. -/
theorem simMain_aligned {ω ρ : Type} {k : Nat} (G : Fin k → Geometry) (H : Hierarchy k)
    (draw : ρ → BitVec 32 × ρ) (seed : ρ) (c : Caches k) (host : Host ω) (sys : SysAccesses ω)
    (n : Nat) (s : Pisa.State ω) :
    Ends (fun _ => True) (simMain G H draw seed c host sys n s) fun r =>
      (c.ChecksFetches → ∀ e ∈ r.1, e.before.regs.PC.toNat % 8 = 0) ∧
      (c.ChecksData → ∀ PC a, .data PC a ∈ references host sys n s →
        a.addr.toNat % a.nbytes.toNat = 0) := by
  rcases hrun : simMain G H draw seed c host sys n s with e | ⟨steps, s', x⟩
  · exact .fail trivial
  · rcases simMain_ok hrun with ⟨hsafe, hx⟩
    refine .ret ⟨fun hc e he => ?_, fun hc PC a ha => ?_⟩
    · exact fetch_aligned hc hx (fetch_mem hsafe he)
    · exact data_aligned hc hx ha (width_references hsafe ha)

/-! ### What a simulation depends on -/

theorem within_of_aligned {a : Addr} {n : Nat} (hn : n = 1 ∨ n = 2 ∨ n = 4)
    (h : a.toNat % n = 0) : Within a n := by
  rw [Within, Memory.memOffset_toNat]
  rcases hn with rfl | rfl | rfl <;> omega

/-- A reference that was let through stays on its page. -/
theorem onPage_of_checked {host : Host ω} {sys : SysAccesses ω} {n : Nat} {s s' : Pisa.State ω}
    {steps : List (Step ω)} {seed : ρ} {x : World G ρ} {c : Caches k} (hfetch : c.ChecksFetches)
    (hdata : c.ChecksData) (h : simSafe host n s = .ok (steps, s'))
    (hx : sysRun G H draw seed ((references host sys n s).flatMap c.ops) = .ok x) {r : Ref}
    (hr : r ∈ references host sys n s) : r.OnPage := by
  cases r with
  | fetch PC =>
      have hPC := fetch_aligned hfetch hx hr
      -- The page is a multiple of eight bytes long, so both words are on it.
      refine ⟨within_of_aligned (.inr (.inr rfl)) ?_, within_of_aligned (.inr (.inr rfl)) ?_⟩
      · omega
      · rw [BitVec.toNat_add]
        simp only [BitVec.reduceToNat]
        omega
  | data PC a =>
      have hn := width_references h hr
      refine within_of_aligned ?_ (data_aligned hdata hx hr hn)
      rcases hn with h | h | h <;> simp [h]
  | syscall PC as => trivial

/-- A simulation with caches depends on the registers and on the bytes that
    the program refers to. From another memory which holds the same there, the
    same instructions are executed on the same registers, every cache is left
    with the same blocks and statistics, and the same bytes are written. -/
theorem simMain_local {ω ρ : Type} {k : Nat} {G : Fin k → Geometry} {H : Hierarchy k}
    {draw : ρ → BitVec 32 × ρ} {seed : ρ} {c : Caches k} {host : Host ω} {sys : SysAccesses ω}
    {n : Nat} {s s' : Pisa.State ω} {steps : List (Step ω)} {x : World G ρ}
    (hcalls : LocalCalls host sys) (hfetch : c.ChecksFetches) (hdata : c.ChecksData)
    (h : simMain G H draw seed c host sys n s = .ok (steps, (s', x))) {m : Mem}
    {b₀ b₁ : Addr → Byte}
    (hm : Agreeing (touchedBy (references host sys n s)) b₀ b₁ s.mem m) :
    ∃ steps' t', simMain G H draw seed c host sys n (s.setMem m) = .ok (steps', (t', x)) ∧
      List.Forall₂ (StepBeside (Agreeing (touchedBy (references host sys n s)) b₀ b₁))
        steps steps' ∧
      Beside (Agreeing (touchedBy (references host sys n s)) b₀ b₁) s' t' := by
  rcases simMain_ok h with ⟨hsafe, hx⟩
  rcases simSafe_local hcalls hsafe (fun r hr => onPage_of_checked hfetch hdata hsafe hx hr) hm
    with ⟨steps', t', hsafe', hsteps, hend, hrefs⟩
  refine ⟨steps', t', simMain_of_ok hsafe' ?_, hsteps, hend⟩
  -- The caches are shown the same, and do not see the memory.
  rw [hrefs]
  exact hx

/-- The text of a program that stores a word and loads it again. -/
def storeAndLoadText : List Byte :=
  ([BitVec.ofNat 32 Op.SW.number, 64, BitVec.ofNat 32 Op.LW.number, 0x00010040] : List Word).flatMap
    fun w => leBytes 4 w.toNat

/-- The program, where programs are loaded. -/
def storeAndLoad : Pisa.State Unit :=
  { Pisa.blank () with
    regs := { (Pisa.blank ()).regs with PC := 0x400000 }
    mem := (memWrite memCreate 0x400000 storeAndLoadText).getD memCreate }

/-- Its memory, with another byte at an address that it does not use. -/
def otherByte : Mem := (memWrite storeAndLoad.mem 128 [7]).getD storeAndLoad.mem

/-- One cache for instructions and one for data. -/
def twoCaches : Caches 2 :=
  { cache_il1 := some 0, cache_dl1 := some 1, cache_dl2 := none, itlb := none, dtlb := none
    flush_on_syscalls := false, compress_icache_addrs := false, ld_text_base := 0 }

theorem references_storeAndLoad : references bareHost (fun _ _ => []) 2 storeAndLoad =
    [.fetch 0x400000, .data 0x400000 ⟨.Write, 64, 4⟩, .fetch 0x400008,
      .data 0x400008 ⟨.Read, 64, 4⟩] := by
  decide +kernel

theorem contents_written {m : Mem} {bytes : Addr → Byte} (h : Contents m bytes) {a : Addr}
    {l : List Byte} (hw : Within a l.length) :
    Contents ((memWrite m a l).getD m) fun x => l.getD (x - a).toNat (bytes x) := by
  rcases contents_memWrite_within h hw with ⟨m', hm, hc⟩
  rw [hm]
  exact hc

theorem agreeing_otherByte : ∃ b₀ b₁,
    Agreeing (touchedBy (references bareHost (fun _ _ => []) 2 storeAndLoad)) b₀ b₁
      storeAndLoad.mem otherByte := by
  have hpage : Within 0x400000 storeAndLoadText.length := by decide
  have hbyte : Within 128 ([7] : List Byte).length := by decide
  have htext : Contents storeAndLoad.mem fun a =>
      storeAndLoadText.getD (a - 0x400000).toNat 0 := contents_written contents_memCreate hpage
  have hother : Contents otherByte fun a =>
      [7].getD (a - 128).toNat (storeAndLoadText.getD (a - 0x400000).toNat 0) :=
    contents_written htext hbyte
  refine ⟨_, _, _, _, htext, hother, fun a ha => ?_, fun a _ => ⟨rfl, rfl⟩⟩
  -- The address of the byte is in none of the accesses.
  have hne : 1 ≤ (a - 128).toNat := by
    rcases ha with ⟨r, hr, har⟩
    rw [references_storeAndLoad] at hr
    simp only [List.mem_cons, List.not_mem_nil, or_false] at hr
    rcases hr with rfl | rfl | rfl | rfl <;>
      simp only [Ref.touches, span, Set.mem_ofPred_eq, BitVec.reduceToNat] at har <;> bv_omega
  exact (List.getD_eq_default _ _ hne).symm

theorem simMain_local_otherByte : ∃ steps steps' s' t' x,
    simMain (fun _ : Fin 2 => oneBlock) (.flat 2) (fun r : Unit => (0, r)) () twoCaches bareHost
        (fun _ _ => []) 2 storeAndLoad = .ok (steps, (s', x)) ∧
      simMain (fun _ : Fin 2 => oneBlock) (.flat 2) (fun r : Unit => (0, r)) () twoCaches bareHost
        (fun _ _ => []) 2 (storeAndLoad.setMem otherByte) = .ok (steps', (t', x)) := by
  have hends : (simMain (fun _ : Fin 2 => oneBlock) (.flat 2) (fun r : Unit => (0, r)) ()
      twoCaches bareHost (fun _ _ => []) 2 storeAndLoad).toOption.isSome := by
    decide +kernel
  rcases h : simMain (fun _ : Fin 2 => oneBlock) (.flat 2) (fun r : Unit => (0, r)) () twoCaches
    bareHost (fun _ _ => []) 2 storeAndLoad with e | ⟨steps, s', x⟩
  · rw [h] at hends
    cases hends
  · rcases agreeing_otherByte with ⟨b₀, b₁, hm⟩
    -- The host knows no system calls.
    have hcalls : LocalCalls bareHost fun _ _ => [] := fun _ _ _ _ _ _ _ _ => ⟨rfl, rfl⟩
    rcases simMain_local hcalls ⟨.inr (Option.some_ne_none _), rfl⟩ (.inr (Option.some_ne_none _))
      h hm with ⟨steps', t', hrun, -, -⟩
    exact ⟨steps, steps', s', t', x, rfl, hrun⟩

end SimCache

end MicroArch
