import Mathlib.Data.Finset.Card
import Mathlib.Data.List.GetD
import MicroArch.Library.Yields
import MicroArch.Memory.Pages

/-!
# Flat Memory

What the page table is for: a memory that starts with zeros and holds what was
written to it last.

`Flat` is that memory, with what its statistics count. It knows which pages
were touched by a write, and for each bucket the page that was used last. A
lookup misses in the first level when its page is not that one, so the misses
tell how often a program changes from one page to another of the same bucket.
A read of a page nobody has written is a miss every time, and leaves the
bucket as it is.

`Represents` connects the two, and every access keeps it.

## Main definitions

* `Flat`, `Flat.read`, `Flat.write`: The memory as a function.
* `Represents`: A memory with a page table is a flat one.
* `Op`, `run`, `flatRun`: The accesses of a program, in order.

## Theorems

* `represents_memRead`, `represents_memWrite`: The two kinds of access.
* `represents_run`: Whatever a program reads and writes, it cannot tell the
  page table from a flat memory.
-/

namespace MicroArch

namespace Memory

/-- A memory without pages, and the history its statistics depend on. -/
structure Flat where
  bytes : Addr → Byte
  /-- The pages that were written. -/
  touched : Finset Nat
  /-- The page of each bucket that was used last. -/
  recent : BitVec 15 → Option Nat
  misses : Nat
  accesses : Nat

namespace Flat

def zero : Flat :=
  { bytes := fun _ => 0, touched := ∅, recent := fun _ => none, misses := 0, accesses := 0 }

/-- An access to a page of the table, which looks it up twice. -/
def visit (f : Flat) (addr : Addr) : Flat :=
  { f with
    recent := Function.update f.recent (memPtabSet addr) (some (pageNumber addr))
    misses := f.misses + if f.recent (memPtabSet addr) = some (pageNumber addr) then 0 else 1
    accesses := f.accesses + 2 }

def read (nbytes : Nat) (f : Flat) (addr : Addr) : List Byte × Flat :=
  ((List.range nbytes).map fun i => f.bytes (addr + BitVec.ofNat 32 i),
    if pageNumber addr ∈ f.touched then f.visit addr
    else { f with misses := f.misses + 1, accesses := f.accesses + 1 })

def write (f : Flat) (addr : Addr) (bytes : List Byte) : Flat :=
  { f.visit addr with
    bytes := fun a => bytes.getD (a - addr).toNat (f.bytes a)
    touched := insert (pageNumber addr) f.touched }

end Flat

/-- The memory with the page table holds what the flat one holds, and counts
    what happened to it. -/
structure Represents (m : Mem) (f : Flat) : Prop where
  tidy : Tidy m
  bytes : ∀ a, m.byte a = f.bytes a
  touched : ∀ a, (m.pageOf a).isSome ↔ pageNumber a ∈ f.touched
  pageCount : m.pageCount = f.touched.card
  recent : ∀ a, m.atFront a ↔ f.recent (memPtabSet a) = some (pageNumber a)
  misses : m.ptabMisses = f.misses
  accesses : m.ptabAccesses = f.accesses

variable {m m' : Mem} {f : Flat}

theorem represents_memCreate : Represents memCreate Flat.zero where
  tidy := ⟨fun a b p h => by simp [Mem.pageOf, memCreate] at h,
    fun a p h => by simp [Mem.pageOf, memCreate] at h⟩
  bytes a := by simp [Mem.byte, Mem.pageOf, memCreate, Flat.zero]
  touched a := by simp [Mem.pageOf, memCreate, Flat.zero]
  pageCount := rfl
  recent a := by simp [Mem.atFront, memCreate, Flat.zero]
  misses := rfl
  accesses := rfl

/-- A bucket whose latest page is replaced by another one. -/
theorem recent_update (f : Flat) (addr a : Addr) :
    Function.update f.recent (memPtabSet addr) (some (pageNumber addr)) (memPtabSet a)
        = some (pageNumber a) ↔
      if memPtabSet a = memPtabSet addr then memPtabTag a = memPtabTag addr
      else f.recent (memPtabSet a) = some (pageNumber a) := by
  -- Another bucket keeps its page; in the same bucket the tags decide.
  by_cases hs : memPtabSet a = memPtabSet addr
  · have hp := pageNumber_eq_iff a addr
    simp only [hs, true_and] at hp
    rw [hs, Function.update_self, Option.some.injEq, if_pos rfl, ← hp, eq_comm]
  · simp [hs]

theorem Represents.misses_eq (r : Represents m f) (addr : Addr) :
    (if m.atFront addr then 0 else 1)
      = if f.recent (memPtabSet addr) = some (pageNumber addr) then 0 else 1 :=
  if_congr (r.recent addr) rfl rfl

/-- A second lookup in a row finds the page in front. -/
theorem Looked.again {addr : Addr} (l : Looked m m' addr) (hsome : (m.pageOf addr).isSome) :
    m'.atFront addr := by
  rw [l.front addr, if_pos ⟨rfl, hsome⟩]

/-- Two lookups of a page of the table are a visit. -/
theorem represents_visit {m₁ m₂ : Mem} {addr : Addr} (r : Represents m f)
    (l₁ : Looked m m₁ addr) (l₂ : Looked m₁ m₂ addr) (hsome : (m.pageOf addr).isSome) :
    Represents m₂ (f.visit addr) where
  tidy := l₂.tidy (l₁.tidy r.tidy)
  bytes a := by rw [l₂.byte, l₁.byte, r.bytes, Flat.visit]
  touched a := by rw [l₂.pageOf, l₁.pageOf, r.touched, Flat.visit]
  pageCount := by rw [l₂.pageCount, l₁.pageCount, r.pageCount, Flat.visit]
  recent a := by
    rw [l₂.front, l₁.front, l₁.pageOf, r.recent]
    simp only [hsome, and_true, Flat.visit, recent_update]
    -- The first lookup has moved the page to the front, and the second one leaves it there.
    by_cases hs : memPtabSet a = memPtabSet addr <;> simp [hs]
  misses := by
    -- Only the first of the two lookups can miss.
    rw [l₂.misses, l₁.misses, if_pos (l₁.again hsome), r.misses_eq, r.misses]
    rfl
  accesses := by
    rw [l₂.accesses, l₁.accesses, r.accesses]
    rfl

theorem memRead_of_none {nbytes : Nat} {addr : Addr} (h : m.pageOf addr = none) :
    memRead nbytes m addr = some (List.replicate nbytes 0, (memPage m addr).2) := by
  have hpage := (memPage_looked m addr).1
  rw [memRead]
  split
  · -- `memRead` looks the page up once to see whether it is there. It is not, so the bytes are
    -- zeros and the page is never translated for the copy.
    next heq => rw [heq]
  · next heq =>
      rw [heq, h] at hpage
      exact absurd hpage (by simp)

theorem memRead_of_some {nbytes p : Nat} {addr : Addr} (h : m.pageOf addr = some p) :
    memRead nbytes m addr =
      (load (memPage (memPage m addr).2 addr).2 (some p) (memOffset addr) nbytes).map
        fun bytes => (bytes, (memPage (memPage m addr).2 addr).2) := by
  have hpage := (memPage_looked m addr).1
  have hpage' := (memPage_looked (memPage m addr).2 addr).1
  rw [(memPage_looked m addr).2.pageOf, h] at hpage'
  rw [memRead]
  split
  · next heq =>
      rw [heq, h] at hpage
      exact absurd hpage (by simp)
  · -- The page is there, so `MEM_PAGE` is evaluated once more for the copy itself.
    next heq =>
      rw [heq] at hpage' ⊢
      simp only [hpage']

/-- Reading is reading from the flat memory. -/
theorem represents_memRead {nbytes : Nat} {addr : Addr} (r : Represents m f)
    (hw : Within addr nbytes) :
    Yields (memRead nbytes m addr) fun x =>
      x.1 = (f.read nbytes addr).1 ∧ Represents x.2 (f.read nbytes addr).2 := by
  rcases memPage_looked m addr with ⟨-, l₁⟩
  rcases memPage_looked (memPage m addr).2 addr with ⟨-, l₂⟩
  have hpages : ∀ i < nbytes, m.pageOf (addr + BitVec.ofNat 32 i) = m.pageOf addr :=
    fun i hi => pageOf_congr m (pageNumber_within hw hi)
  cases h : m.pageOf addr with
  -- Nobody has written the page: it reads as zeros, and the one lookup is a miss.
  | none =>
      have hnot : pageNumber addr ∉ f.touched := by
        rw [← r.touched, h]
        simp
      have hfront : ¬ m.atFront addr := fun hf => by simpa [h] using pageOf_of_atFront hf
      rw [memRead_of_none h]
      refine Yields.ret ⟨?_, ?_⟩
      · refine List.ext_getElem (by simp [Flat.read]) fun i hi _ => ?_
        have hbyte := r.bytes (addr + BitVec.ofNat 32 i)
        rw [Mem.byte, hpages i (by simpa using hi), h] at hbyte
        simp [Flat.read, ← hbyte]
      · rw [Flat.read, if_neg hnot]
        refine ⟨l₁.tidy r.tidy, fun a => by rw [l₁.byte, r.bytes], fun a => ?_, ?_, fun a => ?_,
          ?_, ?_⟩
        · rw [l₁.pageOf, r.touched]
        · rw [l₁.pageCount, r.pageCount]
        · -- A lookup that fails moves nothing to the front.
          rw [l₁.front, h, ← r.recent]
          simp
        · rw [l₁.misses, if_neg hfront, r.misses]
        · rw [l₁.accesses, r.accesses]
  -- A page of the table is looked up twice, and no byte leaves it, as the access is within.
  | some p =>
      have hin : pageNumber addr ∈ f.touched := by
        rw [← r.touched, h]
        rfl
      rw [memRead_of_some h, load, Option.bind_some, if_pos (by exact hw), Option.map_some]
      refine Yields.ret ⟨?_, ?_⟩
      · refine List.ext_getElem (by simp [Flat.read]) fun i hi _ => ?_
        have hbyte := r.bytes (addr + BitVec.ofNat 32 i)
        rw [Mem.byte, hpages i (by simpa using hi), h, memOffset_add] at hbyte
        simp [Flat.read, ← hbyte, l₂.core, l₁.core]
      · rw [Flat.read, if_pos hin]
        exact represents_visit r l₁ l₂ (by simp [h])

/-- After the tickle the page is there, and it is in front. -/
structure Tickled (m m' : Mem) (addr : Addr) : Prop where
  tidy : Tidy m'
  byte : ∀ a, m'.byte a = m.byte a
  there : (m'.pageOf addr).isSome
  pageOf : ∀ a, pageNumber a ≠ pageNumber addr → m'.pageOf a = m.pageOf a
  pageCount : m'.pageCount = m.pageCount + if (m.pageOf addr).isSome then 0 else 1
  accesses : m'.ptabAccesses = m.ptabAccesses + 1
  misses : m'.ptabMisses = m.ptabMisses + if m.atFront addr then 0 else 1
  front : ∀ a, m'.atFront a ↔
    if memPtabSet a = memPtabSet addr then memPtabTag a = memPtabTag addr else m.atFront a

theorem memTickle_tickled (h : Tidy m) (addr : Addr) : Tickled m (memTickle m addr) addr := by
  rcases memPage_looked m addr with ⟨hpage, l⟩
  rw [memTickle]
  split
  · -- A new page: `mem_newpage` puts it at the head of its bucket, which is the front.
    next m₁ heq =>
      rw [heq] at hpage l
      have hnone : m₁.pageOf addr = none := by rw [l.pageOf, ← hpage]
      refine ⟨tidy_memNewpage addr (l.tidy h), fun a => ?_, ?_, fun a ha => ?_, ?_, l.accesses,
        l.misses, fun a => ?_⟩
      · rw [byte_memNewpage (l.tidy h) hnone, l.byte]
      · simp [pageOf_memNewpage]
      · rw [pageOf_memNewpage, if_neg ha, l.pageOf]
      · change m₁.pageCount + 1 = _
        rw [l.pageCount, ← hpage]
        rfl
      · have hfront := l.front a
        rw [← hpage] at hfront
        by_cases hs : memPtabSet a = memPtabSet addr
        · simp [Mem.atFront, memNewpage, hs, eq_comm]
        · simp only [hs, false_and, if_false] at hfront ⊢
          rw [← hfront]
          simp [Mem.atFront, memNewpage, hs]
  · -- The page was there already, and the lookup alone has brought it to the front.
    next p m₁ heq =>
      rw [heq] at hpage l
      have hsome : (m.pageOf addr).isSome := by rw [← hpage]; rfl
      refine ⟨l.tidy h, l.byte, by rw [l.pageOf]; exact hsome, fun a _ => l.pageOf a, ?_,
        l.accesses, l.misses, fun a => ?_⟩
      · rw [l.pageCount, if_pos hsome, Nat.add_zero]
      · rw [l.front]
        simp only [hsome, and_true]

/-- What is left of an access to the page of an address. -/
theorem sub_toNat_of_page {a addr : Addr} (hp : pageNumber a = pageNumber addr)
    (ho : memOffset addr ≤ memOffset a) :
    (a - addr).toNat = (memOffset a).toNat - (memOffset addr).toNat := by
  have ha := a.isLt
  rw [BitVec.le_def] at ho
  simp only [pageNumber, memOffset_toNat, BitVec.toNat_sub] at hp ho ⊢
  omega

theorem le_sub_toNat {a addr : Addr} {n : Nat} (hw : Within addr n)
    (h : ¬ (pageNumber a = pageNumber addr ∧ memOffset addr ≤ memOffset a)) :
    n ≤ (a - addr).toNat := by
  have ha := a.isLt
  have hb := addr.isLt
  rw [BitVec.le_def] at h
  simp only [pageNumber, Within, memOffset_toNat, BitVec.toNat_sub] at h hw ⊢
  omega

/-- Writing through the pointer of a page changes the bytes of that page. -/
theorem byte_store {p : Nat} {addr : Addr} {bytes : List Byte} (h : Tidy m)
    (hp : m.pageOf addr = some p) (hw : Within addr bytes.length) :
    Yields (store m (some p) (memOffset addr) bytes) fun m' =>
      (∀ a, m'.byte a = bytes.getD (a - addr).toNat (m.byte a)) ∧
      ∃ core, m' = { m with core := core } := by
  rw [store, Option.bind_some, if_pos (by exact hw)]
  refine Yields.ret ⟨fun a => ?_, _, rfl⟩
  -- A byte changes when it lies in the page and at an offset from the first byte written on.
  by_cases hpage : pageNumber a = pageNumber addr
  · have ha : m.pageOf a = some p := (pageOf_congr m hpage).trans hp
    simp only [Mem.byte, Mem.pageOf] at ha ⊢
    rw [ha]
    simp only [Function.update_self]
    by_cases ho : memOffset addr ≤ memOffset a
    · rw [if_pos ho, sub_toNat_of_page hpage ho]
    · -- Before the first byte written, the difference of the addresses wraps past the length.
      rw [if_neg ho, List.getD_eq_default _ _ (le_sub_toNat hw fun hcase => ho hcase.2)]
  · rw [List.getD_eq_default _ _ (le_sub_toNat hw fun hcase => hpage hcase.1)]
    cases ha : m.pageOf a with
    | none =>
        simp only [Mem.byte, Mem.pageOf] at ha ⊢
        rw [ha]
    -- Another page has its own number, since no two entries of the table share one.
    | some q =>
        have hne : q ≠ p := fun hq => hpage (h.own a addr q ha (hq ▸ hp))
        simp only [Mem.byte, Mem.pageOf] at ha ⊢
        rw [ha]
        simp [hne]

/-- Writing is writing to the flat memory. -/
theorem represents_memWrite {addr : Addr} {bytes : List Byte} (r : Represents m f)
    (hw : Within addr bytes.length) :
    Yields (memWrite m addr bytes) fun m' => Represents m' (f.write addr bytes) := by
  have t := memTickle_tickled r.tidy addr
  rcases memPage_looked (memTickle m addr) addr with ⟨hpage, l⟩
  rcases Option.isSome_iff_exists.mp t.there with ⟨p, hp⟩
  rw [memWrite]
  rw [hp] at hpage
  simp only [hpage]
  refine (byte_store (l.tidy t.tidy) (by rw [l.pageOf, hp]) hw).mono ?_
  rintro m' ⟨hbyte, core, rfl⟩
  -- What the copy changes is the core; every part of the table is what the two lookups left.
  refine ⟨⟨fun a b q => (l.tidy t.tidy).own a b q, fun a q => (l.tidy t.tidy).used a q⟩,
    fun a => ?_, fun a => ?_, ?_, fun a => ?_, ?_, ?_⟩
  · rw [hbyte, l.byte, t.byte, r.bytes]
    rfl
  · change ((memPage (memTickle m addr) addr).2.pageOf a).isSome ↔ _
    rw [l.pageOf]
    by_cases ha : pageNumber a = pageNumber addr
    · simp [Flat.write, ha, pageOf_congr _ ha, t.there]
    · simp [Flat.write, ha, t.pageOf a ha, r.touched]
  · change (memPage (memTickle m addr) addr).2.pageCount = _
    rw [l.pageCount, t.pageCount, r.pageCount]
    by_cases hin : pageNumber addr ∈ f.touched
    · simp [Flat.write, (r.touched addr).mpr hin, hin]
    · -- The tickle has counted the page just when it was not there before.
      have hno : ¬ (m.pageOf addr).isSome := fun hs => hin ((r.touched addr).mp hs)
      rw [if_neg hno]
      simp [Flat.write, hin]
  · change (memPage (memTickle m addr) addr).2.atFront a ↔ _
    rw [l.front, t.front, r.recent]
    simp only [Flat.write, Flat.visit, recent_update, t.there, and_true]
    by_cases hs : memPtabSet a = memPtabSet addr <;> simp [hs]
  · change (memPage (memTickle m addr) addr).2.ptabMisses = _
    rw [l.misses, t.misses, if_pos ((t.front addr).mpr (by simp)), r.misses_eq, r.misses]
    rfl
  · change (memPage (memTickle m addr) addr).2.ptabAccesses = _
    rw [l.accesses, t.accesses, r.accesses]
    rfl

/-! ### Runs -/

/-- An access of a program. -/
inductive Op where
  | read (nbytes : Nat) (addr : Addr)
  | write (addr : Addr) (bytes : List Byte)

namespace Op

/-- The access stays in a page, as every aligned one does. -/
def Within : Op → Prop
  | read nbytes addr => Memory.Within addr nbytes
  | write addr bytes => Memory.Within addr bytes.length

instance : (o : Op) → Decidable o.Within
  | read nbytes addr => inferInstanceAs (Decidable (Memory.Within addr nbytes))
  | write addr bytes => inferInstanceAs (Decidable (Memory.Within addr bytes.length))

/-- What an access reads, and the memory afterwards. -/
def exec : Op → Mem → Option (List Byte × Mem)
  | read nbytes addr, m => memRead nbytes m addr
  | write addr bytes, m => (memWrite m addr bytes).map fun m => ([], m)

def flat : Op → Flat → List Byte × Flat
  | read nbytes addr, f => f.read nbytes addr
  | write addr bytes, f => ([], f.write addr bytes)

end Op

/-- All that a program reads, and the memory it leaves. -/
def run : List Op → Mem → Option (List (List Byte) × Mem)
  | [], m => some ([], m)
  | o :: ops, m => do
      let (bytes, m) ← o.exec m
      let (rest, m) ← run ops m
      return (bytes :: rest, m)

def flatRun : List Op → Flat → List (List Byte) × Flat
  | [], f => ([], f)
  | o :: ops, f =>
      let (bytes, f) := o.flat f
      let (rest, f) := flatRun ops f
      (bytes :: rest, f)

theorem represents_exec (r : Represents m f) {o : Op} (ho : o.Within) :
    Yields (o.exec m) fun x => x.1 = (o.flat f).1 ∧ Represents x.2 (o.flat f).2 := by
  cases o with
  | read nbytes addr => exact represents_memRead r ho
  | write addr bytes => exact (represents_memWrite r ho).map fun m' h => ⟨rfl, h⟩

theorem represents_run_from (r : Represents m f) {ops : List Op} (h : ∀ o ∈ ops, o.Within) :
    Yields (run ops m) fun x => x.1 = (flatRun ops f).1 ∧ Represents x.2 (flatRun ops f).2 := by
  -- The memory after the first access represents the flat one, and the rest starts from there.
  induction ops generalizing m f with
  | nil => exact Yields.ret ⟨rfl, r⟩
  | cons o ops ih =>
      refine (represents_exec r (h o (by simp))).bind ?_
      rintro ⟨bytes, m₁⟩ ⟨hb, r₁⟩
      refine (ih r₁ fun o ho => h o (by simp [ho])).bind ?_
      rintro ⟨rest, m₂⟩ ⟨hr, r₂⟩
      exact Yields.ret ⟨congrArg₂ List.cons hb hr, r₂⟩

/-- A program whose accesses stay in pages reads what it would read from a
    flat memory of zeros. One page is allocated for every page it has written,
    and an access misses in the first level when its page was not the last one
    used of its bucket. -/
theorem represents_run (ops : List Op) (h : ∀ o ∈ ops, o.Within) :
    Yields (run ops memCreate) fun x =>
      x.1 = (flatRun ops Flat.zero).1 ∧ Represents x.2 (flatRun ops Flat.zero).2 :=
  represents_run_from represents_memCreate h

/-- A word is written and read, with a page of the same bucket in between. -/
theorem represents_run_bucket :
    Yields (run [.write 0x1000 [1, 2, 3, 4], .write 0x8001000 [5], .read 4 0x1000] memCreate)
      fun x =>
        x.1 = (flatRun [.write 0x1000 [1, 2, 3, 4], .write 0x8001000 [5], .read 4 0x1000]
          Flat.zero).1 ∧
        Represents x.2 (flatRun [.write 0x1000 [1, 2, 3, 4], .write 0x8001000 [5],
          .read 4 0x1000] Flat.zero).2 :=
  represents_run _ (by decide)

example : (flatRun [.write 0x1000 [1, 2, 3, 4], .write 0x8001000 [5], .read 4 0x1000]
    Flat.zero).1 = [[], [], [1, 2, 3, 4]] := by decide

end Memory

end MicroArch
