import Mathlib.Data.List.Nodup
import Mathlib.Logic.Function.Basic
import Mathlib.Tactic.Common

/-!
# Pages

The simulated memory of the functional simulators (`memory.h`, `memory.c`).

A page of the simulated memory is allocated on the host when it is first
written. An inverted page table finds it: a hash table whose buckets are lists
of entries, the latest one found in front. `MEM_PAGE` looks at the front of
the bucket only and leaves the rest to `mem_translate`, which searches the
bucket and moves what it finds to the front.

A host page has an address of its own, and an entry points to it. `core` is
what the host pages hold, and `getcore` hands out its addresses in order. An
access through a page pointer stays in the page: one that goes beyond its end,
or through a pointer that is null, has no result.

## Main definitions

* `Mem`: A memory, with its page table and its statistics.
* `memTranslate`, `memPage`, `memNewpage`, `memTickle`: The page table.
* `memRead`, `memWrite`: The typed accesses, by their size.
* `Mem.byte`: What a memory holds at an address.
* `Looked`: What a lookup does to a memory.
* `Tidy`: No host page is found under two addresses.

## Theorems

* `memPage_looked`: What `MEM_PAGE` finds, and all it changes.
* `tidy_memNewpage`: Allocating keeps the pages apart.
* `Looked.byte`, `byte_memNewpage`: The contents do not change by looking up
  or by allocating.
-/

namespace MicroArch

namespace Memory

abbrev Addr := BitVec 32
abbrev Byte := BitVec 8

/-- A page of 4096 bytes. -/
abbrev Page := BitVec 12 → Byte

/-- A page table entry. -/
structure Pte where
  tag : Addr
  page : Nat
  deriving DecidableEq

/-- A memory object, and the host pages it owns. -/
structure Mem where
  ptab : BitVec 15 → List Pte
  pageCount : Nat
  ptabMisses : Nat
  ptabAccesses : Nat
  core : Nat → Page
  /-- The address that the next host page gets. -/
  brk : Nat

/-- `mem_create`, followed by `mem_init`. -/
def memCreate : Mem :=
  { ptab := fun _ => [], pageCount := 0, ptabMisses := 0, ptabAccesses := 0,
    core := fun _ _ => 0, brk := 0 }

/-- The bucket of an address, `(addr >> 12) & (32768 - 1)`. -/
def memPtabSet (addr : Addr) : BitVec 15 := (addr >>> 12).setWidth 15

/-- The tag of an address. -/
def memPtabTag (addr : Addr) : Addr := addr >>> 27

/-- The address within a page, `addr & (4096 - 1)`. -/
def memOffset (addr : Addr) : BitVec 12 := addr.setWidth 12

/-- The first entry of a bucket with a tag, and the bucket without it. -/
def extract (tag : Addr) : List Pte → Option (Pte × List Pte)
  | [] => none
  | e :: l => if e.tag = tag then some (e, l) else (extract tag l).map fun x => (x.1, e :: x.2)

namespace Mem

def setBucket (m : Mem) (i : BitVec 15) (l : List Pte) : Mem :=
  { m with ptab := Function.update m.ptab i l }

/-- What the table finds for an address. -/
def pageOf (m : Mem) (addr : Addr) : Option Nat :=
  ((m.ptab (memPtabSet addr)).find? fun e => e.tag = memPtabTag addr).map Pte.page

/-- What the memory holds at an address. -/
def byte (m : Mem) (addr : Addr) : Byte :=
  match m.pageOf addr with
  | none => 0
  | some p => m.core p (memOffset addr)

/-- Whether the page of an address is in front of its bucket. -/
def atFront (m : Mem) (addr : Addr) : Prop :=
  ((m.ptab (memPtabSet addr)).head?.map Pte.tag) = some (memPtabTag addr)

instance (m : Mem) (addr : Addr) : Decidable (m.atFront addr) :=
  inferInstanceAs (Decidable (_ = _))

end Mem

/-- `mem_translate`: the page of an address, which moves to the front of its
    bucket. -/
def memTranslate (m : Mem) (addr : Addr) : Option Nat × Mem :=
  let m := { m with ptabMisses := m.ptabMisses + 1, ptabAccesses := m.ptabAccesses + 1 }
  match extract (memPtabTag addr) (m.ptab (memPtabSet addr)) with
  | some (e, l) => (some e.page, m.setBucket (memPtabSet addr) (e :: l))
  | none => (none, m)

/-- `MEM_PAGE`: the first entry of the bucket is tried first. -/
def memPage (m : Mem) (addr : Addr) : Option Nat × Mem :=
  match (m.ptab (memPtabSet addr)).head? with
  | some e =>
      if e.tag = memPtabTag addr then
        (some e.page, { m with ptabAccesses := m.ptabAccesses + 1 })
      else memTranslate m addr
  | none => memTranslate m addr

/-- `mem_newpage`: `getcore` hands out a page of zeros. -/
def memNewpage (m : Mem) (addr : Addr) : Mem :=
  { m with
    core := Function.update m.core m.brk fun _ => 0
    brk := m.brk + 1
    ptab := Function.update m.ptab (memPtabSet addr)
      ({ tag := memPtabTag addr, page := m.brk } :: m.ptab (memPtabSet addr))
    pageCount := m.pageCount + 1 }

/-- `MEM_TICKLE`: a page is allocated when it is first written. -/
def memTickle (m : Mem) (addr : Addr) : Mem :=
  match memPage m addr with
  | (none, m) => memNewpage m addr
  | (some _, m) => m

/-- Reading bytes of a host page. -/
def load (m : Mem) (p : Option Nat) (offset : BitVec 12) (nbytes : Nat) : Option (List Byte) :=
  p.bind fun p =>
    if offset.toNat + nbytes ≤ 4096 then
      some ((List.range nbytes).map fun i => m.core p (offset + BitVec.ofNat 12 i))
    else none

/-- Writing bytes of a host page. -/
def store (m : Mem) (p : Option Nat) (offset : BitVec 12) (bytes : List Byte) : Option Mem :=
  p.bind fun p =>
    if offset.toNat + bytes.length ≤ 4096 then
      some { m with
        core := Function.update m.core p fun o =>
          if offset ≤ o then bytes.getD (o.toNat - offset.toNat) (m.core p o) else m.core p o }
    else none

/-- `MEM_READ`, at a type of a number of bytes. A page that is not allocated
    yet reads as zero, and one that is, is looked up a second time. -/
def memRead (nbytes : Nat) (m : Mem) (addr : Addr) : Option (List Byte × Mem) :=
  match memPage m addr with
  | (none, m) => some (List.replicate nbytes 0, m)
  | (some _, m) =>
      let (p, m) := memPage m addr
      (load m p (memOffset addr) nbytes).map fun bytes => (bytes, m)

/-- `MEM_WRITE`. -/
def memWrite (m : Mem) (addr : Addr) (bytes : List Byte) : Option Mem :=
  let (p, m) := memPage (memTickle m addr) addr
  store m p (memOffset addr) bytes

/-! ### Addresses -/

theorem memPtabSet_toNat (addr : Addr) :
    (memPtabSet addr).toNat = addr.toNat / 4096 % 32768 := by
  simp [memPtabSet, Nat.shiftRight_eq_div_pow]

theorem memPtabTag_toNat (addr : Addr) : (memPtabTag addr).toNat = addr.toNat / 134217728 := by
  simp [memPtabTag, Nat.shiftRight_eq_div_pow]

theorem memOffset_toNat (addr : Addr) : (memOffset addr).toNat = addr.toNat % 4096 := by
  simp [memOffset]

/-- The number of the page of an address. -/
def pageNumber (addr : Addr) : Nat := addr.toNat / 4096

/-- Two addresses have one page when they have one bucket and one tag. -/
theorem pageNumber_eq_iff (a b : Addr) :
    pageNumber a = pageNumber b ↔ memPtabSet a = memPtabSet b ∧ memPtabTag a = memPtabTag b := by
  rw [← BitVec.toNat_inj, ← BitVec.toNat_inj, memPtabSet_toNat, memPtabSet_toNat,
    memPtabTag_toNat, memPtabTag_toNat, pageNumber, pageNumber]
  -- The bucket is the low part of the page number, and the tag is the rest.
  omega

/-- An access that stays in a page. -/
def Within (addr : Addr) (nbytes : Nat) : Prop := (memOffset addr).toNat + nbytes ≤ 4096

instance (addr : Addr) (nbytes : Nat) : Decidable (Within addr nbytes) :=
  inferInstanceAs (Decidable (_ ≤ _))

theorem pageNumber_within {addr : Addr} {nbytes i : Nat} (h : Within addr nbytes)
    (hi : i < nbytes) : pageNumber (addr + BitVec.ofNat 32 i) = pageNumber addr := by
  have ha := addr.isLt
  simp only [Within, memOffset_toNat] at h
  simp only [pageNumber, BitVec.toNat_add, BitVec.toNat_ofNat]
  omega

theorem memOffset_add (addr : Addr) (i : Nat) :
    memOffset (addr + BitVec.ofNat 32 i) = memOffset addr + BitVec.ofNat 12 i := by
  rw [← BitVec.toNat_inj]
  simp only [memOffset_toNat, BitVec.toNat_add, BitVec.toNat_ofNat]
  omega

/-! ### Buckets -/

theorem extract_eq_none {tag : Addr} {l : List Pte} (h : extract tag l = none) :
    l.find? (fun e => e.tag = tag) = none := by
  induction l with
  | nil => rfl
  | cons e l ih =>
      by_cases ht : e.tag = tag
      · simp [extract, ht] at h
      · simp only [extract, ht, if_false, Option.map_eq_none_iff] at h
        simp [ht, ih h]

/-- What `mem_translate` finds is what the bucket holds for the tag, and
    moving it to the front changes nothing that can be found. -/
theorem extract_eq_some {tag : Addr} {l r : List Pte} {e : Pte}
    (h : extract tag l = some (e, r)) :
    e.tag = tag ∧ ∀ t, (e :: r).find? (fun e => e.tag = t) = l.find? (fun e => e.tag = t) := by
  induction l generalizing r with
  | nil => simp [extract] at h
  | cons a l ih =>
      by_cases ht : a.tag = tag
      · -- The entry is in front already.
        simp only [extract, ht, if_true, Option.some.injEq, Prod.mk.injEq] at h
        rcases h with ⟨rfl, rfl⟩
        exact ⟨ht, fun t => rfl⟩
      · simp only [extract, ht, if_false, Option.map_eq_some_iff, Prod.mk.injEq] at h
        -- It is further down, and the entries before it stay where they were.
        rcases h with ⟨⟨f, q⟩, hf, rfl, rfl⟩
        rcases ih hf with ⟨htag, hfind⟩
        refine ⟨htag, fun t => ?_⟩
        have hq := hfind t
        -- Either the tag of this entry is looked for, or another one.
        by_cases hft : f.tag = t
        · have hat : ¬ a.tag = t := fun hcase => ht (hcase.trans (hft.symm.trans htag))
          rw [List.find?_cons_of_pos (by simpa using hft)] at hq ⊢
          rw [List.find?_cons_of_neg (by simpa using hat), hq]
        · rw [List.find?_cons_of_neg (by simpa using hft)] at hq ⊢
          rw [List.find?_cons, List.find?_cons, hq]

/-! ### The page table -/

/-- What a lookup does: it counts, and it puts the page in front of its
    bucket, if there is one. -/
structure Looked (m m' : Mem) (addr : Addr) : Prop where
  pageOf : ∀ a, m'.pageOf a = m.pageOf a
  core : m'.core = m.core
  brk : m'.brk = m.brk
  pageCount : m'.pageCount = m.pageCount
  accesses : m'.ptabAccesses = m.ptabAccesses + 1
  misses : m'.ptabMisses = m.ptabMisses + if m.atFront addr then 0 else 1
  front : ∀ a, m'.atFront a ↔
    if memPtabSet a = memPtabSet addr ∧ (m.pageOf addr).isSome then memPtabTag a = memPtabTag addr
    else m.atFront a

/-- Whatever is in front is found. -/
theorem pageOf_of_atFront {m : Mem} {addr : Addr} (h : m.atFront addr) :
    (m.pageOf addr).isSome := by
  simp only [Mem.atFront, Option.map_eq_some_iff] at h
  rcases h with ⟨e, he, htag⟩
  cases hl : m.ptab (memPtabSet addr) with
  | nil => simp [hl] at he
  | cons a l =>
      simp only [hl, List.head?_cons, Option.some.injEq] at he
      simp [Mem.pageOf, hl, he, htag]

theorem memTranslate_looked {m : Mem} {addr : Addr} (hfront : ¬ m.atFront addr) :
    (memTranslate m addr).1 = m.pageOf addr ∧ Looked m (memTranslate m addr).2 addr := by
  cases he : extract (memPtabTag addr) (m.ptab (memPtabSet addr)) with
  | none =>
      -- There is no page, and the bucket stays as it is.
      have hnone : m.pageOf addr = none := by simp [Mem.pageOf, extract_eq_none he]
      simp only [memTranslate, he, hnone, true_and]
      exact ⟨fun _ => rfl, rfl, rfl, rfl, rfl, by simp [hfront], fun a => by simp [hnone]; rfl⟩
  | some x =>
      rcases x with ⟨e, r⟩
      rcases extract_eq_some he with ⟨htag, hfind⟩
      have hpage : m.pageOf addr = some e.page := by
        rw [Mem.pageOf, ← hfind]
        simp [htag]
      simp only [memTranslate, he, hpage, true_and]
      refine ⟨fun a => ?_, rfl, rfl, rfl, rfl, by simp [hfront, Mem.setBucket], fun a => ?_⟩
      · -- An address of the bucket finds what it found before the move.
        by_cases hs : memPtabSet a = memPtabSet addr
        · simp only [Mem.pageOf, Mem.setBucket, hs, Function.update_self, hfind]
        · simp [Mem.pageOf, Mem.setBucket, hs]
      · by_cases hs : memPtabSet a = memPtabSet addr
        · simp [Mem.atFront, Mem.setBucket, hs, htag, hpage, eq_comm]
        · simp [Mem.atFront, Mem.setBucket, hs]

/-- The specification of `MEM_PAGE`. -/
theorem memPage_looked (m : Mem) (addr : Addr) :
    (memPage m addr).1 = m.pageOf addr ∧ Looked m (memPage m addr).2 addr := by
  cases hl : m.ptab (memPtabSet addr) with
  | nil =>
      -- There is no first entry to try.
      have hfront : ¬ m.atFront addr := by simp [Mem.atFront, hl]
      simpa [memPage, hl] using memTranslate_looked hfront
  | cons e l =>
      by_cases ht : e.tag = memPtabTag addr
      · -- The first entry matches, so nothing moves.
        have hfront : m.atFront addr := by simp [Mem.atFront, hl, ht]
        have hpage : m.pageOf addr = some e.page := by simp [Mem.pageOf, hl, ht]
        simp only [memPage, hl, List.head?_cons, ht, if_true, hpage, true_and]
        refine ⟨fun _ => rfl, rfl, rfl, rfl, rfl, by simp [hfront], fun a => ?_⟩
        by_cases hs : memPtabSet a = memPtabSet addr
        · simp [Mem.atFront, hs, hl, ht, hpage, eq_comm]
        · simp [Mem.atFront, hs]
      · have hfront : ¬ m.atFront addr := by simp [Mem.atFront, hl, ht]
        -- It does not match, and the bucket is searched.
        simpa [memPage, hl, ht] using memTranslate_looked hfront

/-- A page is found in one way, and the addresses of host pages that are in
    use have been handed out. -/
structure Tidy (m : Mem) : Prop where
  own : ∀ a b p, m.pageOf a = some p → m.pageOf b = some p → pageNumber a = pageNumber b
  used : ∀ a p, m.pageOf a = some p → p < m.brk

theorem Looked.tidy {m m' : Mem} {addr : Addr} (l : Looked m m' addr) (h : Tidy m) : Tidy m' where
  own a b p ha hb := h.own a b p (l.pageOf a ▸ ha) (l.pageOf b ▸ hb)
  used a p ha := l.brk ▸ h.used a p (l.pageOf a ▸ ha)

theorem Looked.byte {m m' : Mem} {addr : Addr} (l : Looked m m' addr) (a : Addr) :
    m'.byte a = m.byte a := by
  simp only [Mem.byte, l.pageOf, l.core]

/-- Addresses of one page are found together. -/
theorem pageOf_congr (m : Mem) {a b : Addr} (h : pageNumber a = pageNumber b) :
    m.pageOf a = m.pageOf b := by
  rcases (pageNumber_eq_iff a b).mp h with ⟨hs, ht⟩
  rw [Mem.pageOf, Mem.pageOf, hs, ht]

theorem pageOf_memNewpage (m : Mem) (addr a : Addr) :
    (memNewpage m addr).pageOf a
      = if pageNumber a = pageNumber addr then some m.brk else m.pageOf a := by
  by_cases hp : pageNumber a = pageNumber addr
  · rcases (pageNumber_eq_iff a addr).mp hp with ⟨hs, ht⟩
    simp [hp, Mem.pageOf, memNewpage, hs, ht]
  · rw [if_neg hp]
    by_cases hs : memPtabSet a = memPtabSet addr
    · -- The new entry is in front, and has another tag.
      have ht : ¬ memPtabTag addr = memPtabTag a :=
        fun ht => hp ((pageNumber_eq_iff a addr).mpr ⟨hs, ht.symm⟩)
      simp [Mem.pageOf, memNewpage, hs, ht]
    · simp [Mem.pageOf, memNewpage, hs]

theorem tidy_memNewpage {m : Mem} (addr : Addr) (h : Tidy m) : Tidy (memNewpage m addr) where
  own a b p ha hb := by
    rw [pageOf_memNewpage] at ha hb
    split at ha <;> split at hb
    · simp_all
    · -- One of the two is the new page, whose address was not in use before.
      have hlt := h.used b p hb
      simp_all
    · have hlt := h.used a p ha
      simp_all
    · exact h.own a b p ha hb
  used a p ha := by
    rw [pageOf_memNewpage] at ha
    change p < m.brk + 1
    split at ha
    · simp_all
    · exact Nat.lt_succ_of_lt (h.used a p ha)

/-- A page that is allocated holds zeros, as it did before. -/
theorem byte_memNewpage {m : Mem} {addr : Addr} (h : Tidy m) (hnone : m.pageOf addr = none)
    (a : Addr) : (memNewpage m addr).byte a = m.byte a := by
  simp only [Mem.byte, pageOf_memNewpage]
  by_cases hp : pageNumber a = pageNumber addr
  · have hcore : (memNewpage m addr).core m.brk = fun _ => 0 := Function.update_self ..
    simp [hp, pageOf_congr m hp, hnone, hcore]
  · rw [if_neg hp]
    cases ha : m.pageOf a with
    | none => rfl
    | some p =>
        -- What is found elsewhere is not the new page.
        have hne : p ≠ m.brk := Nat.ne_of_lt (h.used a p ha)
        simp [memNewpage, hne]

end Memory

end MicroArch
