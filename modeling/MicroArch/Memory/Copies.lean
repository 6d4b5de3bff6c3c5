import Mathlib.Tactic.Ring
import MicroArch.Memory.Flat

/-!
# Copies

The routines that move bytes between the host and the simulated memory
(`mem_access`, `mem_bcopy`, `mem_bcopy4`, `mem_bzero` and `mem_strcpy` of
`memory.c`).

A host buffer is what stands at the addresses from a pointer on. `mem_access`
checks its size and its alignment and then moves bytes one at a time, so it
never leaves a page by a single access. The other routines call it through a
parameter, for a byte or a word at a time. A word at a time is the faster way
to do the same, as long as the address is aligned. When it is not, the first
word faults and nothing has been copied.

The check of the size is meant to let powers of two pass. It asks that the size
and its predecessor share no bit, which is also true of zero and of the least
integer; both are let through at some addresses, and move nothing there.

`mem_strcpy` runs until it has moved a zero. The fuel bounds how long it may
take, and is enough when it exceeds the length of the string.

The loops are compared with `copyIn` and `copyOut`, which move bytes with no
checks in between. The results about a routine are then results about those two:
the first fills a buffer from the contents of the memory, and the second leaves
a memory whose contents are the buffer where it wrote, and the old ones elsewhere.

## Main definitions

* `MdFault`: The faults of the target machine.
* `Buf`: A host buffer.
* `memAccess`: The accessor with the checks.
* `memBcopy`, `memBcopy4`, `memBzero`, `memStrcpy`: The copies.

## Theorems

* `copyIn_contents`, `copyOut_contents`: What the byte loops move.
* `aligned_iff`: Which accesses pass the checks.
* `memAccess_safe`: `mem_access` faults when its checks fail, and then nothing
  has happened.
* `memBcopy4_eq`: Copying words is copying bytes, or a fault.
* `memBcopy_round_trip`: What was copied out comes back.
* `memBzero_contents`: What was cleared is zero.
* `memStrcpy_round_trip`: A string that was copied out comes back.

A caller of the copies needs no more than the last five.
-/

namespace MicroArch

namespace Memory

/-- `md_fault_type`. -/
inductive MdFault where
  | none | access | alignment | overflow | div0 | break | unimpl | internal
  deriving DecidableEq

/-- `mem_cmd`. -/
inductive Cmd where
  | read | write
  deriving DecidableEq

/-- Host memory, by its addresses. -/
abbrev Buf := Nat → Byte

/-- `MEM_READ_BYTE`. -/
def memReadByte (m : Mem) (addr : Addr) : Option (Byte × Mem) :=
  (memRead 1 m addr).map fun x => (x.1.headD 0, x.2)

/-- The loop of `mem_access` that reads. -/
def copyIn : Nat → Mem → Addr → Buf → Nat → Option (Buf × Mem)
  | 0, m, _, buf, _ => some (buf, m)
  | n + 1, m, addr, buf, p => do
      let (b, m) ← memReadByte m addr
      copyIn n m (addr + 1) (Function.update buf p b) (p + 1)

/-- The loop of `mem_access` that writes. -/
def copyOut : Nat → Mem → Addr → Buf → Nat → Option Mem
  | 0, m, _, _, _ => some m
  | n + 1, m, addr, buf, p => do
      let m ← memWrite m addr [buf p]
      copyOut n m (addr + 1) buf (p + 1)

/-- Both loops. -/
def copy (n : Nat) (m : Mem) (cmd : Cmd) (addr : Addr) (buf : Buf) (p : Nat) :
    Option (Buf × Mem) :=
  match cmd with
  | .read => copyIn n m addr buf p
  | .write => (copyOut n m addr buf p).map fun m => (buf, m)

/-- How often `while (n-- > 0)` goes around. -/
def times (n : BitVec 32) : Nat := n.toInt.toNat

/-- A memory accessor, `mem_access_fn`. -/
abbrev MemFn := Mem → Cmd → Addr → Buf → Nat → BitVec 32 → Option (MdFault × Buf × Mem)

/-- `mem_access`. -/
def memAccess : MemFn := fun m cmd addr buf p nbytes =>
  if nbytes &&& (nbytes - 1) ≠ 0 ∨ (4096#32).slt nbytes then some (.access, buf, m)
  else if addr &&& (nbytes - 1) ≠ 0 then some (.alignment, buf, m)
  else (copy (times nbytes) m cmd addr buf p).map fun x => (.none, x.1, x.2)

/-- The loop of the copies, with an access of one width each time. -/
def copyLoop (memFn : MemFn) (cmd : Cmd) (width : BitVec 32) :
    Nat → Mem → Addr → Buf → Nat → Option (MdFault × Buf × Mem)
  | 0, m, _, buf, _ => some (.none, buf, m)
  | n + 1, m, addr, buf, p => do
      let (fault, buf, m) ← memFn m cmd addr buf p width
      if fault ≠ .none then return (fault, buf, m)
      copyLoop memFn cmd width n m (addr + width) buf (p + width.toNat)

/-- `mem_bcopy`. -/
def memBcopy (memFn : MemFn) : MemFn := fun m cmd addr buf p nbytes =>
  copyLoop memFn cmd 1 (times nbytes) m addr buf p

/-- `mem_bcopy4`, with `words = nbytes >> 2`. -/
def memBcopy4 (memFn : MemFn) : MemFn := fun m cmd addr buf p nbytes =>
  copyLoop memFn cmd 4 (times (nbytes.sshiftRight 2)) m addr buf p

/-- The loop of `mem_bzero`, which passes the address of one byte. -/
def bzeroLoop (memFn : MemFn) : Nat → Mem → Addr → Buf → Option (MdFault × Mem)
  | 0, m, _, _ => some (.none, m)
  | n + 1, m, addr, c => do
      let (fault, c, m) ← memFn m .write addr c 0 1
      if fault ≠ .none then return (fault, m)
      bzeroLoop memFn n m (addr + 1) c

/-- `mem_bzero`. -/
def memBzero (memFn : MemFn) (m : Mem) (addr : Addr) (nbytes : BitVec 32) :
    Option (MdFault × Mem) :=
  bzeroLoop memFn (times nbytes) m addr fun _ => 0

/-- `mem_strcpy`, with the local `c` of the source at the address zero of a
    buffer of its own. -/
def memStrcpy (memFn : MemFn) (cmd : Cmd) : Nat → Mem → Addr → Buf → Nat → Buf →
    Option (MdFault × Buf × Mem)
  | 0, _, _, _, _, _ => none
  | fuel + 1, m, addr, s, p, c => do
      match cmd with
      | .read =>
          let (fault, c, m) ← memFn m .read addr c 0 1
          if fault ≠ .none then return (fault, s, m)
          let s := Function.update s p (c 0)
          if c 0 = 0 then return (.none, s, m)
          memStrcpy memFn cmd fuel m (addr + 1) s (p + 1) c
      | .write =>
          let c := Function.update c 0 (s p)
          let (fault, c, m) ← memFn m .write addr c 0 1
          if fault ≠ .none then return (fault, s, m)
          if c 0 = 0 then return (.none, s, m)
          memStrcpy memFn cmd fuel m (addr + 1) s (p + 1) c

/-! ### Bytes -/

/-- What a memory holds, whatever its statistics are. -/
def Contents (m : Mem) (bytes : Addr → Byte) : Prop := ∃ f, Represents m f ∧ f.bytes = bytes

theorem contents_memCreate : Contents memCreate fun _ => 0 := ⟨_, represents_memCreate, rfl⟩

variable {m : Mem} {bytes : Addr → Byte}

theorem Contents.byte (h : Contents m bytes) (a : Addr) : m.byte a = bytes a := by
  rcases h with ⟨f, r, rfl⟩
  exact r.bytes a

theorem within_one (addr : Addr) : Within addr 1 := by
  have h := (memOffset addr).isLt
  simp only [Within]
  omega

theorem contents_memReadByte (h : Contents m bytes) (addr : Addr) :
    Yields (memReadByte m addr) fun x => x.1 = bytes addr ∧ Contents x.2 bytes := by
  rcases h with ⟨f, r, rfl⟩
  refine (represents_memRead r (within_one addr)).map fun x hx => ?_
  refine ⟨by simp [hx.1, Flat.read], _, hx.2, ?_⟩
  -- A read changes the statistics of the flat memory and none of its bytes.
  simp only [Flat.read, Flat.visit]
  split <;> rfl

theorem contents_memWrite (h : Contents m bytes) (addr : Addr) (b : Byte) :
    Yields (memWrite m addr [b]) fun m' => Contents m' (Function.update bytes addr b) := by
  rcases h with ⟨f, r, rfl⟩
  have hw : Within addr [b].length := within_one addr
  refine (represents_memWrite r hw).mono fun m' hm => ⟨_, hm, ?_⟩
  ext1 a
  by_cases ha : a = addr
  · subst ha
    have hzero : (a - a).toNat = 0 := by rw [BitVec.sub_self]; rfl
    simp only [Flat.write, hzero, Function.update_self, List.getD_cons_zero]
  · -- Any other address is at a distance of at least one, past the end of the byte written.
    have hpos : 1 ≤ (a - addr).toNat := by
      have hne : (a - addr).toNat ≠ (0#32).toNat := fun hz =>
        ha (by simpa [BitVec.sub_eq_iff_eq_add] using BitVec.eq_of_toNat_eq hz)
      exact Nat.one_le_iff_ne_zero.mpr hne
    simp only [Flat.write, Function.update_of_ne ha]
    exact List.getD_eq_default _ _ hpos

/-- An access of more bytes, which stay on their page. -/
theorem contents_memRead_within (h : Contents m bytes) {addr : Addr} {n : Nat}
    (hw : Within addr n) :
    Yields (memRead n m addr) fun x =>
      x.1 = ((List.range n).map fun i => bytes (addr + BitVec.ofNat 32 i)) ∧
        Contents x.2 bytes := by
  rcases h with ⟨f, r, rfl⟩
  refine (represents_memRead r hw).mono fun x hx => ⟨hx.1, _, hx.2, ?_⟩
  simp only [Flat.read, Flat.visit]
  split <;> rfl

theorem contents_memWrite_within (h : Contents m bytes) {addr : Addr} {l : List Byte}
    (hw : Within addr l.length) :
    Yields (memWrite m addr l) fun m' =>
      Contents m' fun a => l.getD (a - addr).toNat (bytes a) := by
  rcases h with ⟨f, r, rfl⟩
  exact (represents_memWrite r hw).mono fun m' hm => ⟨_, hm, rfl⟩

/-- Addresses of a range that has not gone around. -/
theorem add_ne_add {addr : Addr} {i j : Nat} (hij : i ≠ j) (hi : i < 2 ^ 32) (hj : j < 2 ^ 32) :
    addr + BitVec.ofNat 32 i ≠ addr + BitVec.ofNat 32 j := by
  intro h
  have hnat := congrArg BitVec.toNat (BitVec.add_right_inj addr |>.mp h)
  simp only [BitVec.toNat_ofNat] at hnat
  omega

theorem add_one_add (addr : Addr) (i : Nat) :
    addr + 1 + BitVec.ofNat 32 i = addr + BitVec.ofNat 32 (i + 1) := by
  rw [BitVec.ofNat_add, BitVec.add_assoc, BitVec.add_comm 1]
  rfl

/-- The loop that reads puts the bytes in the buffer. -/
theorem copyIn_contents (h : Contents m bytes) (n : Nat) (addr : Addr) (buf : Buf) (p : Nat) :
    Yields (copyIn n m addr buf p) fun x =>
      (∀ q, x.1 q = if p ≤ q ∧ q < p + n then bytes (addr + BitVec.ofNat 32 (q - p)) else buf q) ∧
      Contents x.2 bytes := by
  induction n generalizing m addr buf p with
  | zero =>
      refine Yields.ret ⟨fun q => ?_, h⟩
      rw [if_neg (by omega)]
  | succ n ih =>
      refine (contents_memReadByte h addr).bind ?_
      rintro ⟨b, m₁⟩ ⟨rfl, h₁⟩
      refine (ih h₁ (addr + 1) _ (p + 1)).mono fun x hx => ⟨fun q => ?_, hx.2⟩
      rw [hx.1 q]
      -- The rest of the loop fills the buffer from `p + 1` on and leaves the byte just read alone.
      by_cases hq : p + 1 ≤ q ∧ q < p + 1 + n
      · have hsub : q - (p + 1) + 1 = q - p := by omega
        rw [if_pos hq, if_pos (by omega), add_one_add, hsub]
      · rw [if_neg hq]
        by_cases hqp : q = p
        · simp [hqp]
        · rw [Function.update_of_ne hqp, if_neg (by omega)]

/-- The loop that writes takes the bytes out of it. -/
theorem copyOut_contents (h : Contents m bytes) (n : Nat) (hn : n ≤ 2 ^ 32) (addr : Addr)
    (buf : Buf) (p : Nat) :
    Yields (copyOut n m addr buf p) fun m' => ∃ bytes', Contents m' bytes' ∧
      (∀ i < n, bytes' (addr + BitVec.ofNat 32 i) = buf (p + i)) ∧
      ∀ a, (∀ i < n, a ≠ addr + BitVec.ofNat 32 i) → bytes' a = bytes a := by
  induction n generalizing m bytes addr p with
  | zero => exact Yields.ret ⟨bytes, h, by simp, fun _ _ => rfl⟩
  | succ n ih =>
      refine (contents_memWrite h addr (buf p)).bind fun m₁ h₁ => ?_
      refine (ih h₁ (by omega) (addr + 1) (p + 1)).mono ?_
      rintro m' ⟨bytes', h', hin, hout⟩
      simp only [add_one_add] at hin hout
      have hzero : addr + BitVec.ofNat 32 0 = addr := by simp
      refine ⟨bytes', h', fun i hi => ?_, fun a ha => ?_⟩
      · -- The first byte is written before the others, and they do not come back to its address,
        -- as fewer than `2 ^ 32` of them are left.
        cases i with
        | zero =>
            rw [hzero, hout addr fun j hj => ?_, Function.update_self, Nat.add_zero]
            rw [← hzero]
            simpa using @add_ne_add addr 0 (j + 1) (by omega) (by omega)
              (by omega)
        | succ i =>
            rw [hin i (by omega)]
            congr 1
            omega
      · rw [hout a fun i hi => ha (i + 1) (by omega),
          Function.update_of_ne (by simpa [hzero] using ha 0 (by omega))]

/-! ### Accesses -/

/-- The checks of an access that is made. -/
def Aligned (addr : Addr) (nbytes : BitVec 32) : Prop :=
  nbytes &&& (nbytes - 1) = 0 ∧ ¬ (4096#32).slt nbytes ∧ addr &&& (nbytes - 1) = 0

theorem memAccess_aligned {addr : Addr} {nbytes : BitVec 32} (h : Aligned addr nbytes) (m : Mem)
    (cmd : Cmd) (buf : Buf) (p : Nat) :
    memAccess m cmd addr buf p nbytes
      = (copy (times nbytes) m cmd addr buf p).map fun x => (.none, x.1, x.2) := by
  rcases h with ⟨hsize, hmax, halign⟩
  rw [memAccess, if_neg (not_or.mpr ⟨not_not.mpr hsize, hmax⟩), if_neg (not_not.mpr halign)]

/-- An access that is not made has changed nothing. -/
theorem memAccess_faults {addr : Addr} {nbytes : BitVec 32} (h : ¬ Aligned addr nbytes) (m : Mem)
    (cmd : Cmd) (buf : Buf) (p : Nat) :
    ∃ fault, fault ≠ .none ∧ memAccess m cmd addr buf p nbytes = some (fault, buf, m) := by
  rw [memAccess]
  split
  · exact ⟨.access, by decide, rfl⟩
  · split
    · exact ⟨.alignment, by decide, rfl⟩
    · next hsize halign =>
        refine absurd ⟨?_, ?_, not_not.mp halign⟩ h
        · exact not_not.mp fun hcase => hsize (.inl hcase)
        · exact fun hcase => hsize (.inr hcase)

theorem aligned_one (addr : Addr) : Aligned addr 1 := ⟨by decide, by decide, by simp⟩

/-- The sizes that have at most one bit set. -/
theorem size_iff (nbytes : BitVec 32) :
    nbytes &&& (nbytes - 1) = 0 ↔ nbytes = 0 ∨ ∃ k < 32, nbytes = BitVec.twoPow 32 k := by
  by_cases hzero : nbytes = 0
  · simp [hzero]
  have hpos : nbytes.toNat ≠ 0 := fun h => hzero (BitVec.eq_of_toNat_eq h)
  have hsub : (nbytes - 1).toNat = nbytes.toNat - 1 := by
    rw [BitVec.toNat_sub_of_le]
    · rfl
    · rw [BitVec.le_def]
      exact Nat.one_le_iff_ne_zero.mpr hpos
  rw [← BitVec.toNat_inj, BitVec.toNat_and, hsub]
  refine (Nat.and_sub_one_eq_zero_iff_isPowerOfTwo hpos).trans ⟨?_, ?_⟩
  · rintro ⟨k, hk⟩
    -- The width bounds the exponent.
    have hlt : k < 32 := by
      have h := nbytes.isLt
      rw [hk] at h
      exact (Nat.pow_lt_pow_iff_right (by decide)).mp h
    refine Or.inr ⟨k, hlt, BitVec.eq_of_toNat_eq ?_⟩
    rw [hk, BitVec.toNat_twoPow_of_lt hlt]
  · rintro (h | ⟨k, hk, h⟩)
    · exact absurd h hzero
    · exact ⟨k, by rw [h, BitVec.toNat_twoPow_of_lt hk]⟩

theorem and_twoPow_sub_one_iff (addr : Addr) {k : Nat} (hk : k < 32) :
    addr &&& (BitVec.twoPow 32 k - 1) = 0 ↔ addr.toNat % 2 ^ k = 0 := by
  have hsub : (BitVec.twoPow 32 k - 1).toNat = 2 ^ k - 1 := by
    rw [BitVec.toNat_sub_of_le, BitVec.toNat_twoPow_of_lt hk]
    · rfl
    · rw [BitVec.le_def, BitVec.toNat_twoPow_of_lt hk]
      exact Nat.one_le_two_pow
  rw [← BitVec.toNat_inj, BitVec.toNat_and, hsub, Nat.and_two_pow_sub_one_eq_mod]
  rfl

/-- The checks let through an aligned access whose size is a power of two up to
    a page, and besides that two sizes that move nothing: zero at address zero,
    and the least integer at an address that is a multiple of it. -/
theorem aligned_iff (addr : Addr) (nbytes : BitVec 32) :
    Aligned addr nbytes ↔
      (∃ k ≤ 12, nbytes = BitVec.twoPow 32 k ∧ addr.toNat % 2 ^ k = 0) ∨
      (nbytes = 0 ∧ addr = 0) ∨
      (nbytes = BitVec.intMin 32 ∧ addr.toNat % 2 ^ 31 = 0) := by
  -- The comparison with the size of a page is signed, so the sign bit passes it.
  have hmax : ∀ k < 32, ¬ (4096#32).slt (BitVec.twoPow 32 k) = true ↔ k ≤ 12 ∨ k = 31 := by
    decide
  have hones : (0 : BitVec 32) - 1 = BitVec.allOnes 32 := by decide
  rw [Aligned, size_iff]
  constructor
  · rintro ⟨rfl | ⟨k, hk, rfl⟩, hle, halign⟩
    · rw [hones, BitVec.and_allOnes] at halign
      exact Or.inr (Or.inl ⟨rfl, halign⟩)
    · rw [and_twoPow_sub_one_iff addr hk] at halign
      rcases (hmax k hk).mp hle with hsmall | rfl
      · exact Or.inl ⟨k, hsmall, rfl, halign⟩
      · exact Or.inr (Or.inr ⟨rfl, halign⟩)
  · rintro (⟨k, hk, rfl, halign⟩ | ⟨rfl, rfl⟩ | ⟨rfl, halign⟩)
    · have hlt : k < 32 := by omega
      refine ⟨Or.inr ⟨k, hlt, rfl⟩, (hmax k hlt).mpr (Or.inl hk), ?_⟩
      exact (and_twoPow_sub_one_iff addr hlt).mpr halign
    · exact ⟨Or.inl rfl, by decide, by decide⟩
    · refine ⟨Or.inr ⟨31, by decide, rfl⟩, by decide, ?_⟩
      exact (and_twoPow_sub_one_iff addr (by decide)).mpr halign

/-- A copy of one byte after the other. -/
theorem copy_succ (n : Nat) (m : Mem) (cmd : Cmd) (addr : Addr) (buf : Buf) (p : Nat) :
    copy (n + 1) m cmd addr buf p
      = (copy 1 m cmd addr buf p).bind fun x => copy n x.2 cmd (addr + 1) x.1 (p + 1) := by
  cases cmd with
  -- Either way one byte is moved by what `copy 1` does and the rest by a shorter copy.
  | read =>
      simp only [copy, copyIn]
      cases memReadByte m addr <;> rfl
  | write =>
      simp only [copy, copyOut]
      cases memWrite m addr [buf p] <;> rfl

theorem copy_zero (m : Mem) (cmd : Cmd) (addr : Addr) (buf : Buf) (p : Nat) :
    copy 0 m cmd addr buf p = some (buf, m) := by
  cases cmd <;> rfl

/-- Copies in a row are one copy. -/
theorem copy_add (k n : Nat) (m : Mem) (cmd : Cmd) (addr : Addr) (buf : Buf) (p : Nat) :
    copy (k + n) m cmd addr buf p
      = (copy k m cmd addr buf p).bind fun x =>
          copy n x.2 cmd (addr + BitVec.ofNat 32 k) x.1 (p + k) := by
  induction k generalizing m addr buf p with
  | zero => simp [copy_zero]
  | succ k ih =>
      -- One step of the longer copy is split off, and the two sums of offsets are reassociated.
      rw [Nat.add_right_comm, copy_succ, copy_succ k, Option.bind_assoc]
      congr 1
      ext1 x
      rw [ih, add_one_add, Nat.add_assoc, Nat.add_comm 1]

/-- A loop of accesses that are all made. -/
theorem copyLoop_aligned {width : BitVec 32} (hw : times width = width.toNat)
    (hsize : width &&& (width - 1) = 0) (hmax : ¬ (4096#32).slt width)
    (n : Nat) (m : Mem) (cmd : Cmd) (addr : Addr) (buf : Buf) (p : Nat)
    (halign : ∀ i < n, (addr + BitVec.ofNat 32 (i * width.toNat)) &&& (width - 1) = 0) :
    copyLoop memAccess cmd width n m addr buf p
      = (copy (n * width.toNat) m cmd addr buf p).map fun x => (.none, x.1, x.2) := by
  induction n generalizing m addr buf p with
  | zero => simp [copyLoop, copy_zero]
  | succ n ih =>
      have hfirst : Aligned addr width := ⟨hsize, hmax, by simpa using halign 0 (by omega)⟩
      -- The accesses left are aligned from the next address on.
      have hrest : ∀ i < n,
          (addr + width + BitVec.ofNat 32 (i * width.toNat)) &&& (width - 1) = 0 := by
        intro i hi
        have h := halign (i + 1) (by omega)
        rw [Nat.add_mul, Nat.one_mul, Nat.add_comm, BitVec.ofNat_add, BitVec.ofNat_toNat,
          BitVec.setWidth_eq, ← BitVec.add_assoc] at h
        exact h
      have hcount : (n + 1) * width.toNat = width.toNat + n * width.toNat := by
        rw [Nat.add_mul, Nat.one_mul, Nat.add_comm]
      rw [copyLoop, memAccess_aligned hfirst, hw, hcount, copy_add]
      -- No copy is made when a page lookup fails, and otherwise the hypothesis takes over.
      cases copy width.toNat m cmd addr buf p with
      | none => rfl
      | some x =>
          simp [ih _ _ _ _ hrest]

theorem times_lt (nbytes : BitVec 32) : times nbytes < 2 ^ 31 := by
  have h := BitVec.toInt_lt (x := nbytes)
  simp only [times]
  omega

/-- An access always returns. It does not fault exactly when its checks pass,
    and moves its bytes then and nothing otherwise. -/
theorem memAccess_safe (h : Contents m bytes) (cmd : Cmd) (addr : Addr) (buf : Buf) (p : Nat)
    (nbytes : BitVec 32) :
    Yields (memAccess m cmd addr buf p nbytes) fun x =>
      (x.1 = .none ↔ Aligned addr nbytes) ∧
      (x.1 ≠ .none → x.2 = (buf, m)) ∧
      (x.1 = .none → match cmd with
        | .read => Contents x.2.2 bytes ∧ ∀ q, x.2.1 q =
            if p ≤ q ∧ q < p + times nbytes then bytes (addr + BitVec.ofNat 32 (q - p)) else buf q
        | .write => x.2.1 = buf ∧ ∃ bytes', Contents x.2.2 bytes' ∧
            (∀ i < times nbytes, bytes' (addr + BitVec.ofNat 32 i) = buf (p + i)) ∧
            ∀ a, (∀ i < times nbytes, a ≠ addr + BitVec.ofNat 32 i) → bytes' a = bytes a) := by
  have hlt := times_lt nbytes
  by_cases ha : Aligned addr nbytes
  · rw [memAccess_aligned ha]
    cases cmd with
    | read =>
        refine (copyIn_contents h (times nbytes) addr buf p).map fun x hx => ?_
        exact ⟨by simp [ha], by simp, fun _ => ⟨hx.2, hx.1⟩⟩
    | write =>
        simp only [copy, Option.map_map]
        refine (copyOut_contents h (times nbytes) (by omega) addr buf p).map fun m' hm => ?_
        exact ⟨by simp [ha], by simp, fun _ => ⟨rfl, hm⟩⟩
  · -- The checks come before the loop, so the buffer and the memory are the old ones.
    rcases memAccess_faults ha m cmd buf p with ⟨fault, hne, heq⟩
    rw [heq]
    exact Yields.ret ⟨by simp [ha, hne], fun _ => rfl, fun hcase => absurd hcase hne⟩

/-- A word at the end of a page of a new memory. -/
theorem memAccess_safe_word :
    Yields (memAccess memCreate .write 0xffc (fun _ => 7) 0 4) fun x =>
      (x.1 = .none ↔ Aligned 0xffc 4) ∧
      (x.1 ≠ .none → x.2 = (fun _ => 7, memCreate)) ∧
      (x.1 = .none → x.2.1 = (fun _ => 7) ∧ ∃ bytes', Contents x.2.2 bytes' ∧
        (∀ i < times 4, bytes' (0xffc + BitVec.ofNat 32 i) = 7) ∧
        ∀ a, (∀ i < times 4, a ≠ 0xffc + BitVec.ofNat 32 i) → bytes' a = 0) :=
  memAccess_safe contents_memCreate .write 0xffc (fun _ => 7) 0 4

theorem times_sshiftRight (nbytes : BitVec 32) :
    times (nbytes.sshiftRight 2) * 4 = times nbytes - times nbytes % 4 := by
  simp only [times, BitVec.toInt_sshiftRight, Int.shiftRight_eq_div_pow]
  omega

theorem times_ofNat {n : Nat} (h : n < 2 ^ 31) : times (BitVec.ofNat 32 n) = n := by
  have hmod : n % 2 ^ 32 = n := Nat.mod_eq_of_lt (by omega)
  simp only [times, BitVec.toInt_eq_toNat_cond, BitVec.toNat_ofNat, hmod]
  omega

theorem and_three_eq_zero_iff (addr : Addr) : addr &&& 3 = 0 ↔ addr.toNat % 4 = 0 := by
  rw [← BitVec.toNat_inj, BitVec.toNat_and]
  exact Eq.congr_left (Nat.and_two_pow_sub_one_eq_mod _ 2)

theorem memBcopy_eq (m : Mem) (cmd : Cmd) (addr : Addr) (buf : Buf) (p : Nat)
    (nbytes : BitVec 32) :
    memBcopy memAccess m cmd addr buf p nbytes
      = (copy (times nbytes) m cmd addr buf p).map fun x => (.none, x.1, x.2) := by
  have h := @copyLoop_aligned 1 (by decide) (by decide) (by decide) (times nbytes) m cmd
    addr buf p fun i _ => by simp
  simpa [memBcopy] using h

/-- `mem_bcopy4` does what `mem_bcopy` does, down to the statistics of the
    page table. It leaves out the last bytes when their number is not a
    multiple of four, and at an address that is not aligned it faults before
    it has copied anything. -/
theorem memBcopy4_eq (m : Mem) (cmd : Cmd) (addr : Addr) (buf : Buf) (p : Nat)
    (nbytes : BitVec 32) :
    memBcopy4 memAccess m cmd addr buf p nbytes =
      if addr &&& 3 = 0 ∨ times nbytes < 4 then
        memBcopy memAccess m cmd addr buf p (BitVec.ofNat 32 (times nbytes - times nbytes % 4))
      else some (.alignment, buf, m) := by
  have hwords := times_sshiftRight nbytes
  have hlt := times_lt nbytes
  rw [memBcopy_eq, times_ofNat (by omega), ← hwords, memBcopy4]
  by_cases halign : addr &&& 3 = 0
  · have h := @copyLoop_aligned 4 (by decide) (by decide) (by decide)
      (times (nbytes.sshiftRight 2)) m cmd addr buf p fun i _ => by
        rw [and_three_eq_zero_iff] at halign
        change (addr + BitVec.ofNat 32 (i * 4)) &&& 3 = 0
        rw [and_three_eq_zero_iff, BitVec.toNat_add, BitVec.toNat_ofNat]
        omega
    rw [if_pos (.inl halign), h]
    rfl
  · cases hn : times (nbytes.sshiftRight 2) with
    -- No whole word is asked for, so the loop never reaches its faulting access.
    | zero =>
        rw [hn] at hwords
        rw [if_pos (.inr (by omega)), copyLoop, Nat.zero_mul, copy_zero]
        rfl
    -- The first word faults, and `mem_bcopy4` returns that fault with nothing copied.
    | succ n =>
        have hfault : memAccess m cmd addr buf p 4 = some (.alignment, buf, m) := by
          rw [memAccess, if_neg (by decide), if_pos (by exact halign)]
        rw [hn] at hwords
        rw [if_neg (not_or.mpr ⟨halign, by omega⟩), copyLoop, hfault]
        rfl

/-- What was copied to the simulated memory comes back. -/
theorem memBcopy_round_trip (h : Contents m bytes) (addr : Addr) (buf buf' : Buf) (p p' : Nat)
    (nbytes : BitVec 32) :
    Yields (memBcopy memAccess m .write addr buf p nbytes) fun x => x.1 = .none ∧
      Yields (memBcopy memAccess x.2.2 .read addr buf' p' nbytes) fun y => y.1 = .none ∧
        ∀ q, y.2.1 q = if p' ≤ q ∧ q < p' + times nbytes then buf (p + (q - p')) else buf' q := by
  have hlt := times_lt nbytes
  rw [memBcopy_eq]
  simp only [copy, Option.map_map]
  refine (copyOut_contents h (times nbytes) (by omega) addr buf p).map ?_
  rintro m' ⟨bytes', h', hin, -⟩
  refine ⟨rfl, ?_⟩
  rw [memBcopy_eq]
  refine (copyIn_contents h' (times nbytes) addr buf' p').map ?_
  rintro ⟨buf₂, m₂⟩ ⟨hq, -⟩
  refine ⟨rfl, fun q => ?_⟩
  rw [hq]
  refine ite_congr rfl (fun hcase => ?_) fun _ => rfl
  exact hin (q - p') (by omega)

theorem memAccess_read_one (m : Mem) (addr : Addr) (buf : Buf) (p : Nat) :
    memAccess m .read addr buf p 1
      = (memReadByte m addr).map fun x => (.none, Function.update buf p x.1, x.2) := by
  rw [memAccess_aligned (aligned_one addr)]
  change (copyIn 1 m addr buf p).map _ = _
  rw [copyIn]
  cases memReadByte m addr <;> rfl

theorem memAccess_write_one (m : Mem) (addr : Addr) (buf : Buf) (p : Nat) :
    memAccess m .write addr buf p 1
      = (memWrite m addr [buf p]).map fun m => (.none, buf, m) := by
  rw [memAccess_aligned (aligned_one addr)]
  change ((copyOut 1 m addr buf p).map _).map _ = _
  rw [copyOut]
  cases memWrite m addr [buf p] <;> rfl

theorem bzeroLoop_eq (n : Nat) (m : Mem) (addr : Addr) (p : Nat) :
    bzeroLoop memAccess n m addr (fun _ => 0)
      = (copyOut n m addr (fun _ => 0) p).map fun m => (.none, m) := by
  induction n generalizing m addr p with
  | zero => rfl
  | succ n ih =>
      rw [bzeroLoop, memAccess_write_one, copyOut]
      cases memWrite m addr [0] with
      | none => rfl
      | some m₁ => exact ih m₁ (addr + 1) (p + 1)

/-- `mem_bzero` leaves zeros, and nothing else changes. -/
theorem memBzero_contents (h : Contents m bytes) (addr : Addr) (nbytes : BitVec 32) :
    Yields (memBzero memAccess m addr nbytes) fun x => x.1 = .none ∧
      ∃ bytes', Contents x.2 bytes' ∧
        (∀ i < times nbytes, bytes' (addr + BitVec.ofNat 32 i) = 0) ∧
        ∀ a, (∀ i < times nbytes, a ≠ addr + BitVec.ofNat 32 i) → bytes' a = bytes a := by
  have hlt := times_lt nbytes
  rw [memBzero, bzeroLoop_eq _ _ _ 0]
  exact (copyOut_contents h (times nbytes) (by omega) addr _ 0).map fun m' h' => ⟨rfl, h'⟩

/-! ### Strings -/

/-- Copying a string to the simulated memory copies it with its end. -/
theorem memStrcpy_write (k : Nat) {fuel : Nat} (hf : k < fuel) (m : Mem) (addr : Addr) (s : Buf)
    (p : Nat) (c : Buf) (hs : ∀ i < k, s (p + i) ≠ 0) (hz : s (p + k) = 0) :
    memStrcpy memAccess .write fuel m addr s p c
      = (copyOut (k + 1) m addr s p).map fun m => (.none, s, m) := by
  -- The induction is on the length of the string, so the fuel is one more at every step.
  induction k generalizing fuel m addr p c with
  | zero =>
      obtain ⟨n, rfl⟩ := Nat.exists_eq_add_of_lt hf
      rw [Nat.add_zero] at hz
      simp only [memStrcpy, memAccess_write_one, copyOut, hz, Function.update_self]
      cases memWrite m addr [0] <;> rfl
  | succ k ih =>
      obtain ⟨n, rfl⟩ : ∃ n, fuel = n + 1 := ⟨fuel - 1, by omega⟩
      have hne : s p ≠ 0 := by simpa using hs 0 (by omega)
      have hs' : ∀ i < k, s (p + 1 + i) ≠ 0 := by
        intro i hi
        rw [Nat.add_assoc, Nat.add_comm 1]
        exact hs (i + 1) (by omega)
      have hz' : s (p + 1 + k) = 0 := by
        rw [Nat.add_assoc, Nat.add_comm 1]
        exact hz
      rw [memStrcpy, memAccess_write_one, copyOut, Function.update_self]
      cases memWrite m addr [s p] with
      | none => rfl
      | some m₁ =>
          have hlt : k < n := by omega
          have hrest := ih hlt m₁ (addr + 1) (p + 1) (Function.update c 0 (s p)) hs' hz'
          -- The byte just written is in `c`, and it is not the zero that ends the loop.
          have hgo : ¬ Function.update c 0 (s p) 0 = 0 := by rwa [Function.update_self]
          exact (if_neg hgo).trans hrest

/-- Copying a string from the simulated memory stops at its end. -/
theorem memStrcpy_read (h : Contents m bytes) (k : Nat) {fuel : Nat} (hf : k < fuel) (addr : Addr)
    (s : Buf) (p : Nat) (c : Buf) (hs : ∀ i < k, bytes (addr + BitVec.ofNat 32 i) ≠ 0)
    (hz : bytes (addr + BitVec.ofNat 32 k) = 0) :
    Yields (memStrcpy memAccess .read fuel m addr s p c) fun x => x.1 = .none ∧
      (∀ q, x.2.1 q = if p ≤ q ∧ q ≤ p + k then bytes (addr + BitVec.ofNat 32 (q - p)) else s q) ∧
      Contents x.2.2 bytes := by
  -- The induction follows the string: every byte before its end lets the loop go on.
  induction k generalizing fuel m addr s p c with
  | zero =>
      obtain ⟨n, rfl⟩ : ∃ n, fuel = n + 1 := ⟨fuel - 1, by omega⟩
      have hstop : bytes addr = 0 := by simpa using hz
      rw [memStrcpy, memAccess_read_one, Option.bind_eq_bind, Option.bind_map]
      refine (contents_memReadByte h addr).bind ?_
      rintro ⟨b, m₁⟩ ⟨rfl, h₁⟩
      have hend : Function.update c 0 (bytes addr) 0 = 0 := by rwa [Function.update_self]
      -- The terminator is stored before it is looked at, so it comes along.
      refine (congrArg (Yields · _) (if_pos hend)).mpr (Yields.ret ⟨rfl, fun q => ?_, h₁⟩)
      by_cases hq : q = p
      · simp [hq]
      · rw [if_neg (by omega)]
        exact Function.update_of_ne hq _ _
  | succ k ih =>
      obtain ⟨n, rfl⟩ : ∃ n, fuel = n + 1 := ⟨fuel - 1, by omega⟩
      have hne : bytes addr ≠ 0 := by simpa using hs 0 (by omega)
      rw [memStrcpy, memAccess_read_one, Option.bind_eq_bind, Option.bind_map]
      refine (contents_memReadByte h addr).bind ?_
      rintro ⟨b, m₁⟩ ⟨rfl, h₁⟩
      have hgo : ¬ Function.update c 0 (bytes addr) 0 = 0 := by rwa [Function.update_self]
      refine (congrArg (Yields · _) (if_neg hgo)).mpr ?_
      refine (ih h₁ (by omega) (addr + 1) _ (p + 1) _ (fun i hi => ?_) ?_).mono ?_
      · rw [add_one_add]
        exact hs (i + 1) (by omega)
      · rw [add_one_add]
        exact hz
      · rintro x ⟨hx, hq, hc⟩
        refine ⟨hx, fun q => ?_, hc⟩
        rw [hq]
        by_cases hin : p + 1 ≤ q ∧ q ≤ p + 1 + k
        · have hsub : q - (p + 1) + 1 = q - p := by omega
          rw [if_pos hin, if_pos (by omega), add_one_add, hsub]
        · rw [if_neg hin]
          by_cases hqp : q = p
          · simp [hqp]
          · rw [if_neg (by omega)]
            exact Function.update_of_ne hqp _ _

/-- A string that was copied to the simulated memory comes back with its end,
    and nothing else of the memory has changed. -/
theorem memStrcpy_round_trip (h : Contents m bytes) {k fuel : Nat} (hk : k < 2 ^ 32)
    (hf : k < fuel) (addr : Addr) (s : Buf) (p : Nat) (hs : ∀ i < k, s (p + i) ≠ 0)
    (hz : s (p + k) = 0) (c : Buf) :
    Yields (memStrcpy memAccess .write fuel m addr s p c) fun x => x.1 = .none ∧ x.2.1 = s ∧
      (∀ a, (∀ i ≤ k, a ≠ addr + BitVec.ofNat 32 i) → x.2.2.byte a = bytes a) ∧
      ∀ s' p' c', Yields (memStrcpy memAccess .read fuel x.2.2 addr s' p' c') fun y =>
        y.1 = .none ∧
        ∀ q, y.2.1 q = if p' ≤ q ∧ q ≤ p' + k then s (p + (q - p')) else s' q := by
  rw [memStrcpy_write k hf m addr s p c hs hz]
  -- The string and its terminator are written, which is one byte more than its length.
  refine (copyOut_contents h (k + 1) (by omega) addr s p).map ?_
  rintro m' ⟨bytes', h', hin, hout⟩
  refine ⟨rfl, rfl, fun a ha => ?_, fun s' p' c' => ?_⟩
  · rw [h'.byte, hout a fun i hi => ha i (by omega)]
  · refine (memStrcpy_read h' k hf addr s' p' c' (fun i hi => ?_) ?_).mono ?_
    · rw [hin i (by omega)]
      exact hs i hi
    · rw [hin k (by omega)]
      exact hz
    · rintro y ⟨hy, hq, -⟩
      refine ⟨hy, fun q => ?_⟩
      rw [hq]
      refine ite_congr rfl (fun hcase => ?_) fun _ => rfl
      exact hin (q - p') (by omega)

/-- A string of two bytes that goes over the end of a page. -/
theorem memStrcpy_round_trip_page :
    Yields (memStrcpy memAccess .write 3 memCreate 0xffe (fun q => [104, 105].getD q 0) 0
        fun _ => 0) fun x => x.1 = .none ∧ x.2.1 = (fun q => [104, 105].getD q 0) ∧
      (∀ a, (∀ i ≤ 2, a ≠ 0xffe + BitVec.ofNat 32 i) → x.2.2.byte a = 0) ∧
      ∀ s' p' c', Yields (memStrcpy memAccess .read 3 x.2.2 0xffe s' p' c') fun y =>
        y.1 = .none ∧
        ∀ q, y.2.1 q = if p' ≤ q ∧ q ≤ p' + 2 then [104, 105].getD (0 + (q - p')) 0 else s' q :=
  memStrcpy_round_trip contents_memCreate (by decide) (by decide) 0xffe _ 0 (by decide)
    (by decide) _

end Memory

end MicroArch
