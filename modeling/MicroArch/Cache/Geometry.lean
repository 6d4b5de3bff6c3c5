import Mathlib.Data.BitVec
import Mathlib.Tactic.Ring

/-!
# The Geometry of a Cache

The parameters of a cache that have passed the checks of `cache_create`, the
values it derives from them, and the macros of `cache.c` that take an address
apart and put a block address together.

An address is 32 bits wide, and so is a shift. The checks accept a cache whose
sets together are as large as the memory, or larger, and its tags are shifted
by 32 bits or more. C leaves the result open. Here it is the one of an x86
processor, which takes the count modulo 32, so that the tag of such a cache is
not what remains of the address beyond the set. Everything that needs a tag to
be that asks for sets that fit into the memory.

## Main definitions

* `Geometry`: The accepted parameters.
* `checkParams`: The checks, in the order of the source.
* `shiftRight`, `shiftLeft`: The shifts of the processor.
* `Geometry.Fits`: One way of the cache is smaller than the memory.
* `cacheTag`, `cacheSet`, `cacheBaddr`: The parts of an address.
* `cacheMkBaddr`: The block address of a tag and a set.
* `cacheHash`: The bucket of a tag.

## Theorems

* `checkParams_isOk_iff`: The parameters that are accepted.
* `exists_checkParams`: Every geometry is accepted.
* `fits_iff`: Where the tag shift is one that C defines.
* `cacheMkBaddr_tag_set`: The parts give the block address back.
* `cacheBaddr_eq_iff`: A block is its tag and its set.
* `cacheSet_eq_iff`: In a cache that does not fit, its set alone.
-/

namespace MicroArch

namespace Cache

abbrev Addr := BitVec 32

/-- The replacement policies. -/
inductive Policy where
  | LRU
  | Random
  | FIFO
  deriving DecidableEq

/-- Whether one of these values is a power of two, the way the source tests
    it. -/
def powerOfTwo (n : Nat) : Prop := n &&& (n - 1) = 0

instance (n : Nat) : Decidable (powerOfTwo n) := inferInstanceAs (Decidable (_ = _))

/-- Parameters of a cache that were accepted. They are positive values of the
    C type `int`. -/
structure Geometry where
  nsets : Nat
  bsize : Nat
  assoc : Nat
  policy : Policy
  hitLatency : BitVec 32
  prefetchType : Nat
  nsets_pos : 0 < nsets
  nsets_pow : powerOfTwo nsets
  bsize_le : 8 ≤ bsize
  bsize_pow : powerOfTwo bsize
  assoc_pos : 0 < assoc
  assoc_pow : powerOfTwo assoc
  nsets_lt : nsets < 2147483648
  bsize_lt : bsize < 2147483648
  assoc_lt : assoc < 2147483648
  prefetchType_lt : prefetchType < 2147483648

/-- The checks of `cache_create`. A cache that fails one is not created, and
    the program ends with the text. -/
def checkParams (nsets bsize usize assoc : BitVec 32) (policy : Policy) (hitLatency : BitVec 32)
    (prefetchType : BitVec 32) : Except String Geometry :=
  if h₁ : nsets.toInt ≤ 0 then .error "cache size (in sets) `%d' must be non-zero"
  else if h₂ : ¬ powerOfTwo nsets.toNat then
    .error "cache size (in sets) `%d' is not a power of two"
  else if h₃ : bsize.toInt < 8 then
    .error "cache block size (in bytes) `%d' must be 8 or greater"
  else if h₄ : ¬ powerOfTwo bsize.toNat then
    .error "cache block size (in bytes) `%d' must be a power of two"
  else if usize.toInt < 0 then
    .error "user data size (in bytes) `%d' must be a positive value"
  else if h₅ : assoc.toInt ≤ 0 then
    .error "cache associativity `%d' must be non-zero and positive"
  else if h₆ : ¬ powerOfTwo assoc.toNat then
    .error "cache associativity `%d' must be a power of two"
  else if h₇ : prefetchType.toInt < 0 then
    .error "prefetcher type `%d'must be a positive number"
  else .ok
    { nsets := nsets.toNat, bsize := bsize.toNat, assoc := assoc.toNat
      policy := policy, hitLatency := hitLatency, prefetchType := prefetchType.toNat
      nsets_pos := by rw [BitVec.toInt_eq_toNat_cond] at h₁; split at h₁ <;> omega
      nsets_pow := not_not.mp h₂
      bsize_le := by rw [BitVec.toInt_eq_toNat_cond] at h₃; split at h₃ <;> omega
      bsize_pow := not_not.mp h₄
      assoc_pos := by rw [BitVec.toInt_eq_toNat_cond] at h₅; split at h₅ <;> omega
      assoc_pow := not_not.mp h₆
      nsets_lt := by rw [BitVec.toInt_eq_toNat_cond] at h₁; split at h₁ <;> omega
      bsize_lt := by rw [BitVec.toInt_eq_toNat_cond] at h₃; split at h₃ <;> omega
      assoc_lt := by rw [BitVec.toInt_eq_toNat_cond] at h₅; split at h₅ <;> omega
      prefetchType_lt := by rw [BitVec.toInt_eq_toNat_cond] at h₇; split at h₇ <;> omega }

/-- The parameters that are accepted. -/
theorem checkParams_isOk_iff (nsets bsize usize assoc : BitVec 32) (policy : Policy)
    (hitLatency prefetchType : BitVec 32) :
    (checkParams nsets bsize usize assoc policy hitLatency prefetchType).toOption.isSome ↔
      (0 < nsets.toInt ∧ powerOfTwo nsets.toNat) ∧ (8 ≤ bsize.toInt ∧ powerOfTwo bsize.toNat) ∧
      0 ≤ usize.toInt ∧ (0 < assoc.toInt ∧ powerOfTwo assoc.toNat) ∧ 0 ≤ prefetchType.toInt := by
  unfold checkParams
  -- One case for each check. The first one that fails ends with an error.
  by_cases h₁ : nsets.toInt ≤ 0
  · rw [dif_pos h₁]
    exact iff_of_false nofun fun h => absurd h.1.1 (not_lt.mpr h₁)
  by_cases h₂ : powerOfTwo nsets.toNat
  swap
  · rw [dif_neg h₁, dif_pos h₂]
    exact iff_of_false nofun fun h => h₂ h.1.2
  by_cases h₃ : bsize.toInt < 8
  · rw [dif_neg h₁, dif_neg (not_not.mpr h₂), dif_pos h₃]
    exact iff_of_false nofun fun h => absurd h.2.1.1 (not_le.mpr h₃)
  by_cases h₄ : powerOfTwo bsize.toNat
  swap
  · rw [dif_neg h₁, dif_neg (not_not.mpr h₂), dif_neg h₃, dif_pos h₄]
    exact iff_of_false nofun fun h => h₄ h.2.1.2
  rw [dif_neg h₁, dif_neg (not_not.mpr h₂), dif_neg h₃, dif_neg (not_not.mpr h₄)]
  by_cases h₅ : usize.toInt < 0
  · rw [if_pos h₅]
    exact iff_of_false nofun fun h => absurd h.2.2.1 (not_le.mpr h₅)
  by_cases h₆ : assoc.toInt ≤ 0
  · rw [if_neg h₅, dif_pos h₆]
    exact iff_of_false nofun fun h => absurd h.2.2.2.1.1 (not_lt.mpr h₆)
  by_cases h₇ : powerOfTwo assoc.toNat
  swap
  · rw [if_neg h₅, dif_neg h₆, dif_pos h₇]
    exact iff_of_false nofun fun h => h₇ h.2.2.2.1.2
  by_cases h₈ : prefetchType.toInt < 0
  · rw [if_neg h₅, dif_neg h₆, dif_neg (not_not.mpr h₇), dif_pos h₈]
    exact iff_of_false nofun fun h => absurd h.2.2.2.2 (not_le.mpr h₈)
  rw [if_neg h₅, dif_neg h₆, dif_neg (not_not.mpr h₇), dif_neg h₈]
  rw [not_lt] at h₃ h₅ h₈
  rw [not_le] at h₁ h₆
  exact iff_of_true rfl ⟨⟨h₁, h₂⟩, ⟨h₃, h₄⟩, h₅, ⟨h₆, h₇⟩, h₈⟩

/-- A positive value of the C type `int`. -/
theorem toInt_ofNat {n : Nat} (h : n < 2147483648) : (BitVec.ofNat 32 n).toInt = n := by
  rw [BitVec.toInt_eq_toNat_cond, BitVec.toNat_ofNat, Nat.mod_eq_of_lt (by omega)]
  exact if_pos (by omega)

/-- Every geometry is one that is accepted. -/
theorem exists_checkParams (g : Geometry) : checkParams (BitVec.ofNat 32 g.nsets)
    (BitVec.ofNat 32 g.bsize) 0 (BitVec.ofNat 32 g.assoc) g.policy g.hitLatency
    (BitVec.ofNat 32 g.prefetchType) = .ok g := by
  have hnsets := toInt_ofNat g.nsets_lt
  have hbsize := toInt_ofNat g.bsize_lt
  have hassoc := toInt_ofNat g.assoc_lt
  have htype := toInt_ofNat g.prefetchType_lt
  have hpos := g.nsets_pos
  have hle := g.bsize_le
  have hpos' := g.assoc_pos
  have hnat : ∀ {n : Nat}, n < 2147483648 → (BitVec.ofNat 32 n).toNat = n := fun h => by
    rw [BitVec.toNat_ofNat, Nat.mod_eq_of_lt (by omega)]
  -- None of the checks fails.
  have hnsets' : ¬ ¬ powerOfTwo (BitVec.ofNat 32 g.nsets).toNat := by
    rw [hnat g.nsets_lt, not_not]
    exact g.nsets_pow
  have hbsize' : ¬ ¬ powerOfTwo (BitVec.ofNat 32 g.bsize).toNat := by
    rw [hnat g.bsize_lt, not_not]
    exact g.bsize_pow
  have hassoc' : ¬ ¬ powerOfTwo (BitVec.ofNat 32 g.assoc).toNat := by
    rw [hnat g.assoc_lt, not_not]
    exact g.assoc_pow
  simp only [checkParams]
  rw [dif_neg (by omega), dif_neg hnsets', dif_neg (by omega), dif_neg hbsize', if_neg (by decide),
    dif_neg (by omega), dif_neg hassoc', dif_neg (by omega)]
  simp only [hnat g.nsets_lt, hnat g.bsize_lt, hnat g.assoc_lt, hnat g.prefetchType_lt]

/-- The loop of `log_base2`: how often the number can be halved before it is
    zero, counting from the second time on. -/
def halvings : Nat → Nat → Nat
  | 0, _ => 0
  | bits + 1, n => if n >>> 1 = 0 then 0 else halvings bits (n >>> 1) + 1

/-- `log_base2` of a positive `int`. -/
def logBase2 (n : Nat) : Nat := halvings 31 n

theorem halvings_two_pow (bits k : Nat) (h : k ≤ bits) : halvings bits (2 ^ k) = k := by
  -- By induction on the number of bits; each round takes one factor of two.
  induction bits generalizing k with
  | zero => rw [Nat.le_zero.mp h, halvings]
  | succ bits ih =>
      rw [halvings]
      cases k with
      | zero => rfl
      | succ k =>
          have hhalf : 2 ^ (k + 1) >>> 1 = 2 ^ k := by
            rw [Nat.shiftRight_eq_div_pow, pow_one, pow_succ, Nat.mul_div_cancel _ (by decide)]
          have hpos : 2 ^ k ≠ 0 := Nat.pos_iff_ne_zero.mp (Nat.two_pow_pos k)
          rw [hhalf, if_neg hpos, ih k (Nat.le_of_succ_le_succ h)]

/-- A power of two is two to its logarithm. -/
theorem two_pow_logBase2 {n : Nat} (hpos : 0 < n) (hpow : powerOfTwo n) (hlt : n < 2147483648) :
    2 ^ logBase2 n = n := by
  rcases (Nat.and_sub_one_eq_zero_iff_isPowerOfTwo (Nat.pos_iff_ne_zero.mp hpos)).mp hpow
    with ⟨k, rfl⟩
  have hk : k < 31 := (Nat.pow_lt_pow_iff_right (by decide : 1 < 2)).mp hlt
  rw [logBase2, halvings_two_pow 31 k (Nat.le_of_lt hk)]

/-! ### The parts of an address -/

/-- A shift to the right. An x86 processor takes the count modulo 32, where C
    says nothing of a count of 32 or more. -/
def shiftRight (a : Addr) (n : Nat) : Addr := a >>> (n % 32)

/-- A shift to the left, likewise. -/
def shiftLeft (a : Addr) (n : Nat) : Addr := a <<< (n % 32)

namespace Geometry

variable (g : Geometry)

/-- The number of buckets of a set; none for a low associativity. -/
def hsize : Nat := if g.assoc > 4 then g.assoc >>> 2 else 0

def blkMask : Addr := BitVec.ofNat 32 (g.bsize - 1)

def setShift : Nat := logBase2 g.bsize

def setMask : Addr := BitVec.ofNat 32 (g.nsets - 1)

def tagShift : Nat := g.setShift + logBase2 g.nsets

def tagsetMask : Addr := ~~~ g.blkMask

/-- `CACHE_TAG`. -/
def cacheTag (addr : Addr) : Addr := shiftRight addr g.tagShift

/-- `CACHE_BADDR`. -/
def cacheBaddr (addr : Addr) : Addr := addr &&& ~~~ g.blkMask

/-- `CACHE_TAGSET`. -/
def cacheTagset (addr : Addr) : Addr := addr &&& g.tagsetMask

/-- `CACHE_MK_BADDR`. -/
def cacheMkBaddr (tag set : Addr) : Addr := shiftLeft tag g.tagShift ||| shiftLeft set g.setShift

/-- One way of the cache is smaller than the memory. The source does not check
    this. -/
def Fits : Prop := g.bsize * g.nsets < 4294967296

instance : Decidable g.Fits := inferInstanceAs (Decidable (_ < _))

/-! ### Masks and shifts as arithmetic -/

theorem bsize_pos : 0 < g.bsize := by
  have hle := g.bsize_le
  omega

theorem two_pow_setShift : 2 ^ g.setShift = g.bsize :=
  two_pow_logBase2 g.bsize_pos g.bsize_pow g.bsize_lt

theorem two_pow_logNsets : 2 ^ logBase2 g.nsets = g.nsets :=
  two_pow_logBase2 g.nsets_pos g.nsets_pow g.nsets_lt

theorem two_pow_tagShift : 2 ^ g.tagShift = g.bsize * g.nsets := by
  rw [tagShift, pow_add, two_pow_setShift, two_pow_logNsets]

/-- The number of a block in memory. -/
def blockNumber (addr : Addr) : Nat := addr.toNat / g.bsize

/-- The block size is at most two to the power of 30, and so are the sets. -/
theorem setShift_lt : g.setShift < 31 := by
  have hlt := g.bsize_lt
  rw [← g.two_pow_setShift] at hlt
  exact (Nat.pow_lt_pow_iff_right (by decide : 1 < 2)).mp hlt

theorem logNsets_lt : logBase2 g.nsets < 31 := by
  have hlt := g.nsets_lt
  rw [← g.two_pow_logNsets] at hlt
  exact (Nat.pow_lt_pow_iff_right (by decide : 1 < 2)).mp hlt

/-- The shifts of a cache that fits are shifts that C defines. -/
theorem fits_iff : g.Fits ↔ g.tagShift < 32 := by
  rw [Fits, ← two_pow_tagShift]
  exact Nat.pow_lt_pow_iff_right (a := 2) (n := g.tagShift) (m := 32) (by decide)

theorem toNat_cacheTag (h : g.Fits) (addr : Addr) :
    (g.cacheTag addr).toNat = g.blockNumber addr / g.nsets := by
  rw [cacheTag, shiftRight, Nat.mod_eq_of_lt (g.fits_iff.mp h), BitVec.toNat_ushiftRight,
    Nat.shiftRight_eq_div_pow, two_pow_tagShift, blockNumber, Nat.div_div_eq_div_mul]

/-- A mask of the low bits is a remainder. -/
theorem toNat_and_mask (x : Addr) {n : Nat} (hpos : 0 < n) (hpow : powerOfTwo n)
    (hlt : n < 2147483648) : (x &&& BitVec.ofNat 32 (n - 1)).toNat = x.toNat % n := by
  rw [BitVec.toNat_and, BitVec.toNat_ofNat, Nat.mod_eq_of_lt (by omega)]
  rw [← two_pow_logBase2 hpos hpow hlt]
  exact Nat.and_two_pow_sub_one_eq_mod _ _

theorem toNat_set (addr : Addr) :
    ((addr >>> g.setShift) &&& g.setMask).toNat = g.blockNumber addr % g.nsets := by
  rw [setMask, toNat_and_mask _ g.nsets_pos g.nsets_pow g.nsets_lt, BitVec.toNat_ushiftRight,
    Nat.shiftRight_eq_div_pow, two_pow_setShift, blockNumber]

/-- `CACHE_SET`. The mask keeps it below the number of sets. -/
def cacheSet (addr : Addr) : Fin g.nsets :=
  ⟨((addr >>> g.setShift) &&& g.setMask).toNat, by
    rw [toNat_set]
    exact Nat.mod_lt _ g.nsets_pos⟩

theorem val_cacheSet (addr : Addr) : (g.cacheSet addr).val = g.blockNumber addr % g.nsets :=
  g.toNat_set addr

theorem toNat_cacheBaddr (addr : Addr) :
    (g.cacheBaddr addr).toNat = g.blockNumber addr * g.bsize := by
  -- The two masks split the address.
  have hsplit : g.cacheBaddr addr + (addr &&& g.blkMask) = addr := by
    rw [cacheBaddr, BitVec.add_comm, BitVec.add_eq_or_of_and_eq_zero]
    · ext i hi
      simp only [BitVec.getElem_or, BitVec.getElem_and, BitVec.getElem_not]
      cases addr[i] <;> cases g.blkMask[i] <;> rfl
    · ext i hi
      simp only [BitVec.getElem_and, BitVec.getElem_not, BitVec.getElem_zero]
      cases addr[i] <;> cases g.blkMask[i] <;> rfl
  have hle : (g.cacheBaddr addr).toNat ≤ addr.toNat := by
    rw [cacheBaddr, BitVec.toNat_and]
    exact Nat.and_le_left
  have hmod : (addr &&& g.blkMask).toNat = addr.toNat % g.bsize :=
    toNat_and_mask addr g.bsize_pos g.bsize_pow g.bsize_lt
  have hsum : (g.cacheBaddr addr).toNat = addr.toNat - addr.toNat % g.bsize := by
    have hnat := congrArg BitVec.toNat hsplit
    rw [BitVec.toNat_add, hmod] at hnat
    have hlt := addr.isLt
    have hmodle := Nat.mod_le addr.toNat g.bsize
    omega
  have hdiv := Nat.div_add_mod' addr.toNat g.bsize
  rw [hsum, blockNumber]
  omega

/-- The parts of an address give its block address back. -/
theorem cacheMkBaddr_tag_set (h : g.Fits) (addr : Addr) :
    g.cacheMkBaddr (g.cacheTag addr) (BitVec.ofNat 32 (g.cacheSet addr).val) =
      g.cacheBaddr addr := by
  -- The tag is the number of the block above the sets, and the set is what is left of it.
  have hset : (g.cacheSet addr).val < g.nsets := (g.cacheSet addr).isLt
  have hlt := addr.isLt
  have hle : g.blockNumber addr * g.bsize ≤ addr.toNat := Nat.div_mul_le_self _ _
  -- The block address is the sum of the two parts.
  have hparts : g.blockNumber addr / g.nsets * (g.bsize * g.nsets)
      + g.blockNumber addr % g.nsets * g.bsize = g.blockNumber addr * g.bsize := by
    conv_rhs => rw [← Nat.div_add_mod' (g.blockNumber addr) g.nsets]
    ring
  apply BitVec.eq_of_toNat_eq
  have hofNat : (BitVec.ofNat 32 (g.cacheSet addr).val).toNat = g.blockNumber addr % g.nsets := by
    have := g.nsets_lt
    rw [BitVec.toNat_ofNat, Nat.mod_eq_of_lt (by omega), val_cacheSet]
  have hhigh : (shiftLeft (g.cacheTag addr) g.tagShift).toNat
      = g.blockNumber addr / g.nsets * (g.bsize * g.nsets) := by
    rw [shiftLeft, Nat.mod_eq_of_lt (g.fits_iff.mp h), BitVec.toNat_shiftLeft, g.toNat_cacheTag h,
      Nat.shiftLeft_eq, two_pow_tagShift]
    exact Nat.mod_eq_of_lt (by omega)
  have hlow : (shiftLeft (BitVec.ofNat 32 (g.cacheSet addr).val) g.setShift).toNat
      = g.blockNumber addr % g.nsets * g.bsize := by
    have hshift := g.setShift_lt
    rw [shiftLeft, Nat.mod_eq_of_lt (by omega), BitVec.toNat_shiftLeft, hofNat, Nat.shiftLeft_eq,
      two_pow_setShift]
    exact Nat.mod_eq_of_lt (by omega)
  -- The set stays below the tag.
  have hbound : g.blockNumber addr % g.nsets * g.bsize < 2 ^ g.tagShift := by
    rw [two_pow_tagShift, Nat.mul_comm g.bsize]
    exact Nat.mul_lt_mul_of_pos_right (Nat.mod_lt _ g.nsets_pos) g.bsize_pos
  -- The two parts have no bit in common.
  rw [cacheMkBaddr, BitVec.toNat_or, hhigh, hlow, toNat_cacheBaddr, ← two_pow_tagShift,
    ← Nat.shiftLeft_eq, ← Nat.shiftLeft_add_eq_or_of_lt hbound, Nat.shiftLeft_eq, two_pow_tagShift,
    hparts]

theorem cacheBaddr_eq_iff_blockNumber (a b : Addr) :
    g.cacheBaddr a = g.cacheBaddr b ↔ g.blockNumber a = g.blockNumber b := by
  rw [← BitVec.toNat_inj, toNat_cacheBaddr, toNat_cacheBaddr]
  exact ⟨fun h => Nat.eq_of_mul_eq_mul_right g.bsize_pos h, fun h => by rw [h]⟩

/-- Addresses of one block are in one set. -/
theorem cacheSet_congr {a b : Addr} (h : g.cacheBaddr a = g.cacheBaddr b) :
    g.cacheSet a = g.cacheSet b := by
  rw [Fin.ext_iff, val_cacheSet, val_cacheSet, (g.cacheBaddr_eq_iff_blockNumber a b).mp h]

/-- A block is its tag and its set. -/
theorem cacheBaddr_eq_iff (hfits : g.Fits) (a b : Addr) : g.cacheBaddr a = g.cacheBaddr b ↔
    g.cacheTag a = g.cacheTag b ∧ g.cacheSet a = g.cacheSet b := by
  rw [cacheBaddr_eq_iff_blockNumber, ← BitVec.toNat_inj, g.toNat_cacheTag hfits,
    g.toNat_cacheTag hfits, Fin.ext_iff, val_cacheSet, val_cacheSet]
  constructor
  · intro h
    rw [h]
    exact ⟨rfl, rfl⟩
  · intro h
    rw [← Nat.div_add_mod' (g.blockNumber a) g.nsets, ← Nat.div_add_mod' (g.blockNumber b) g.nsets,
      h.1, h.2]

theorem blockNumber_baddr (addr : Addr) :
    g.blockNumber (g.cacheBaddr addr) = g.blockNumber addr := by
  rw [blockNumber, toNat_cacheBaddr, Nat.mul_div_cancel _ g.bsize_pos]

/-- The block address is in its own block. -/
theorem cacheBaddr_baddr (addr : Addr) : g.cacheBaddr (g.cacheBaddr addr) = g.cacheBaddr addr :=
  (g.cacheBaddr_eq_iff_blockNumber _ _).mpr (g.blockNumber_baddr addr)

/-! ### Caches that do not fit -/

theorem bsize_le_quarter : g.bsize ≤ 1073741824 := by
  have hshift := g.setShift_lt
  rw [← g.two_pow_setShift]
  exact Nat.pow_le_pow_right (by decide) (show g.setShift ≤ 30 by omega)

/-- In a cache that does not fit, the tag has bits of the offset. -/
theorem tagShift_mod_le (h : ¬ g.Fits) : g.tagShift % 32 ≤ g.setShift := by
  rw [fits_iff, not_lt] at h
  have hsets := g.logNsets_lt
  have hblocks := g.setShift_lt
  rw [tagShift] at h ⊢
  omega

/-- Every block has its own set in such a cache. -/
theorem blockNumber_lt (h : ¬ g.Fits) (addr : Addr) : g.blockNumber addr < g.nsets := by
  have hlt := addr.isLt
  rw [Fits, not_lt] at h
  rw [blockNumber, Nat.div_lt_iff_lt_mul g.bsize_pos, Nat.mul_comm]
  omega

theorem cacheSet_eq_iff (h : ¬ g.Fits) (a b : Addr) :
    g.cacheSet a = g.cacheSet b ↔ g.blockNumber a = g.blockNumber b := by
  rw [Fin.ext_iff, val_cacheSet, val_cacheSet, Nat.mod_eq_of_lt (g.blockNumber_lt h a),
    Nat.mod_eq_of_lt (g.blockNumber_lt h b)]

theorem ofNat_cacheSet (h : ¬ g.Fits) (addr : Addr) :
    BitVec.ofNat 32 (g.cacheSet addr).val = addr >>> g.setShift := by
  apply BitVec.eq_of_toNat_eq
  have hlt := addr.isLt
  have hdiv : g.blockNumber addr ≤ addr.toNat := Nat.div_le_self _ _
  rw [val_cacheSet, Nat.mod_eq_of_lt (g.blockNumber_lt h addr), BitVec.toNat_ofNat,
    Nat.mod_eq_of_lt (by omega), BitVec.toNat_ushiftRight, Nat.shiftRight_eq_div_pow,
    two_pow_setShift, blockNumber]

/-! ### Buckets -/

/-- `CACHE_HASH`. The mask keeps it below the number of buckets. -/
def cacheHash (h : 0 < g.hsize) (key : Addr) : Fin g.hsize :=
  ⟨(((key >>> 24) ^^^ (key >>> 16) ^^^ (key >>> 8) ^^^ key)
      &&& BitVec.ofNat 32 (g.hsize - 1)).toNat, by
    rw [BitVec.toNat_and]
    refine (Nat.and_le_right.trans ?_).trans_lt (Nat.sub_lt h Nat.one_pos)
    rw [BitVec.toNat_ofNat]
    exact Nat.mod_le _ _⟩

end Geometry

end Cache

end MicroArch
