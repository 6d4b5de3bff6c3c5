import Mathlib.Data.Nat.Bitwise
import Mathlib.Tactic.IntervalCases
import MicroArch.Pisa.Simulator

/-!
# Unaligned Words

What the loads and stores of parts of a word are for.

A word at any address is loaded by two instructions. `LWR` at its first byte
takes the bytes up to the end of the aligned word they are in, and `LWL` at
its last byte takes the others from the next one. The masks keep the part of
the register that the other instruction is responsible for. The stores are
alike, with the register and the memory exchanged.

The masks and the shifts depend on the last two bits of the address, so there
are four cases for each instruction. In numbers they are one: `merge` takes the
low bits of one word and the high bits of another, and where they meet is eight
times the position of the byte. The two aligned words are then read as bytes,
and the word at the address is made of the last bytes of the one and the first
bytes of the other.

## Main definitions

* `merge`: The low bits of one word and the high bits of another.
* `word`, `stored`: A word in memory, at any address.

## Theorems

* `lwl_toNat`, `lwr_toNat`, `swl_toNat`, `swr_toNat`: The masks and shifts in
  numbers.
* `READ_WORD_contents`, `WRITE_WORD_contents`: An aligned access.
* `load_unaligned`: `LWR` and `LWL` load a word from any address.
* `store_unaligned`: `SWR` and `SWL` store one, and nothing else.
-/

namespace MicroArch

namespace Pisa

open Memory (Addr Byte Mem Contents Within)

variable {ω : Type}

/-! ### Masks -/

/-- The low bits of one word and the high bits of another. -/
def merge (n : Nat) (hi lo : Word) : Word :=
  (hi &&& ~~~ BitVec.ofNat 32 (2 ^ n - 1)) ||| (lo &&& BitVec.ofNat 32 (2 ^ n - 1))

theorem merge_toNat {n : Nat} (hn : n ≤ 32) (hi lo : Word) :
    (merge n hi lo).toNat = hi.toNat / 2 ^ n * 2 ^ n + lo.toNat % 2 ^ n := by
  refine Nat.eq_of_testBit_eq fun j => ?_
  have hlow : lo.toNat % 2 ^ n < 2 ^ n := Nat.mod_lt _ (Nat.two_pow_pos n)
  rw [Nat.mul_comm, Nat.testBit_two_pow_mul_add _ hlow, ← BitVec.getLsbD, merge]
  simp only [BitVec.getLsbD_or, BitVec.getLsbD_and, BitVec.getLsbD_not, BitVec.getLsbD_ofNat,
    Nat.testBit_two_pow_sub_one, Nat.testBit_mod_two_pow, Nat.testBit_div_two_pow]
  -- A bit below the cut comes from the low word, and one above it from the high word.
  by_cases hj : j < n
  · have hj32 : j < 32 := by omega
    simp [hj, hj32, BitVec.getLsbD]
  · have hsum : j - n + n = j := by omega
    by_cases hj32 : j < 32
    · simp [hj, hj32, hsum, BitVec.getLsbD]
    · have hbig := hi.getLsbD_of_ge j (by omega)
      simp only [BitVec.getLsbD] at hbig
      simp [hj, hj32, hsum, hbig, BitVec.getLsbD]

theorem low_toNat (a : Word) : (a &&& 3).toNat = a.toNat % 4 := by
  rw [BitVec.toNat_and]
  exact Nat.and_two_pow_sub_one_eq_mod a.toNat 2

theorem base_toNat (a : Word) : (WL_BASE a).toNat = a.toNat - a.toNat % 4 := by
  have hmerge : WL_BASE a = merge 2 a 0 := by
    simp [WL_BASE, merge]
  rw [hmerge, merge_toNat (by decide)]
  change a.toNat / 2 ^ 2 * 2 ^ 2 + 0 % 2 ^ 2 = _
  omega

theorem sshiftRight_mod (x : Word) {n : Nat} (hn : n ≤ 32) :
    (x.sshiftRight n).toNat % 2 ^ (32 - n) = x.toNat / 2 ^ n := by
  refine Nat.eq_of_testBit_eq fun j => ?_
  rw [Nat.testBit_mod_two_pow, Nat.testBit_div_two_pow, ← BitVec.getLsbD, ← BitVec.getLsbD,
    BitVec.getLsbD_sshiftRight]
  -- Within the shifted width a bit is one of the word. The sign is shifted in beyond it and
  -- the remainder cuts it off.
  by_cases hj : j < 32 - n
  · have hsum : n + j < 32 := by omega
    simp [hj, hsum, Nat.add_comm, show j < 32 by omega]
  · have hbig := x.getLsbD_of_ge (j + n) (by omega)
    simp [hj, hbig]

section Parts

variable (a rt temp : Word)

/-- The bytes of a register and of a word at an address that is `k` above an
    aligned one. -/
theorem lwl_toNat {k : Nat} (hk : a.toNat % 4 = k) :
    (lwl a rt temp).toNat =
      temp.toNat % 2 ^ (8 * (k + 1)) * 2 ^ (8 * (3 - k)) + rt.toNat % 2 ^ (8 * (3 - k)) := by
  have hlt : k < 4 := by omega
  have hmerge : lwl a rt temp = merge (8 * (3 - k)) (temp <<< (8 * (3 - k))) rt := by
    rw [lwl, WR_PROT_MASK1, WR_SIZE, WL_SIZE, low_toNat, hk, merge, BitVec.or_comm]
    -- The four offsets pick four masks from the table, each of which is that of a merge.
    interval_cases k <;> rfl
  have ht := temp.isLt
  rw [hmerge, merge_toNat (by omega), BitVec.toNat_shiftLeft, Nat.shiftLeft_eq]
  interval_cases k <;> omega

theorem lwr_toNat {k : Nat} (hk : a.toNat % 4 = k) :
    (lwr a rt temp).toNat =
      rt.toNat / 2 ^ (8 * (4 - k)) * 2 ^ (8 * (4 - k)) + temp.toNat / 2 ^ (8 * k) := by
  have hlt : k < 4 := by omega
  have hmerge : lwr a rt temp = merge (8 * (4 - k)) rt (temp >>> (8 * k)) := by
    rw [lwr, WL_PROT_MASK2, WR_SIZE, WL_SIZE, low_toNat, hk, merge]
    interval_cases k <;> rfl
  have ht := temp.isLt
  rw [hmerge, merge_toNat (by omega), BitVec.toNat_ushiftRight, Nat.shiftRight_eq_div_pow]
  interval_cases k <;> omega

theorem swl_toNat {k : Nat} (hk : a.toNat % 4 = k) :
    (swl a rt temp).toNat =
      temp.toNat / 2 ^ (8 * (k + 1)) * 2 ^ (8 * (k + 1)) + rt.toNat / 2 ^ (8 * (3 - k)) := by
  have hlt : k < 4 := by omega
  have hmerge : swl a rt temp = merge (8 * (k + 1)) temp (rt.sshiftRight (8 * (3 - k))) := by
    rw [swl, WR_PROT_MASK2, WR_SIZE, low_toNat, hk, merge, BitVec.or_comm]
    interval_cases k <;> rfl
  rw [hmerge, merge_toNat (by omega), ← sshiftRight_mod rt (by omega)]
  interval_cases k <;> rfl

theorem swr_toNat {k : Nat} (hk : a.toNat % 4 = k) :
    (swr a rt temp).toNat =
      rt.toNat % 2 ^ (8 * (4 - k)) * 2 ^ (8 * k) + temp.toNat % 2 ^ (8 * k) := by
  have hlt : k < 4 := by omega
  have hmerge : swr a rt temp = merge (8 * k) (rt <<< (8 * k)) temp := by
    rw [swr, WL_PROT_MASK1, WL_SIZE, low_toNat, hk, merge]
    interval_cases k <;> rfl
  have hr := rt.isLt
  rw [hmerge, merge_toNat (by omega), BitVec.toNat_shiftLeft, Nat.shiftLeft_eq]
  interval_cases k <;> omega

end Parts

/-! ### Words in memory -/

/-- The word at an address. -/
def word (g : Addr → Byte) (a : Word) : Word :=
  BitVec.ofNat 32 (leNat ((List.range 4).map fun i => g (a + BitVec.ofNat 32 i)))

/-- The bytes after a word was put at an address. -/
def stored (g : Addr → Byte) (a v : Word) : Addr → Byte :=
  fun x => (leBytes 4 v.toNat).getD (x - a).toNat (g x)

/-- The bytes of a word that starts at the `n`-th one after an address. -/
theorem word_toNat (g : Addr → Byte) (b : Word) (n : Nat) :
    (word g (b + BitVec.ofNat 32 n)).toNat =
      (g (b + BitVec.ofNat 32 n)).toNat + 256 * (g (b + BitVec.ofNat 32 (n + 1))).toNat
        + 65536 * (g (b + BitVec.ofNat 32 (n + 2))).toNat
        + 16777216 * (g (b + BitVec.ofNat 32 (n + 3))).toNat := by
  have h0 := (g (b + BitVec.ofNat 32 n)).isLt
  have h1 := (g (b + BitVec.ofNat 32 (n + 1))).isLt
  have h2 := (g (b + BitVec.ofNat 32 (n + 2))).isLt
  have h3 := (g (b + BitVec.ofNat 32 (n + 3))).isLt
  have hshift : ∀ i, b + BitVec.ofNat 32 n + BitVec.ofNat 32 i = b + BitVec.ofNat 32 (n + i) :=
    fun i => by rw [BitVec.add_assoc, ← BitVec.ofNat_add]
  rw [word, BitVec.toNat_ofNat]
  simp only [hshift, List.range_succ, List.range_zero, List.nil_append, List.cons_append,
    List.map_cons, List.map_nil, leNat, Nat.add_zero]
  omega

section Accesses

variable {s : State ω} {g : Addr → Byte} {a : Word}

theorem within_aligned (ha : a.toNat % 4 = 0) : Within a 4 := by
  simp only [Within, Memory.memOffset_toNat]
  omega

theorem READ_WORD_contents (h : Contents s.mem g) (ha : a.toNat % 4 = 0) :
    ∃ m, READ_WORD a s = .ok (word g a, s.setMem m) ∧ Contents m g := by
  -- An aligned word is on one page, so the flat memory says what is read.
  rcases h with ⟨f, r, rfl⟩
  rcases Memory.represents_memRead r (within_aligned ha) with ⟨⟨bytes, m⟩, hread, hbytes, hm⟩
  refine ⟨m, ?_, _, hm, ?_⟩
  · have hmem : readMem 4 a s = .ok (bytes, s.setMem m) := by simp only [readMem, hread]
    refine (bind_of_ok hmem).trans ?_
    rw [show bytes = _ from hbytes]
    rfl
  · simp only [Memory.Flat.read, Memory.Flat.visit]
    split <;> rfl

theorem WRITE_WORD_contents (h : Contents s.mem g) (ha : a.toNat % 4 = 0) (v : Word) :
    ∃ m, WRITE_WORD v a s = .ok ((), s.setMem m) ∧ Contents m (stored g a v) := by
  rcases h with ⟨f, r, rfl⟩
  have hw : Within a (leBytes 4 v.toNat).length := by
    rw [length_leBytes]
    exact within_aligned ha
  rcases Memory.represents_memWrite r hw with ⟨m, hwrite, hm⟩
  refine ⟨m, ?_, _, hm, rfl⟩
  simp only [WRITE_WORD, writeMem, hwrite]

theorem GPR_eq {n : Nat} (hn : n < 32) : GPR n s = .ok (s.regs.R ⟨n, hn⟩, s) := by
  rw [GPR, dif_pos hn]

theorem disp_eq {i : Inst} (hs : i.RS < 32) :
    disp i s = .ok (s.regs.R ⟨i.RS, hs⟩ + i.OFS, s) :=
  (bind_of_ok (GPR_eq hs)).trans rfl

/-- A load of a part of a word. -/
theorem partLoad_contents (h : Contents s.mem g) {i : Inst} (hs : i.RS < 32) (ht : i.RT < 32)
    (part : Word → Word → Word → Word) :
    ∃ m, (do
        let a ← disp i
        let temp ← READ_WORD (WL_BASE a)
        SET_GPR i.RT (part a (← GPR i.RT) temp) : Exec ω Unit) s
      = .ok ((), (s.setMem m).setRegs (s.regs.setR ⟨i.RT, ht⟩
          (part (s.regs.R ⟨i.RS, hs⟩ + i.OFS) (s.regs.R ⟨i.RT, ht⟩)
            (word g (WL_BASE (s.regs.R ⟨i.RS, hs⟩ + i.OFS)))))) ∧
      Contents m g := by
  have ha : (WL_BASE (s.regs.R ⟨i.RS, hs⟩ + i.OFS)).toNat % 4 = 0 := by
    rw [base_toNat]
    omega
  rcases READ_WORD_contents h ha with ⟨m, hread, hm⟩
  refine ⟨m, ?_, hm⟩
  refine (bind_of_ok (disp_eq hs)).trans ((bind_of_ok hread).trans ?_)
  refine (bind_of_ok (GPR_eq ht)).trans ?_
  simp only [SET_GPR, dif_pos ht]
  rfl

/-- A store of a part of a word. -/
theorem partStore_contents (h : Contents s.mem g) {i : Inst} (hs : i.RS < 32) (ht : i.RT < 32)
    (part : Word → Word → Word → Word) :
    ∃ m, (do
        let a ← disp i
        let temp ← READ_WORD (WL_BASE a)
        WRITE_WORD (part a (← GPR i.RT) temp) (WL_BASE a) : Exec ω Unit) s
      = .ok ((), s.setMem m) ∧
      Contents m (stored g (WL_BASE (s.regs.R ⟨i.RS, hs⟩ + i.OFS))
        (part (s.regs.R ⟨i.RS, hs⟩ + i.OFS) (s.regs.R ⟨i.RT, ht⟩)
          (word g (WL_BASE (s.regs.R ⟨i.RS, hs⟩ + i.OFS))))) := by
  have ha : (WL_BASE (s.regs.R ⟨i.RS, hs⟩ + i.OFS)).toNat % 4 = 0 := by
    rw [base_toNat]
    omega
  rcases READ_WORD_contents h ha with ⟨m, hread, hm⟩
  rcases WRITE_WORD_contents (s := s.setMem m) hm ha
    (part (s.regs.R ⟨i.RS, hs⟩ + i.OFS) (s.regs.R ⟨i.RT, ht⟩)
      (word g (WL_BASE (s.regs.R ⟨i.RS, hs⟩ + i.OFS)))) with ⟨m', hwrite, hm'⟩
  refine ⟨m', ?_, hm'⟩
  refine (bind_of_ok (disp_eq hs)).trans ((bind_of_ok hread).trans ?_)
  exact (bind_of_ok (GPR_eq ht)).trans hwrite

end Accesses

/-! ### Two instructions -/

section Pairs

variable (g : Addr → Byte) (a rt : Word)

theorem address_eq : a = WL_BASE a + BitVec.ofNat 32 (a.toNat % 4) := by
  have ha := a.isLt
  rw [← BitVec.toNat_inj, BitVec.toNat_add, base_toNat, BitVec.toNat_ofNat]
  omega

/-- The aligned word of the last byte. -/
theorem last_base :
    WL_BASE (a + 3) = WL_BASE a + BitVec.ofNat 32 (if a.toNat % 4 = 0 then 0 else 4) := by
  have ha := a.isLt
  have h3 : (3 : Word).toNat = 3 := rfl
  rw [← BitVec.toNat_inj, BitVec.toNat_add, base_toNat, base_toNat, BitVec.toNat_add, h3,
    BitVec.toNat_ofNat]
  split <;> omega

theorem last_mod {k : Nat} (hk : a.toNat % 4 = k) : (a + 3).toNat % 4 = (k + 3) % 4 := by
  have h3 : (3 : Word).toNat = 3 := rfl
  rw [BitVec.toNat_add, h3]
  omega

theorem lwl_lwr :
    lwl (a + 3) (lwr a rt (word g (WL_BASE a))) (word g (WL_BASE (a + 3))) = word g a := by
  have hbyte : ∀ n, (g (WL_BASE a + BitVec.ofNat 32 n)).toNat < 256 := fun n => (g _).isLt
  have hbase : WL_BASE a = WL_BASE a + BitVec.ofNat 32 0 := by simp
  have hword := word_toNat g (WL_BASE a) 0
  rw [← hbase] at hword
  rw [← BitVec.toNat_inj, lwl_toNat _ _ _ (last_mod a rfl), lwr_toNat _ _ _ rfl, last_base,
    word_toNat, hword]
  -- Right of the equation is the word at the address itself, byte by byte from its base.
  conv_rhs => rw [address_eq a, word_toNat]
  have hk : a.toNat % 4 < 4 := Nat.mod_lt _ (by decide)
  generalize a.toNat % 4 = k at hk
  have h0 := hbyte 0
  have h1 := hbyte 1
  have h2 := hbyte 2
  have h3 := hbyte 3
  have h4 := hbyte 4
  have h5 := hbyte 5
  have h6 := hbyte 6
  -- At offset zero both instructions see the same aligned word, otherwise two in a row.
  interval_cases k <;>
    simp only [reduceIte, OfNat.ofNat_ne_zero, one_ne_zero, Nat.reduceAdd, Nat.reduceMod,
      Nat.reduceSub, Nat.reduceMul, Nat.reducePow] <;>
    omega

/-- A byte near a word that was stored. -/
theorem stored_at (b v : Word) {m n : Nat} (hm : m ≤ 4) (hn : n < 8) :
    stored g (b + BitVec.ofNat 32 m) v (b + BitVec.ofNat 32 n)
      = if m ≤ n ∧ n < m + 4 then BitVec.ofNat 8 (v.toNat / 256 ^ (n - m))
        else g (b + BitVec.ofNat 32 n) := by
  have hb := b.isLt
  have hdist : (b + BitVec.ofNat 32 n - (b + BitVec.ofNat 32 m)).toNat
      = if m ≤ n then n - m else 2 ^ 32 + n - m := by
    rw [BitVec.toNat_sub, BitVec.toNat_add, BitVec.toNat_add, BitVec.toNat_ofNat,
      BitVec.toNat_ofNat]
    split <;> omega
  -- The distance wraps when the byte is before the word, which is past the four bytes of it.
  rw [stored, getD_leBytes, hdist]
  by_cases hmn : m ≤ n
  · rw [if_pos hmn]
    exact if_congr (by omega) rfl rfl
  · rw [if_neg hmn, if_neg (by omega), if_neg (by omega)]

/-- A byte away from it. -/
theorem stored_away (b v : Word) {m : Nat} (hm : m ≤ 4) {x : Addr} (hx : 8 ≤ (x - b).toNat) :
    stored g (b + BitVec.ofNat 32 m) v x = g x := by
  have hb := b.isLt
  have hxlt := x.isLt
  rw [BitVec.toNat_sub] at hx
  rw [stored, getD_leBytes, if_neg]
  rw [BitVec.toNat_sub, BitVec.toNat_add, BitVec.toNat_ofNat]
  omega

/-- Two words whose bytes come from another one at the right places. The first
    starts at an aligned address, and the second where the last byte is. -/
theorem stored_parts (b v₀ v₁ : Word) {k : Nat} (hk : k < 4)
    (h₀ : v₀.toNat = rt.toNat % 2 ^ (8 * (4 - k)) * 2 ^ (8 * k)
      + (word g (b + BitVec.ofNat 32 0)).toNat % 2 ^ (8 * k))
    (h₁ : v₁.toNat = (word (stored g (b + BitVec.ofNat 32 0) v₀)
          (b + BitVec.ofNat 32 (if k = 0 then 0 else 4))).toNat
        / 2 ^ (8 * ((k + 3) % 4 + 1)) * 2 ^ (8 * ((k + 3) % 4 + 1))
      + rt.toNat / 2 ^ (8 * (3 - (k + 3) % 4))) :
    stored (stored g (b + BitVec.ofNat 32 0) v₀) (b + BitVec.ofNat 32 (if k = 0 then 0 else 4)) v₁
      = stored g (b + BitVec.ofNat 32 k) rt := by
  have hm : (if k = 0 then 0 else 4) ≤ 4 := by split <;> omega
  have hbyte : ∀ n, (g (b + BitVec.ofNat 32 n)).toNat < 256 := fun n => (g _).isLt
  have hrt := rt.isLt
  funext x
  -- Both parts and the word itself are within the eight bytes from the base on.
  by_cases hx : 8 ≤ (x - b).toNat
  · rw [stored_away _ b v₁ hm hx, stored_away g b v₀ (by decide) hx,
      stored_away g b rt (by omega) hx]
  · obtain ⟨d, hd, rfl⟩ : ∃ d < 8, x = b + BitVec.ofNat 32 d :=
      ⟨(x - b).toNat, by omega, by
        rw [BitVec.ofNat_toNat, BitVec.setWidth_eq, BitVec.add_comm, BitVec.sub_add_cancel]⟩
    have hfar : ∀ n < 8, 4 ≤ n → stored g (b + BitVec.ofNat 32 0) v₀ (b + BitVec.ofNat 32 n)
        = g (b + BitVec.ofNat 32 n) := fun n hn hge => by
      rw [stored_at g b v₀ (by decide) hn, if_neg (by omega)]
    rw [stored_at _ b v₁ hm hd, stored_at g b rt (by omega) hd, stored_at g b v₀ (by decide) hd]
    -- What the second store merges with is what the first one has left in memory.
    rw [word_toNat] at h₀ h₁
    have h4 := hfar 4 (by decide) (by decide)
    have h5 := hfar 5 (by decide) (by decide)
    have h6 := hfar 6 (by decide) (by decide)
    have h7 := hfar 7 (by decide) (by decide)
    have hb0 := hbyte 0
    have hb1 := hbyte 1
    have hb2 := hbyte 2
    have hb3 := hbyte 3
    have hb4 := hbyte 4
    have hb5 := hbyte 5
    have hb6 := hbyte 6
    have hb7 := hbyte 7
    rw [← BitVec.toNat_inj]
    -- One case for every offset of the address and every byte of the two words.
    interval_cases k <;>
      simp only [reduceIte, OfNat.ofNat_ne_zero, one_ne_zero, Nat.reduceAdd, Nat.reduceMod,
        Nat.reduceSub, Nat.reduceMul, Nat.reducePow, h4, h5, h6, h7] at h₀ h₁ ⊢ <;>
      interval_cases d <;>
      simp only [Nat.reduceLeDiff, Nat.reduceLT, Nat.reduceSub, Nat.reducePow, and_self, and_true,
        and_false, reduceIte, BitVec.toNat_ofNat] <;>
      omega

/-- Two stores of parts of a word are a store of the word. -/
theorem stored_swr_swl :
    let g' := stored g (WL_BASE a) (swr a rt (word g (WL_BASE a)))
    stored g' (WL_BASE (a + 3)) (swl (a + 3) rt (word g' (WL_BASE (a + 3)))) = stored g a rt := by
  intro g'
  have hbase : WL_BASE a = WL_BASE a + BitVec.ofNat 32 0 := by simp
  have hswr := swr_toNat a rt (word g (WL_BASE a)) rfl
  have hswl := swl_toNat (a + 3) rt (word g' (WL_BASE (a + 3))) (last_mod a rfl)
  have hparts := stored_parts g rt (WL_BASE a) (swr a rt (word g (WL_BASE a)))
    (swl (a + 3) rt (word g' (WL_BASE (a + 3)))) (Nat.mod_lt a.toNat (by decide : 0 < 4))
  rw [← hbase, ← last_base, ← address_eq] at hparts
  exact hparts hswr hswl

end Pairs

section Instructions

variable {s : State ω} {g : Addr → Byte} {i j : Inst} (hs : i.RS < 32) (ht : i.RT < 32)

/-- `SWR` and `SWL` store the word at any address, and change nothing else. -/
theorem store_unaligned (h : Contents s.mem g) (hjs : j.RS = i.RS) (hjt : j.RT = i.RT)
    (hofs : j.OFS = i.OFS + 3) :
    ∃ m, (do SWR_IMPL i; SWL_IMPL j : Exec ω Unit) s = .ok ((), s.setMem m) ∧
      Contents m (stored g (s.regs.R ⟨i.RS, hs⟩ + i.OFS) (s.regs.R ⟨i.RT, ht⟩)) := by
  rcases partStore_contents h hs ht swr with ⟨m₁, hswr, hm₁⟩
  rcases partStore_contents (s := s.setMem m₁) (i := j) hm₁ (hjs ▸ hs) (hjt ▸ ht) swl
    with ⟨m₂, hswl, hm₂⟩
  refine ⟨m₂, (bind_of_ok hswr).trans hswl, ?_⟩
  -- The second instruction has the registers of the first and the address three above.
  have hbase : (⟨j.RS, hjs ▸ hs⟩ : Fin 32) = ⟨i.RS, hs⟩ := Fin.ext hjs
  have hreg : (⟨j.RT, hjt ▸ ht⟩ : Fin 32) = ⟨i.RT, ht⟩ := Fin.ext hjt
  simpa only [hbase, hreg, hofs, State.setMem, ← BitVec.add_assoc, stored_swr_swl] using hm₂

/-- A machine with an odd address in a register, and a word in another. -/
def oddAddress : State Unit :=
  (blank ()).setRegs { (blank ()).regs with
    R := fun n => if n.val = 1 then 0x1001 else if n.val = 2 then 0x44332211 else 0 }

theorem store_unaligned_odd :
    ∃ m, (do SWR_IMPL ⟨0, 0x01020000⟩; SWL_IMPL ⟨0, 0x01020003⟩ : Exec Unit Unit) oddAddress
        = .ok ((), oddAddress.setMem m) ∧
      Contents m (stored (fun _ => 0) 0x1001 0x44332211) := by
  have haddr : oddAddress.regs.R 1 + (⟨0, 0x01020000⟩ : Inst).OFS = 0x1001 := by decide
  have hword : oddAddress.regs.R 2 = 0x44332211 := by decide
  rcases store_unaligned (s := oddAddress) (i := ⟨0, 0x01020000⟩) (j := ⟨0, 0x01020003⟩)
    (by decide) (by decide) Memory.contents_memCreate rfl rfl (by decide) with ⟨m, hrun, hm⟩
  exact ⟨m, hrun, by rw [← haddr, ← hword]; exact hm⟩

/-- `LWR` at the first byte and `LWL` at the last one load the word from any
    address, unless they load it into their base register. -/
theorem load_unaligned (h : Contents s.mem g) (hne : i.RS ≠ i.RT) (hjs : j.RS = i.RS)
    (hjt : j.RT = i.RT) (hofs : j.OFS = i.OFS + 3) :
    ∃ m, (do LWR_IMPL i; LWL_IMPL j : Exec ω Unit) s
        = .ok ((), (s.setMem m).setRegs
            (s.regs.setR ⟨i.RT, ht⟩ (word g (s.regs.R ⟨i.RS, hs⟩ + i.OFS)))) ∧
      Contents m g := by
  rcases partLoad_contents h hs ht lwr with ⟨m₁, hlwr, hm₁⟩
  rcases partLoad_contents (s := (s.setMem m₁).setRegs (s.regs.setR ⟨i.RT, ht⟩ _)) (i := j) hm₁
    (hjs ▸ hs) (hjt ▸ ht) lwl with ⟨m₂, hlwl, hm₂⟩
  refine ⟨m₂, (bind_of_ok hlwr).trans (hlwl.trans ?_), hm₂⟩
  have hbase : (⟨j.RS, hjs ▸ hs⟩ : Fin 32) = ⟨i.RS, hs⟩ := Fin.ext hjs
  have hreg : (⟨j.RT, hjt ▸ ht⟩ : Fin 32) = ⟨i.RT, ht⟩ := Fin.ext hjt
  have hdiff : (⟨i.RS, hs⟩ : Fin 32) ≠ ⟨i.RT, ht⟩ := fun heq =>
    hne (congrArg (fun n : Fin 32 => n.val) heq)
  -- The base register is another one, so the second instruction computes the same address.
  simp only [hbase, hreg, hofs, State.setRegs, State.setMem, Regs.setR, Function.update_self,
    Function.update_of_ne hdiff, Function.update_idem, ← BitVec.add_assoc, lwl_lwr]

/-- From the second byte of a word that was written. -/
theorem load_unaligned_odd :
    ∃ m m', WRITE_WORD 0x44332211 0x1000 oddAddress = .ok ((), oddAddress.setMem m) ∧
      (do LWR_IMPL ⟨0, 0x01030000⟩; LWL_IMPL ⟨0, 0x01030003⟩ : Exec Unit Unit)
          (oddAddress.setMem m)
        = .ok ((), ((oddAddress.setMem m).setMem m').setRegs
            (oddAddress.regs.setR 3 0x00443322)) := by
  have hzero : Contents oddAddress.mem fun _ => 0 := Memory.contents_memCreate
  rcases WRITE_WORD_contents (a := 0x1000) hzero (by decide) 0x44332211 with ⟨m, hwrite, hm⟩
  have hload := load_unaligned (s := oddAddress.setMem m) (i := ⟨0, 0x01030000⟩)
    (j := ⟨0, 0x01030003⟩) (by decide) (by decide) hm (by decide) rfl rfl (by decide)
  rcases hload with ⟨m', hrun, -⟩
  have hword : word (stored (fun _ => 0) 0x1000 0x44332211) 0x1001 = 0x00443322 := by decide
  exact ⟨m, m', hwrite, hrun.trans (by rw [← hword]; rfl)⟩

end Instructions

end Pisa

end MicroArch
