import Mathlib.Tactic.Ring

/-!
# Little Endian Numbers

Numbers and the bytes they consist of, the lowest byte first.

The value is a number and not a word, so that nothing here shifts or masks:
the lowest byte is a remainder and the others are a quotient. A word comes in
at the two round trips at the end. A program that reads and writes bytes is
modelled with these two functions, so that its round trips are theirs.

## Main definitions

* `leNat`: The value of bytes.
* `leBytes`: The bytes of a value.

## Theorems

* `leNat_leBytes`, `leBytes_leNat`: The round trips.
* `ofNat_leNat_leBytes`, `leBytes_ofNat_leNat`: The round trips of a word.
* `getD_leBytes`: One byte of a value.
-/

namespace MicroArch

/-- The value of bytes, the lowest one first. -/
def leNat : List (BitVec 8) → Nat
  | [] => 0
  | b :: l => b.toNat + 256 * leNat l

/-- The bytes of a value, the lowest one first. -/
def leBytes : Nat → Nat → List (BitVec 8)
  | 0, _ => []
  | n + 1, v => BitVec.ofNat 8 v :: leBytes n (v / 256)

@[simp] theorem length_leBytes (n v : Nat) : (leBytes n v).length = n := by
  induction n generalizing v with
  | zero => rfl
  | succ n ih => simp [leBytes, ih]

theorem leNat_leBytes (n v : Nat) : leNat (leBytes n v) = v % 256 ^ n := by
  induction n generalizing v with
  | zero => simp [leBytes, leNat, Nat.mod_one]
  | succ n ih =>
      have hpow : 256 ^ (n + 1) = 256 * 256 ^ n := Nat.pow_succ'
      simp only [leBytes, leNat, ih, BitVec.toNat_ofNat, hpow, Nat.mod_mul]

theorem leBytes_leNat (l : List (BitVec 8)) : leBytes l.length (leNat l) = l := by
  induction l with
  | nil => rfl
  | cons b l ih =>
      have hb := b.isLt
      -- The first byte is the remainder by 256, the others are the quotient.
      have hlow : (b.toNat + 256 * leNat l) / 256 = leNat l := by omega
      rw [List.length_cons, leNat, leBytes, hlow, ih, List.cons.injEq]
      refine ⟨?_, rfl⟩
      rw [← BitVec.toNat_inj, BitVec.toNat_ofNat]
      omega

/-- A word is its bytes. -/
theorem ofNat_leNat_leBytes (v : BitVec 32) : BitVec.ofNat 32 (leNat (leBytes 4 v.toNat)) = v := by
  rw [leNat_leBytes, ← BitVec.toNat_inj, BitVec.toNat_ofNat]
  have hv := v.isLt
  omega

/-- Four bytes are those of a word. -/
theorem leBytes_ofNat_leNat {l : List (BitVec 8)} (hl : l.length = 4) :
    leBytes 4 (BitVec.ofNat 32 (leNat l)).toNat = l := by
  -- Four bytes are a number below 2 to the 32, so the word loses nothing.
  have hlt : leNat l < 2 ^ 32 := by
    have hround := leNat_leBytes 4 (leNat l)
    rw [← hl, leBytes_leNat, hl] at hround
    omega
  rw [BitVec.toNat_ofNat, Nat.mod_eq_of_lt hlt, ← hl, leBytes_leNat]

theorem getD_leBytes (n v i : Nat) (b : BitVec 8) :
    (leBytes n v).getD i b = if i < n then BitVec.ofNat 8 (v / 256 ^ i) else b := by
  induction n generalizing v i with
  | zero => simp [leBytes]
  | succ n ih =>
      cases i with
      | zero => simp [leBytes]
      | succ i =>
          rw [leBytes, List.getD_cons_succ, ih, Nat.div_div_eq_div_mul, ← Nat.pow_succ']
          simp

end MicroArch
