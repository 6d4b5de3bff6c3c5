import MicroArch.Library.Latest

/-!
# In-Order Execution

The reference of every machine that executes a program out of order: the
entries one after the other, each with the registers as the entries before it
have left them.

A register then holds what the latest entry that writes it has computed, so
the registers before an entry are determined by who these entries are.
`regs_eq` is this fact, and `regs_congr` what a machine needs of it that moves
over entries which write nothing.

What an entry computes is a parameter, and so is the type of values. Hence a
statement about all codes is one about the order of reads and writes alone, and
a machine that reads the right writers computes the right values for every
instruction set.

## Main definitions

* `Code`: A program, by what each entry reads, writes and computes.
* `Code.regs`: The registers before each entry.
* `Code.operands`, `Code.value`: What an entry reads and computes.

## Theorems

* `regs_eq`: A register has the value of its latest writer.
* `regs_of_latest`, `regs_congr`: The two ways it is used.
-/

namespace MicroArch

namespace InOrder

variable {R J V : Type*}

/-- A program over registers `R`. An entry reads at most one register through
    each of its inputs `J`, and computes a value for every register from what
    it has read. An entry that is not executed writes no register. -/
structure Code (R J V : Type*) where
  reads : Nat → J → Option R
  writes : R → Nat → Prop
  result : Nat → (J → Option V) → R → V

namespace Code

variable (C : Code R J V) [∀ r, DecidablePred (C.writes r)] (init : R → V)

/-- The registers before the entry at a position. -/
def regs : Nat → R → V
  | 0 => init
  | n + 1 => fun r =>
      if C.writes r n then C.result n (fun j => (C.reads n j).map (regs n)) r else regs n r

/-- What an entry reads. -/
def operands (p : Nat) : J → Option V := fun j => (C.reads p j).map (C.regs init p)

/-- What an entry computes for a register. -/
def value (p : Nat) : R → V := C.result p (C.operands init p)

variable {C init}

theorem regs_succ (n : Nat) (r : R) :
    C.regs init (n + 1) r = if C.writes r n then C.value init n r else C.regs init n r := rfl

/-- A register has the value of the latest entry that writes it. -/
theorem regs_eq (n : Nat) (r : R) :
    C.regs init n r = ((Latest.latest (C.writes r) n).map fun p => C.value init p r).getD
      (init r) := by
  induction n with
  | zero => rfl
  | succ n ih =>
      -- The entry is the latest writer of the register, or leaves it as it was.
      by_cases hw : C.writes r n
      · rw [Latest.latest_succ_pos hw, regs_succ, if_pos hw, Option.map_some, Option.getD_some]
      · rw [Latest.latest_succ_neg hw, regs_succ, if_neg hw, ih]

theorem regs_of_latest {n p : Nat} {r : R} (h : Latest.latest (C.writes r) n = some p) :
    C.regs init n r = C.value init p r := by
  rw [regs_eq, h, Option.map_some, Option.getD_some]

theorem regs_congr {m n : Nat} {r : R}
    (h : Latest.latest (C.writes r) m = Latest.latest (C.writes r) n) :
    C.regs init m r = C.regs init n r := by
  rw [regs_eq, h, ← regs_eq]

end Code

end InOrder

end MicroArch
