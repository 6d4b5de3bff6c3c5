import Mathlib.Data.Fin.VecNotation
import Mathlib.Data.List.FinRange
import MicroArch.Library.CArray

/-!
# The Tables of the Branch Predictor

The state of the open-ended predictor of `predictor.cc` and the functions on
its parts: the two-level predictor T0 and the circular shift registers that
fold the global history.

Arrays are bounds-checked, so a function that indexes one has a result only
when it stays inside. Cells that are only shifted and combined bitwise are
32-bit words, counters that are incremented and compared are integers. The
seven tagged tables T1 to T7 are one family here, table `k + 1` under index
`k`, since the source treats them alike; so are the two registers of a table.

The loop of `updateCSR` moves both registers of a table in one pass. They do
not touch each other, so each is moved by `rotateCSR` with its own width.

## Main definitions

* `State`: The global variables of the predictor.
* `InitPredictor`: The state before the first branch.
* `getT0`, `updateT0`: The default predictor.
* `updateCSR`, `getCSR`: The folded histories.
* `tagT`, `indT`: The tag and the row of a branch in a tagged table.
-/

namespace MicroArch

namespace Predictor

abbrev NUM_TOTAL_TABLES : Nat := 8
abbrev NUM_TAGE_TABLES : Nat := 7
abbrev NUM_TAGE_ENTRIES : Nat := 1024
abbrev NUM_PRED_MODES : Nat := 8
abbrev NUM_GHR_BITS : Nat := 512
abbrev TAG_WIDTH : Nat := 11

abbrev T0_PHRT_ENTRIES : Nat := 1024
abbrev T0_PHT_TABLES : Nat := 8
abbrev T0_PHT_ENTRIES : Nat := 512
abbrev T0_PHT_MODES : Nat := 8
abbrev T0_PHT_PC_BITS : Nat := 3

-- The numbers of the two registers of a table get their meaning from one instance.
scoped instance neZero_registers : @NeZero Nat Zero.ofOfNat0 2 := ⟨by decide⟩

/-- The history lengths of the tagged tables, `T1_HIS_BITS` to `T7_HIS_BITS`. -/
def HIS_BITS : Fin NUM_TAGE_TABLES → Nat := ![8, 16, 32, 64, 128, 256, 512]

abbrev UINT32 := BitVec 32

/-- A row of a tagged table. -/
structure Entry where
  pred : Int
  tag : UINT32
  useful : Int
  deriving DecidableEq

/-- The global variables of the predictor. -/
structure State where
  T0Phrt : CArray T0_PHRT_ENTRIES UINT32
  T0Pht : CArray T0_PHT_TABLES (CArray T0_PHT_ENTRIES Int)
  GHR : CArray NUM_GHR_BITS UINT32
  T : Fin NUM_TAGE_TABLES → CArray NUM_TAGE_ENTRIES Entry
  providerComp : Nat
  providerPred : Bool
  providerIndex : Int
  altPred : Bool
  probability : Int
  useCounter : Int
  CSR : Fin NUM_TAGE_TABLES → Fin 2 → CArray TAG_WIDTH UINT32

/-- `InitPredictor_openend`. -/
def InitPredictor : State :=
  { T0Phrt := CArray.replicate _ 0
    T0Pht := CArray.replicate _ (CArray.replicate _ (T0_PHT_MODES / 2 - 1 : Nat))
    GHR := CArray.replicate _ 0
    T := fun _ => CArray.replicate _
      { pred := (NUM_PRED_MODES / 2 - 1 : Nat), tag := 0, useful := 0 }
    providerComp := 0, providerPred := false, providerIndex := 0, altPred := false
    probability := 0, useCounter := 128
    CSR := fun _ _ => CArray.replicate _ 0 }

/-! ### The default predictor -/

def phrtIndex (PC : UINT32) : UINT32 :=
  (PC >>> T0_PHT_PC_BITS) &&& BitVec.ofNat 32 (T0_PHRT_ENTRIES - 1)

def phtIndex (PC : UINT32) : UINT32 := PC &&& BitVec.ofNat 32 (T0_PHT_TABLES - 1)

/-- The direction T0 predicts. The counter is compared as an unsigned
    number. -/
def getT0 (PC : UINT32) (s : State) : Option Bool := do
  let history ← s.T0Phrt.get (phrtIndex PC).toNat
  let pht ← s.T0Pht.get (phtIndex PC).toNat
  let mode ← pht.get history.toNat
  return !decide ((BitVec.ofInt 32 mode).toNat ≤ T0_PHT_MODES / 2 - 1)

/-- A direction as a number, `TAKEN` being one. -/
def bit (dir : Bool) : UINT32 := if dir then 1 else 0

/-- A saturating counter moves towards the outcome. -/
def saturate (modes : Nat) (dir : Bool) (mode : Int) : Int :=
  if dir = false ∧ mode ≠ 0 then mode - 1
  else if dir = true ∧ mode ≠ ((modes - 1 : Nat) : Int) then mode + 1
  else mode

def updateT0 (PC : UINT32) (resolveDir : Bool) (s : State) : Option State := do
  let history ← s.T0Phrt.get (phrtIndex PC).toNat
  let pht ← s.T0Pht.get (phtIndex PC).toNat
  let mode ← pht.get history.toNat
  let pht ← pht.set history.toNat (saturate T0_PHT_MODES resolveDir mode)
  let T0Pht ← s.T0Pht.set (phtIndex PC).toNat pht
  let T0Phrt ← s.T0Phrt.set (phrtIndex PC).toNat
    (((history <<< 1) &&& BitVec.ofNat 32 (T0_PHT_ENTRIES - 1)) ||| bit resolveDir)
  return { s with T0Pht := T0Pht, T0Phrt := T0Phrt }

/-! ### The folded histories -/

/-- Moves one register: its cells move up by one, the first takes the newest
    history bit and the bit that was moved out, and the history bit that
    leaves the window is cancelled. -/
def rotateCSR (width numHisBits : Nat) (GHR : CArray NUM_GHR_BITS UINT32)
    (csr : CArray TAG_WIDTH UINT32) : Option (CArray TAG_WIDTH UINT32) := do
  let msb ← csr.get (width - 1 : Nat)
  let newest ← GHR.get 0
  -- The bit that is moved out has been read before the move.
  let csr ← (csr.moveUp width).set 0 (newest ^^^ msb)
  let oldest ← GHR.get numHisBits
  let bit ← csr.get (numHisBits % width : Nat)
  csr.set (numHisBits % width : Nat) (oldest ^^^ bit)

def updateCSR (table : Fin NUM_TAGE_TABLES) (numHisBits : Nat) (s : State) : Option State := do
  let csr0 ← rotateCSR TAG_WIDTH numHisBits s.GHR (s.CSR table 0)
  let csr1 ← rotateCSR (TAG_WIDTH - 1) numHisBits s.GHR (s.CSR table 1)
  return { s with CSR := Function.update s.CSR table ![csr0, csr1] }

/-- The cells of a register read as decimal digits, in unsigned arithmetic.
    Register zero has one cell less. -/
def getCSR (table : Fin NUM_TAGE_TABLES) (num : Fin 2) (s : State) : Option UINT32 := do
  let acc ← (List.range (if num = 0 then TAG_WIDTH - 1 else TAG_WIDTH)).foldlM
    (fun (acc : UINT32 × UINT32) (i : Nat) => do
      let c ← (s.CSR table num).get i
      return (acc.1 + acc.2 * c, acc.2 * 10)) (0, 1)
  return acc.1

/-- The tag a branch has in a tagged table. -/
def tagT (k : Fin NUM_TAGE_TABLES) (PC : UINT32) (s : State) : Option UINT32 := do
  let csr0 ← getCSR k 0 s
  let csr1 ← getCSR k 1 s
  return (PC ^^^ csr0 ^^^ (csr1 <<< 1)) &&& BitVec.ofNat 32 (NUM_TAGE_ENTRIES - 1)

/-- The row a branch has in a tagged table. -/
def indT (k : Fin NUM_TAGE_TABLES) (PC : UINT32) (s : State) : Option UINT32 := do
  let csr1 ← getCSR k 1 s
  return (PC ^^^ (PC >>> TAG_WIDTH) ^^^ csr1) &&& BitVec.ofNat 32 (NUM_TAGE_ENTRIES - 1)

end Predictor

end MicroArch
