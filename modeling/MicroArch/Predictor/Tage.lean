import MicroArch.Predictor.Tables

/-!
# Prediction and Update

`GetPrediction_openend` and `UpdatePredictor_openend` of `predictor.cc`.

Prediction looks the branch up in the seven tagged tables, takes the matching
table with the longest history as the provider and the next one as the
alternate. The local arrays of the source hold, for each table, the counter,
the row and the useful bit of the match, with `-1` for the counter where
there is none.

An update trains the provider that the last prediction left in the global
variables, allocates an entry in a longer table after a misprediction, clears
useful bits when their counter ran out, and appends the outcome to the
history. Seven tests on `providerComp` in a row, of which at most one
succeeds, are a lookup of the table it names.

Two parameters of the update, the predicted direction and the branch target,
are not read by it and are left out.

## Main definitions

* `GetPrediction`: The prediction, and the provider it was made by.
* `UpdatePredictor`: The state after the outcome of a branch.
* `Call`, `runCalls`: The predictor under a sequence of calls.
-/

namespace MicroArch

namespace Predictor

/-! ### Prediction -/

/-- The local arrays of a prediction, indexed by table number. -/
structure Lookup where
  pred : CArray NUM_TOTAL_TABLES Int
  index : CArray NUM_TOTAL_TABLES Int
  useful : CArray NUM_TOTAL_TABLES Int

/-- Before the lookup: the direction of T0, then no match in any table. -/
def Lookup.initial (t0 : Bool) : Lookup :=
  { pred := (CArray.replicate _ (-1)).update 0 (if t0 then 1 else 0)
    index := (CArray.replicate _ (-1)).update 0 0
    useful := CArray.replicate _ 0 }

/-- Enters the branch's row of one table if it holds the branch's tag. -/
def lookup (PC : UINT32) (s : State) (acc : Lookup) (k : Fin NUM_TAGE_TABLES) :
    Option Lookup := do
  let tag ← tagT k PC s
  let ind ← indT k PC s
  let entry ← (s.T k).get ind.toNat
  if entry.tag = tag then
    return { pred := acc.pred.update k.succ entry.pred
             index := acc.index.update k.succ ind.toNat
             useful := acc.useful.update k.succ entry.useful }
  else
    return acc

/-- The greatest table number from `i` down to one with a match; zero when
    the loop runs out. -/
def findMatch (pred : CArray NUM_TOTAL_TABLES Int) : Nat → Option Nat
  | 0 => some 0
  | i + 1 => do
    let p ← pred.get (i + 1 : Nat)
    -- A counter of `-1` marks a table without a match.
    if p ≠ -1 then return i + 1 else findMatch pred i

/-- The direction of a counter. -/
def direction (pred : Int) : Bool := !decide (pred < (NUM_PRED_MODES / 2 : Nat))

def GetPrediction (PC : UINT32) (s : State) : Option (Bool × State) := do
  let t0 ← getT0 PC s
  let tables ← (List.finRange NUM_TAGE_TABLES).foldlM (lookup PC s) (Lookup.initial t0)
  let i ← findMatch tables.pred NUM_TAGE_TABLES
  if i = 0 then
    return (t0, { s with
      providerComp := 0, providerPred := t0, providerIndex := -1, altPred := t0 })
  else
    let p ← tables.pred.get i
    let index ← tables.index.get i
    let useful ← tables.useful.get i
    let weak := (p > 2 ∧ p < 5) ∨ useful = 0
    let j ← findMatch tables.pred (i - 1)
    -- the alternate is taken from the provider's counter, not from the match at `j`
    let altPred := if j = 0 then t0 else direction p
    return (if weak then altPred else direction p,
      { s with providerComp := i, providerPred := direction p, providerIndex := index
               altPred := altPred })

/-! ### Update -/

/-- The tagged table that a table number names. -/
def tageTable (comp : Nat) : Option (Fin NUM_TAGE_TABLES) :=
  if h : 0 < comp ∧ comp ≤ NUM_TAGE_TABLES then some ⟨comp - 1, by omega⟩ else none

/-- Writes a row of a tagged table. -/
def State.setRow (k : Fin NUM_TAGE_TABLES) (i : Int) (entry : Entry) (s : State) :
    Option State := do
  let table ← (s.T k).set i entry
  return { s with T := Function.update s.T k table }

/-- The provider's counter moves towards the outcome. Also returns the useful
    bit and the new counter, or zeros when the counter was saturated. -/
def trainProvider (resolveDir : Bool) (s : State) : Option (State × Int × Int) :=
  match tageTable s.providerComp with
  | none => some (s, 0, 0)
  | some k => do
    let entry ← (s.T k).get s.providerIndex
    -- A counter at its end is left alone, and then the other two stay zero.
    if entry.pred = (if resolveDir then 7 else 0) then return (s, 0, 0)
    else
      let pred := if resolveDir then entry.pred + 1 else entry.pred - 1
      let s ← s.setRow k s.providerIndex { entry with pred := pred }
      return (s, entry.useful, pred)

/-- Overwrites the useful bit of the provider's row. -/
def markProvider (useful : Int) (s : State) : Option State :=
  match tageTable s.providerComp with
  | none => some s
  | some k => do
    let entry ← (s.T k).get s.providerIndex
    s.setRow k s.providerIndex { entry with useful := useful }

/-- The useful bit and the counter of successes and failures record whether
    the provider was right when it differed from the alternate. -/
def updateUseful (resolveDir : Bool) (s : State) : Option State :=
  if s.providerPred = resolveDir ∧ s.providerPred ≠ s.altPred then do
    let s ← markProvider 1 s
    return { s with useCounter := if s.useCounter ≠ 255 then s.useCounter + 1 else s.useCounter }
  else if s.providerPred ≠ resolveDir ∧ s.providerPred ≠ s.altPred then do
    let s ← markProvider 0 s
    return { s with useCounter := if s.useCounter ≠ 0 then s.useCounter - 1 else s.useCounter }
  else some s

/-- The tables in which an entry may be allocated: longer than the provider,
    with the branch's row not useful, and from the third table on at most
    until two have been found. -/
def findVictims (PC : UINT32) (s : State) : Option ((Fin NUM_TAGE_TABLES → Bool) × Nat) :=
  (List.finRange NUM_TAGE_TABLES).foldlM
    (fun (acc : (Fin NUM_TAGE_TABLES → Bool) × Nat) k => do
      let ind ← indT k PC s
      let entry ← (s.T k).get ind.toNat
      -- Table `k + 1` is longer than the provider when its index is not below it.
      if s.providerComp ≤ k.val ∧ entry.useful = 0 ∧ (k.val < 2 ∨ acc.2 < 2) then
        return (Function.update acc.1 k true, acc.2 + 1)
      else return acc)
    (fun _ => false, 0)

/-- A new entry for the branch, with a weak counter. -/
def allocate (PC : UINT32) (resolveDir : Bool) (k : Fin NUM_TAGE_TABLES) (s : State) :
    Option State := do
  let tag ← tagT k PC s
  let ind ← indT k PC s
  s.setRow k ind.toNat { pred := if resolveDir then 4 else 3, tag := tag, useful := 0 }

/-- Clears the useful bits of the tables that satisfy the test. -/
def clearUseful (which : Fin NUM_TAGE_TABLES → Bool) (s : State) : State :=
  { s with T := fun k =>
      if which k then (s.T k).map (fun entry => { entry with useful := 0 }) else s.T k }

/-- A new entry in the table that a search has found. -/
def allocateFound (PC : UINT32) (resolveDir : Bool) (found : Option (Fin NUM_TAGE_TABLES))
    (s : State) : Option State :=
  match found with
  | some k => allocate PC resolveDir k s
  | none => some s

/-- Allocates in the first table found, or in the last one if there are
    several and the counter of allocations has reached two; clears the useful
    bits of the longer tables when there is none. -/
def allocateEntry (PC : UINT32) (resolveDir : Bool) (s : State) : Option State := do
  let (found, numFound) ← findVictims PC s
  if numFound = 0 then
    return clearUseful (fun k => decide (s.providerComp ≤ k.val)) s
  else if numFound = 1 ∨ s.probability < 2 then
    let s ← allocateFound PC resolveDir ((List.finRange NUM_TAGE_TABLES).find? found) s
    return { s with probability := s.probability + 1 }
  else
    allocateFound PC resolveDir ((List.finRange NUM_TAGE_TABLES).reverse.find? found)
      { s with probability := 1 }

/-- An entry is allocated after a misprediction, unless the provider is the
    longest table or was trained to a weak counter while not useful. -/
def allocateOnMiss (PC : UINT32) (resolveDir : Bool) (useful pred : Int) (s : State) :
    Option State :=
  if s.providerComp ≠ NUM_TAGE_TABLES ∧ resolveDir ≠ s.providerPred ∧
      ¬ (useful = 0 ∧ pred > 2 ∧ pred < 5) then
    allocateEntry PC resolveDir s
  else some s

/-- All useful bits are cleared when their counter has run out. -/
def resetUseful (s : State) : State :=
  if s.useCounter = 0 then { clearUseful (fun _ => true) s with useCounter := 128 } else s

/-- The outcome enters the history, and the registers follow. -/
def updateHistory (resolveDir : Bool) (s : State) : Option State :=
  let GHR := (s.GHR.moveUp NUM_GHR_BITS).update 0 (bit resolveDir)
  -- The registers read the history after it has moved.
  (List.finRange NUM_TAGE_TABLES).foldlM
    (fun s t => updateCSR t (HIS_BITS t - 1) s) { s with GHR := GHR }

/-- The update of the provider's row, with the useful bit and the counter
    that the allocation reads. Both are zero without a tagged provider. -/
def updateProvider (resolveDir : Bool) (s : State) : Option (State × Int × Int) :=
  if s.providerComp ≠ 0 then do
    let (s, useful, pred) ← trainProvider resolveDir s
    let s ← updateUseful resolveDir s
    return (s, useful, pred)
  else some (s, 0, 0)

def UpdatePredictor (PC : UINT32) (resolveDir : Bool) (s : State) : Option State := do
  let s ← updateT0 PC resolveDir s
  let (s, useful, pred) ← updateProvider resolveDir s
  let s ← allocateOnMiss PC resolveDir useful pred s
  updateHistory resolveDir (resetUseful s)

/-! ### Sequences of calls -/

/-- A call of the predictor. -/
inductive Call where
  | getPrediction (PC : UINT32)
  | updatePredictor (PC : UINT32) (resolveDir : Bool)

/-- The state after a call. -/
def Call.run (c : Call) (s : State) : Option State :=
  match c with
  | .getPrediction PC => (GetPrediction PC s).map Prod.snd
  | .updatePredictor PC resolveDir => UpdatePredictor PC resolveDir s

/-- The state after a sequence of calls, if every array access of theirs was
    inside its bounds. -/
def runCalls (calls : List Call) : Option State :=
  calls.foldlM (fun s c => c.run s) InitPredictor

/-- The outcomes of a sequence of calls, the most recent one first. -/
def outcomes : List Call → List Bool
  | [] => []
  | .getPrediction _ :: calls => outcomes calls
  | .updatePredictor _ resolveDir :: calls => outcomes calls ++ [resolveDir]

end Predictor

end MicroArch
