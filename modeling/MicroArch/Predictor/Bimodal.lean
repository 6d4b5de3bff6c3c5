import MicroArch.Library.Counters
import MicroArch.Predictor.TwoLevel

/-!
# The Bimodal Predictor

The predictor of `predictor.cc` with one counter of two bits for each of the
last twelve bits of an address. It is a two-level predictor without a history,
so its counters are trained by all branches that share these bits.

`count` is what the program does with each of its predictors at a conditional
branch.

The program counts for three predictors that have nothing in common but this
shape. So `yields_count` is about any predictor whose state holds a two-level
predictor, in a sense that the caller gives: it has to hold at the start, tell
the prediction, and survive an update.

## Main definitions

* `InitPredictor2bitsat`, `GetPrediction2bitsat`, `UpdatePredictor2bitsat`: The
  functions of the source.
* `bimodal`: Its sizes as a two-level predictor.
* `Counts`: The array holds the counters of a run.
* `count`: A predictor resolves a branch, and counts its mispredictions.

## Theorems

* `yields_update2bitsat`: An update of the array is an update of the counters.
* `yields_count2bitsat`, `yields_count2level`: The mispredictions that are
  counted are those of the two-level predictors.
-/

namespace MicroArch

namespace Predictor

open TwoLevel (Shape Event)

/-! ### The functions -/

def InitPredictor2bitsat : CArray 4096 Int := CArray.replicate _ 1

/-- The last twelve bits of the address. -/
def bitsatIndex (PC : UINT32) : UINT32 := PC &&& BitVec.ofNat 32 4095

def GetPrediction2bitsat (PC : UINT32) (bitsat : CArray 4096 Int) : Option Bool := do
  let state ← bitsat.get (bitsatIndex PC).toNat
  return !decide (state = 0 ∨ state = 1)

def UpdatePredictor2bitsat (PC : UINT32) (resolveDir : Bool) (bitsat : CArray 4096 Int) :
    Option (CArray 4096 Int) := do
  let state ← bitsat.get (bitsatIndex PC).toNat
  bitsat.set (bitsatIndex PC).toNat (saturate 4 resolveDir state)

/-! ### Counters -/

/-- The sizes of the predictor: the counters of `pap`, and no history. -/
def bimodal : Shape := { pap with bits := 0 }

theorem bitsatIndex_lt (PC : UINT32) : (bitsatIndex PC).toNat < 4096 := and_mask_lt _ _ rfl

/-- A branch as the predictor sees it. -/
def bitsatEvent (u : UINT32 × Bool) : Event Unit (Fin 4096) :=
  { first := (), second := ⟨(bitsatIndex u.1).toNat, bitsatIndex_lt u.1⟩, dir := u.2 }

/-- The array holds the counters of a run. -/
def Counts (bitsat : CArray 4096 Int) (es : List (Event Unit (Fin 4096))) : Prop :=
  ∀ t, bitsat.cell t = ((bimodal.after es).counter t 0 : Int)

theorem history_bimodal (es : List (Event Unit (Fin 4096))) :
    (bimodal.after es).history () = 0 := by
  have hlt := bimodal.pattern_lt () es
  rw [TwoLevel.Shape.after_history]
  exact Nat.lt_one_iff.mp hlt

variable {bitsat : CArray 4096 Int} {es : List (Event Unit (Fin 4096))}

theorem yields_prediction2bitsat (u : UINT32 × Bool) (h : Counts bitsat es) :
    Yields (GetPrediction2bitsat u.1 bitsat) fun dir =>
      dir = bimodal.predict (bimodal.after es) (bitsatEvent u).first (bitsatEvent u).second := by
  refine (bitsat.yields_get _ (bitsatIndex_lt u.1)).bind fun state hstate => .ret ?_
  subst hstate
  rw [h, TwoLevel.Shape.predict, show (bitsatEvent u).first = () from rfl, history_bimodal]
  -- The source asks for modes 0 and 1, the reference for a counter below 2.
  have hcase : ∀ c : Nat, (!decide ((c : Int) = 0 ∨ (c : Int) = 1)) = decide (2 ≤ c) := by
    intro c
    by_cases hc : 2 ≤ c
    · simp only [hc, decide_true, Bool.not_eq_true', decide_eq_false_iff_not]
      omega
    · simp only [hc, decide_false, Bool.not_eq_false', decide_eq_true_eq]
      omega
  exact hcase _

/-- An update of the array is an update of the counters. -/
theorem yields_update2bitsat (u : UINT32 × Bool) (h : Counts bitsat es) :
    Yields (UpdatePredictor2bitsat u.1 u.2 bitsat) fun bitsat' =>
      Counts bitsat' (bitsatEvent u :: es) := by
  refine (bitsat.yields_get _ (bitsatIndex_lt u.1)).bind fun state hstate => ?_
  refine (bitsat.yields_set _ _ (bitsatIndex_lt u.1)).mono fun bitsat' hset t => ?_
  subst hstate hset
  have hle := TwoLevel.Shape.counter_le (S := bimodal) (bitsatEvent u).second 0 es
  rw [CArray.update_cell, TwoLevel.Shape.after, TwoLevel.Shape.record_counter]
  -- Without a history the pattern is 0, so the counter depends on the address alone.
  change (if t = (bitsatEvent u).second
    then saturate 4 u.2 (bitsat.cell (bitsatEvent u).second) else _) = _
  by_cases ht : t = (bitsatEvent u).second
  · subst ht
    rw [if_pos rfl, if_pos ⟨rfl, (history_bimodal es).symm⟩, h]
    exact saturate_eq_sat hle u.2
  · rw [if_neg ht, if_neg fun hc => ht hc.1, h]

/-! ### Counting -/

/-- A predictor resolves a branch, and counts its mispredictions. -/
def count {σ : Type} (get : UINT32 → σ → Option (Bool × σ)) (update : UINT32 → Bool → σ → Option σ)
    (acc : σ × BitVec 64) (u : UINT32 × Bool) : Option (σ × BitVec 64) := do
  let (dir, s) ← get u.1 acc.1
  let s ← update u.1 u.2 s
  return (s, if dir ≠ u.2 then acc.2 + 1 else acc.2)

/-- A predictor whose predictions change nothing. -/
def unchanging {σ : Type} (get : UINT32 → σ → Option Bool) (PC : UINT32) (s : σ) :
    Option (Bool × σ) :=
  (get PC s).map fun dir => (dir, s)

abbrev count2bitsat := count (unchanging GetPrediction2bitsat) UpdatePredictor2bitsat
abbrev count2level := count (unchanging GetPrediction2level) UpdatePredictor2level
abbrev countOpenend := count GetPrediction UpdatePredictor

section Runs

variable (branches : List (UINT32 × Bool))

/-- A predictor that is a two-level predictor counts what this one
    mispredicts. -/
theorem yields_count {β τ σ : Type} [DecidableEq β] [DecidableEq τ] (S : Shape)
    (event : UINT32 × Bool → Event β τ) (Inv : List (Event β τ) → σ → Prop)
    {get : UINT32 → σ → Option (Bool × σ)} {update : UINT32 → Bool → σ → Option σ} {s₀ : σ}
    (hdir : ∀ u, (event u).dir = u.2) (init : Inv [] s₀)
    (hget : ∀ es u s, Inv es s → Yields (get u.1 s) fun r =>
      r.1 = S.predict (S.after es) (event u).first (event u).second ∧ Inv es r.2)
    (hupdate : ∀ es u s, Inv es s → Yields (update u.1 u.2 s) (Inv (event u :: es))) :
    Yields (branches.foldlM (count get update) (s₀, 0)) fun acc =>
      Inv (branches.map event).reverse acc.1 ∧
        acc.2 = BitVec.ofNat 64 (S.allMissed (branches.map event).reverse) := by
  -- The invariant of the loop: the predictor holds the branches so far, newest first, and
  -- the counter has wrapped like the number of those it mispredicted.
  refine Yields.foldlM (fun pre (acc : σ × BitVec 64) => Inv (pre.map event).reverse acc.1 ∧
    acc.2 = BitVec.ofNat 64 (S.allMissed (pre.map event).reverse)) branches
    ⟨init, rfl⟩ fun pre u acc hacc => ?_
  refine (hget _ u acc.1 hacc.1).bind fun r hr => ?_
  refine (hupdate _ u r.2 hr.2).bind fun s hs => .ret ?_
  rw [List.map_append, List.map_singleton, List.reverse_append, List.reverse_singleton,
    List.singleton_append]
  refine ⟨hs, ?_⟩
  rw [Shape.allMissed, hdir, ← hr.1]
  change (if r.1 ≠ u.2 then acc.2 + 1 else acc.2) = _
  by_cases hmiss : r.1 = u.2
  · rw [if_neg (not_not_intro hmiss), if_neg (not_not_intro hmiss), hacc.2, Nat.add_zero]
  · rw [if_pos hmiss, if_pos hmiss, hacc.2, BitVec.ofNat_add]
    rfl

/-- The bimodal predictor counts its mispredictions. -/
theorem yields_count2bitsat :
    Yields (branches.foldlM count2bitsat (InitPredictor2bitsat, 0)) fun acc =>
      Counts acc.1 (branches.map bitsatEvent).reverse ∧
      acc.2 = BitVec.ofNat 64 (bimodal.allMissed (branches.map bitsatEvent).reverse) :=
  yields_count branches bimodal bitsatEvent (fun es s => Counts s es) (fun _ => rfl) (fun _ => rfl)
    (fun _ u _ hs => (yields_prediction2bitsat u hs).map fun _ hdir => ⟨hdir, hs⟩)
    fun _ u _ hs => yields_update2bitsat u hs

/-- So does the predictor with local histories. -/
theorem yields_count2level :
    Yields (branches.foldlM count2level (InitPredictor2level, 0)) fun acc =>
      Holds acc.1.papbht acc.1.pappht (pap.after (branches.map papEvent).reverse) ∧
      acc.2 = BitVec.ofNat 64 (pap.allMissed (branches.map papEvent).reverse) :=
  yields_count branches pap papEvent
    (fun es (s : State2level) => Holds s.papbht s.pappht (pap.after es)) (fun _ => rfl)
    (holds_initial pap rfl)
    (fun _ u _ hs => (yields_prediction2level u hs).map fun _ hdir => ⟨hdir, hs⟩)
    fun _ u _ hs => yields_update2level u hs

end Runs

end Predictor

end MicroArch
