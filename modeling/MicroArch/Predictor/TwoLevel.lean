import MicroArch.Library.TwoLevel
import MicroArch.Predictor.Range

/-!
# The Per-Address Predictors

The two-level predictor of `predictor.cc` and the default predictor T0 of the
open-ended one, both as two-level predictors in the sense of
`Library.TwoLevel`. The first level is indexed by the middle bits of the
address and the second by its low bits, so that branches meet in a history
without meeting in a table, and the other way round.

`Holds` ties the arrays of either predictor to abstract tables. An update of
the arrays is a `record` on the tables, which is the one place where shifts
and masks are compared with arithmetic.

What is learned is stated for the two-level predictor: a branch that shares its
entries with no other, and whose outcomes fit a history of six bits, is
mispredicted at most as often as it takes to fill the history and to train the
counters of the histories that occur. Nothing is said of where in the run its
occurrences are, or of what other branches do.

## Main definitions

* `State2level`: The arrays of the two-level predictor.
* `GetPrediction2level`, `UpdatePredictor2level`: Prediction and update.
* `pap`, `defaultPap`: The sizes of the two predictors.
* `Holds`: The arrays hold the contents of abstract tables.

## Theorems

* `Holds.record`: An update of the arrays is an update of the tables.
* `yields_update2level`, `yields_updateT0_record`: Both predictors do it.
* `reference_run`: Both predictors implement their reference.
* `pattern_learned`: The two-level predictor learns what fits its history.
-/

namespace MicroArch

namespace Predictor

open TwoLevel (Shape Tables Event)

/-! ### The two-level predictor -/

/-- The arrays of the two-level predictor. -/
structure State2level where
  papbht : CArray 512 UINT32
  pappht : CArray 8 (CArray 64 Int)

def InitPredictor2level : State2level :=
  { papbht := CArray.replicate _ 0, pappht := CArray.replicate _ (CArray.replicate _ 1) }

/-- The row of the history table. -/
def bhtIndex (PC : UINT32) : UINT32 := (PC >>> 3) &&& BitVec.ofNat 32 511

/-- The direction that is predicted. The counter is compared as an unsigned
    number. -/
def GetPrediction2level (PC : UINT32) (s : State2level) : Option Bool := do
  let pattern ← s.papbht.get (bhtIndex PC).toNat
  let pht ← s.pappht.get (phtIndex PC).toNat
  let mode ← pht.get pattern.toNat
  let state := BitVec.ofInt 32 mode
  return !decide (state = 0 ∨ state = 1)

def UpdatePredictor2level (PC : UINT32) (resolveDir : Bool) (s : State2level) :
    Option State2level := do
  let oldPattern ← s.papbht.get (bhtIndex PC).toNat
  let pht ← s.pappht.get (phtIndex PC).toNat
  let mode ← pht.get oldPattern.toNat
  let pht ← pht.set oldPattern.toNat (saturate 4 resolveDir mode)
  let pappht ← s.pappht.set (phtIndex PC).toNat pht
  -- The table is indexed with the pattern from before the update.
  let papbht ← s.papbht.set (bhtIndex PC).toNat
    (((oldPattern <<< 1) &&& BitVec.ofNat 32 63) ||| bit resolveDir)
  return { papbht := papbht, pappht := pappht }

/-! ### Arrays and tables -/

/-- The sizes of the two-level predictor. -/
def pap : Shape :=
  { bits := 6, top := 3, start := 1, taken := 2
    start_le := by decide, taken_pos := by decide, taken_le := by decide }

/-- The sizes of the default predictor. -/
def defaultPap : Shape :=
  { bits := 9, top := 7, start := 3, taken := 4
    start_le := by decide, taken_pos := by decide, taken_le := by decide }

variable {n₁ n₂ n₃ : Nat}

/-- The arrays hold the contents of the tables. -/
structure Holds (bht : CArray n₁ UINT32) (pht : CArray n₂ (CArray n₃ Int))
    (T : Tables (Fin n₁) (Fin n₂)) : Prop where
  history : ∀ b, (bht.cell b).toNat = T.history b
  counter : ∀ t h, (pht.cell t).cell h = (T.counter t h : Int)

theorem saturate_eq_sat {top c : Nat} (hc : c ≤ top) (dir : Bool) :
    saturate (top + 1) dir (c : Int) = (TwoLevel.sat top dir c : Int) := by
  cases dir with
  | false =>
      simp only [saturate, TwoLevel.sat, Bool.false_eq_true, true_and, false_and, if_false]
      split_ifs <;> omega
  | true =>
      have htop : ((top + 1 - 1 : Nat) : Int) = top := by omega
      simp only [saturate, TwoLevel.sat, Bool.true_eq_false, true_and, false_and, if_false,
        if_true, htop]
      by_cases heq : c = top
      · rw [if_neg (by omega), Nat.min_eq_left (by omega), heq]
      · rw [if_pos (by omega), Nat.min_eq_right (by omega)]
        rfl

/-- The shifted history with the outcome in bit zero, as a number. -/
theorem shifted_toNat {bits : Nat} (hpos : 0 < bits) (hle : bits ≤ 31) (history : UINT32)
    (dir : Bool) :
    (((history <<< 1) &&& BitVec.ofNat 32 (2 ^ bits - 1)) ||| bit dir).toNat =
      (2 * history.toNat + dir.toNat) % 2 ^ bits := by
  have hpow : 2 ^ bits = 2 * 2 ^ (bits - 1) := by
    rw [← Nat.pow_succ', Nat.succ_eq_add_one, Nat.sub_add_cancel hpos]
  have hmask : 2 ^ bits - 1 < 2 ^ 32 :=
    (Nat.sub_le _ _).trans_lt (Nat.pow_lt_pow_right (by decide) (by omega))
  -- The history is shorter than a word, so the shift loses only bits that the mask drops.
  have hdvd : 2 ^ bits ∣ 2 ^ 32 := Nat.pow_dvd_pow 2 (by omega)
  have hbit : (bit dir).toNat = dir.toNat := by cases dir <;> rfl
  have hdir := Bool.toNat_lt dir
  rw [BitVec.toNat_or, BitVec.toNat_and, BitVec.toNat_shiftLeft, BitVec.toNat_ofNat,
    Nat.mod_eq_of_lt hmask, Nat.and_two_pow_sub_one_eq_mod, Nat.mod_mod_of_dvd _ hdvd,
    Nat.shiftLeft_eq, Nat.pow_one, Nat.mul_comm, hbit, hpow, Nat.mul_mod_mul_left]
  -- The outcome lands in the bit that the shift has left free.
  have hor := Nat.two_pow_add_eq_or_of_lt (i := 1) hdir (history.toNat % 2 ^ (bits - 1))
  rw [Nat.pow_one] at hor
  have hlow : (2 * history.toNat + dir.toNat) % 2 = dir.toNat := by omega
  have hhigh : (2 * history.toNat + dir.toNat) / 2 = history.toNat := by omega
  rw [← hor, Nat.mod_mul, hlow, hhigh, Nat.add_comm]

/-- An update of the arrays is an update of the tables. -/
theorem Holds.record {S : Shape} {bht : CArray n₁ UINT32} {pht : CArray n₂ (CArray n₃ Int)}
    {T : Tables (Fin n₁) (Fin n₂)} (h : Holds bht pht T) (b : Fin n₁) (t : Fin n₂) (dir : Bool)
    {row : Fin n₃} (hrow : row.val = (bht.cell b).toNat) {word : UINT32} {mode : Int}
    (hword : word.toNat = (2 * (bht.cell b).toNat + dir.toNat) % 2 ^ S.bits)
    (hmode : mode = TwoLevel.sat S.top dir (T.counter t row)) :
    Holds (bht.update b word) (pht.update t ((pht.cell t).update row mode))
      (S.record T { first := b, second := t, dir := dir }) where
  history b' := by
    rw [CArray.update_cell, TwoLevel.Shape.record_history]
    by_cases hb : b' = b
    · rw [if_pos hb, if_pos hb, hword, h.history]
    · rw [if_neg hb, if_neg hb, h.history]
  counter t' h' := by
    rw [CArray.update_cell, TwoLevel.Shape.record_counter]
    by_cases ht : t' = t
    · subst ht
      rw [if_pos rfl, CArray.update_cell]
      -- The counter that is trained is the one of the old history.
      by_cases hh : h' = row
      · subst hh
        rw [if_pos rfl, if_pos ⟨rfl, hrow.trans (h.history b)⟩, hmode]
      · rw [if_neg hh, if_neg, h.counter]
        exact fun heq => hh (Fin.ext (heq.2.trans ((h.history b).symm.trans hrow.symm)))
    · rw [if_neg ht, if_neg fun heq => ht heq.1, h.counter]

/-! ### Branches as events -/

theorem bhtIndex_lt (PC : UINT32) : (bhtIndex PC).toNat < 512 := and_mask_lt _ _ rfl

/-- A branch as the two-level predictor sees it. -/
def papEvent (u : UINT32 × Bool) : Event (Fin 512) (Fin 8) :=
  { first := ⟨(bhtIndex u.1).toNat, bhtIndex_lt u.1⟩
    second := ⟨(phtIndex u.1).toNat, phtIndex_lt u.1⟩
    dir := u.2 }

/-- A branch as the default predictor sees it. -/
def defaultEvent (u : UINT32 × Bool) : Event (Fin T0_PHRT_ENTRIES) (Fin T0_PHT_TABLES) :=
  { first := ⟨(phrtIndex u.1).toNat, phrtIndex_lt u.1⟩
    second := ⟨(phtIndex u.1).toNat, phtIndex_lt u.1⟩
    dir := u.2 }

theorem holds_initial (S : Shape) {start : Int} (h : start = S.start) :
    Holds (CArray.replicate n₁ 0) (CArray.replicate n₂ (CArray.replicate n₃ start))
      (S.after []) where
  history _ := rfl
  counter _ _ := h

/-- The history of an entry selects a counter of the table. -/
theorem Holds.history_lt {S : Shape} {bht : CArray n₁ UINT32} {pht : CArray n₂ (CArray n₃ Int)}
    {es : List (Event (Fin n₁) (Fin n₂))} (h : Holds bht pht (S.after es)) (b : Fin n₁) :
    (bht.cell b).toNat < 2 ^ S.bits := by
  rw [h.history, TwoLevel.Shape.after_history]
  exact S.pattern_lt b es

/-- The two-level predictor trains its counters and histories. -/
theorem yields_update2level {s : State2level} {es : List (Event (Fin 512) (Fin 8))}
    (u : UINT32 × Bool) (h : Holds s.papbht s.pappht (pap.after es)) :
    Yields (UpdatePredictor2level u.1 u.2 s) fun s' =>
      Holds s'.papbht s'.pappht (pap.after (papEvent u :: es)) := by
  refine (s.papbht.yields_get _ (bhtIndex_lt u.1)).bind fun old hold => ?_
  refine (s.pappht.yields_get _ (phtIndex_lt u.1)).bind fun pht hpht => ?_
  subst hold hpht
  -- A history has six bits, so it is the number of a counter.
  have hrow : (s.papbht.cell ⟨_, bhtIndex_lt u.1⟩).toNat < 64 := h.history_lt _
  refine (CArray.yields_get _ _ hrow).bind fun mode hmode => ?_
  refine (CArray.yields_set _ _ _ hrow).bind fun pht' hpht' => ?_
  refine (s.pappht.yields_set _ _ (phtIndex_lt u.1)).bind fun pappht hpappht => ?_
  refine (s.papbht.yields_set _ _ (bhtIndex_lt u.1)).bind fun papbht hpapbht => .ret ?_
  subst hpht' hpappht hpapbht hmode
  refine h.record _ _ u.2 rfl (shifted_toNat (by decide : 0 < 6) (by decide) _ _) ?_
  rw [h.counter]
  exact saturate_eq_sat (TwoLevel.Shape.counter_le (S := pap) _ _ es) u.2

/-- So does the default predictor. -/
theorem yields_updateT0_record {s : State}
    {es : List (Event (Fin T0_PHRT_ENTRIES) (Fin T0_PHT_TABLES))} (u : UINT32 × Bool)
    (h : Holds s.T0Phrt s.T0Pht (defaultPap.after es)) :
    Yields (updateT0 u.1 u.2 s) fun s' =>
      Holds s'.T0Phrt s'.T0Pht (defaultPap.after (defaultEvent u :: es)) := by
  refine (s.T0Phrt.yields_get _ (phrtIndex_lt u.1)).bind fun old hold => ?_
  refine (s.T0Pht.yields_get _ (phtIndex_lt u.1)).bind fun pht hpht => ?_
  subst hold hpht
  have hrow : (s.T0Phrt.cell ⟨_, phrtIndex_lt u.1⟩).toNat < T0_PHT_ENTRIES := h.history_lt _
  refine (CArray.yields_get _ _ hrow).bind fun mode hmode => ?_
  refine (CArray.yields_set _ _ _ hrow).bind fun pht' hpht' => ?_
  refine (s.T0Pht.yields_set _ _ (phtIndex_lt u.1)).bind fun T0Pht hT0Pht => ?_
  refine (s.T0Phrt.yields_set _ _ (phrtIndex_lt u.1)).bind fun T0Phrt hT0Phrt => .ret ?_
  subst hpht' hT0Pht hT0Phrt hmode
  refine h.record _ _ u.2 rfl (shifted_toNat (by decide : 0 < 9) (by decide) _ _) ?_
  rw [h.counter]
  exact saturate_eq_sat (TwoLevel.Shape.counter_le (S := defaultPap) _ _ es) u.2

/-- The arrays are what the reference reads off the branches, newest first:
    a history is the number formed by the last outcomes of the branches of its
    row, and a counter has been trained by the outcomes of those branches of
    its table whose history was its own before they were entered. -/
def Implements (S : Shape) (es : List (Event (Fin n₁) (Fin n₂))) (bht : CArray n₁ UINT32)
    (pht : CArray n₂ (CArray n₃ Int)) : Prop :=
  (∀ b, (bht.cell b).toNat = S.pattern b es) ∧
    ∀ t h, (pht.cell t).cell h = (S.count (S.trained t h es) : Int)

theorem Holds.implements {S : Shape} {bht : CArray n₁ UINT32} {pht : CArray n₂ (CArray n₃ Int)}
    {es : List (Event (Fin n₁) (Fin n₂))} (h : Holds bht pht (S.after es)) :
    Implements S es bht pht := by
  refine ⟨fun b => ?_, fun t i => ?_⟩
  · rw [h.history, TwoLevel.Shape.after_history]
  · rw [h.counter, TwoLevel.Shape.after_counter]

/-- After any sequence of updates, both predictors hold what their reference
    reads off the sequence. -/
theorem reference_run (updates : List (UINT32 × Bool)) :
    Yields (updates.foldlM (fun s u => UpdatePredictor2level u.1 u.2 s) InitPredictor2level)
        (fun s => Implements pap (updates.map papEvent).reverse s.papbht s.pappht) ∧
      Yields (updates.foldlM (fun s u => updateT0 u.1 u.2 s) InitPredictor)
        fun s => Implements defaultPap (updates.map defaultEvent).reverse s.T0Phrt s.T0Pht := by
  constructor
  · refine (Yields.foldlM (fun pre (s : State2level) => Holds s.papbht s.pappht
      (pap.after (pre.map papEvent).reverse)) updates (holds_initial pap rfl)
      fun pre u s hs => ?_).mono fun s hs => hs.implements
    rw [List.map_append, List.map_singleton, List.reverse_append]
    exact yields_update2level u hs
  · refine (Yields.foldlM (fun pre (s : State) => Holds s.T0Phrt s.T0Pht
      (defaultPap.after (pre.map defaultEvent).reverse)) updates (holds_initial defaultPap rfl)
      fun pre u s hs => ?_).mono fun s hs => hs.implements
    rw [List.map_append, List.map_singleton, List.reverse_append]
    exact yields_updateT0_record u hs

/-! ### Learning -/

/-- A branch is predicted and then resolved; the mispredictions of the branch
    at `PC` are counted. -/
def resolve (PC : UINT32) (acc : State2level × Nat) (u : UINT32 × Bool) :
    Option (State2level × Nat) := do
  let dir ← GetPrediction2level u.1 acc.1
  let s ← UpdatePredictor2level u.1 u.2 acc.1
  return (s, if u.1 = PC ∧ dir ≠ u.2 then acc.2 + 1 else acc.2)

/-- The outcomes of one branch, in order. -/
def ownOutcomes (PC : UINT32) (branches : List (UINT32 × Bool)) : List Bool :=
  (branches.filter fun u => u.1 = PC).map Prod.snd

/-- No other branch uses the history or the counters of the branch at `PC`. -/
def SharesNothing (PC : UINT32) (branches : List (UINT32 × Bool)) : Prop :=
  ∀ u ∈ branches, u.1 = PC ∨ (bhtIndex u.1 ≠ bhtIndex PC ∧ phtIndex u.1 ≠ phtIndex PC)

theorem unsigned_small {c : Nat} (hc : c ≤ 3) :
    (!decide (BitVec.ofInt 32 (c : Int) = 0 ∨ BitVec.ofInt 32 (c : Int) = 1)) = decide (2 ≤ c) := by
  -- Four counters, so all of them can be tried.
  have hall : ∀ c : Fin 4, (!decide (BitVec.ofInt 32 (c.val : Int) = 0 ∨
      BitVec.ofInt 32 (c.val : Int) = 1)) = decide (2 ≤ c.val) := by decide
  exact hall ⟨c, Nat.lt_succ_of_le hc⟩

/-- The prediction is the one of the tables. -/
theorem yields_prediction2level {s : State2level} {es : List (Event (Fin 512) (Fin 8))}
    (u : UINT32 × Bool) (h : Holds s.papbht s.pappht (pap.after es)) :
    Yields (GetPrediction2level u.1 s) fun dir =>
      dir = pap.predict (pap.after es) (papEvent u).first (papEvent u).second := by
  refine (s.papbht.yields_get _ (bhtIndex_lt u.1)).bind fun pattern hpattern => ?_
  refine (s.pappht.yields_get _ (phtIndex_lt u.1)).bind fun pht hpht => ?_
  subst hpattern hpht
  have hrow : (s.papbht.cell ⟨_, bhtIndex_lt u.1⟩).toNat < 64 := h.history_lt _
  refine (CArray.yields_get _ _ hrow).bind fun mode hmode => .ret ?_
  subst hmode
  rw [h.counter, unsigned_small (TwoLevel.Shape.counter_le (S := pap) _ _ es),
    TwoLevel.Shape.predict, ← h.history]
  rfl

theorem papEvent_first_iff {PC : UINT32} {u : UINT32 × Bool} :
    (papEvent u).first = (papEvent (PC, true)).first ↔ bhtIndex u.1 = bhtIndex PC := by
  rw [Fin.ext_iff, ← BitVec.toNat_inj]
  rfl

theorem papEvent_second_iff {PC : UINT32} {u : UINT32 × Bool} :
    (papEvent u).second = (papEvent (PC, true)).second ↔ phtIndex u.1 = phtIndex PC := by
  rw [Fin.ext_iff, ← BitVec.toNat_inj]
  rfl

/-- The count is the one of the reference. -/
theorem yields_resolve_run (PC : UINT32) (branches : List (UINT32 × Bool))
    (halone : SharesNothing PC branches) :
    Yields (branches.foldlM (resolve PC) (InitPredictor2level, 0)) fun acc =>
      acc.2 = pap.missed (papEvent (PC, true)).first (papEvent (PC, true)).second
        (branches.map papEvent).reverse := by
  refine (Yields.foldlM (fun pre (acc : State2level × Nat) =>
    Holds acc.1.papbht acc.1.pappht (pap.after (pre.map papEvent).reverse) ∧
      (SharesNothing PC pre → acc.2 = pap.missed (papEvent (PC, true)).first
        (papEvent (PC, true)).second (pre.map papEvent).reverse)) branches
    ⟨holds_initial pap rfl, fun _ => rfl⟩ fun pre u acc hacc => ?_).mono
    fun acc hacc => hacc.2 halone
  refine (yields_prediction2level u hacc.1).bind fun dir hdir => ?_
  refine (yields_update2level u hacc.1).bind fun s' hs' => .ret ?_
  rw [List.map_append, List.map_singleton, List.reverse_append]
  refine ⟨hs', fun hpre => ?_⟩
  have hcount := hacc.2 fun v hv => hpre v (List.mem_append_left _ hv)
  rw [List.reverse_singleton, List.singleton_append, TwoLevel.Shape.missed, ← hcount]
  -- A branch uses the two entries exactly when it is the one that is counted.
  rcases hpre u (List.mem_append_right _ (List.mem_singleton_self u)) with hu | ⟨hu, -⟩
  · have hb := papEvent_first_iff.mpr (congrArg bhtIndex hu)
    have ht := papEvent_second_iff.mpr (congrArg phtIndex hu)
    rw [hb, ht] at hdir
    have hd : (papEvent u).dir = u.2 := rfl
    simp only [hu, hb, ht, hd, true_and, ← hdir]
    split_ifs <;> rfl
  · rw [if_neg fun h => hu (congrArg bhtIndex h.1),
      if_neg fun h => hu (papEvent_first_iff.mp h.1), Nat.add_zero]

/-- A branch that shares nothing and whose outcomes fit the history is
    mispredicted at most six times while its history fills, and twice for each
    history it has after that. -/
theorem pattern_learned (PC : UINT32) (x : Nat → Bool) (hfits : pap.Fits x)
    (branches : List (UINT32 × Bool)) (n : Nat)
    (hown : ownOutcomes PC branches = (List.range n).map x)
    (halone : SharesNothing PC branches) :
    Yields (branches.foldlM (resolve PC) (InitPredictor2level, 0)) fun acc =>
      acc.2 ≤ 6 + 2 * pap.windows x := by
  refine (yields_resolve_run PC branches halone).mono fun acc hacc => ?_
  rw [hacc]
  refine TwoLevel.Shape.missed_le_of_fits hfits (fun e he => ?_) (n := n) ?_
  · rcases List.mem_map.mp (List.mem_reverse.mp he) with ⟨u, hu, rfl⟩
    rcases halone u hu with hPC | ⟨hb, ht⟩
    · exact Or.inl ⟨papEvent_first_iff.mpr (congrArg bhtIndex hPC),
        papEvent_second_iff.mpr (congrArg phtIndex hPC)⟩
    · exact Or.inr ⟨fun h => hb (papEvent_first_iff.mp h), fun h => ht (papEvent_second_iff.mp h)⟩
  · rw [← hown, ownOutcomes, TwoLevel.outcomesAt, List.filter_reverse, List.map_reverse,
      List.filter_map, List.map_map]
    have hsame : branches.filter (fun u => u.1 = PC) =
        branches.filter ((fun e => decide (e.first = (papEvent (PC, true)).first)) ∘ papEvent) := by
      refine List.filter_congr fun u hu => ?_
      rw [Function.comp_apply, decide_eq_decide, papEvent_first_iff]
      refine ⟨congrArg bhtIndex, fun h => ?_⟩
      rcases halone u hu with hPC | ⟨hb, -⟩
      · exact hPC
      · exact absurd h hb
    rw [hsame]
    rfl

/-- Taken twice and then not taken, over and over. -/
def twoOfThree (i : Nat) : Bool := decide (i % 3 ≠ 2)

/-- Two outcomes tell the place in the period, so six do. -/
theorem fits_twoOfThree : pap.Fits twoOfThree := by
  intro i j h
  have hfirst : decide (i % 3 ≠ 2) = decide (j % 3 ≠ 2) := congrFun h (0 : Fin 6)
  have hsecond : decide ((i + 1) % 3 ≠ 2) = decide ((j + 1) % 3 ≠ 2) := congrFun h (1 : Fin 6)
  change decide ((i + 6) % 3 ≠ 2) = decide ((j + 6) % 3 ≠ 2)
  rw [decide_eq_decide] at hfirst hsecond ⊢
  omega

/-- Thirty occurrences of a branch with that pattern, and another branch
    after each of them. -/
def interleaved : List (UINT32 × Bool) :=
  (List.range 30).flatMap fun i => [(0x40, twoOfThree i), (0x4c, i % 2 = 0)]

/-- The pattern has three histories, so no more than twelve of the thirty are
    mispredicted. -/
theorem pattern_learned_twoOfThree :
    Yields (interleaved.foldlM (resolve 0x40) (InitPredictor2level, 0)) fun acc =>
      acc.2 ≤ 6 + 2 * 3 := by
  have halone : SharesNothing 0x40 interleaved := by
    intro u hu
    rcases List.mem_flatMap.mp hu with ⟨i, -, hu⟩
    rcases List.mem_cons.mp hu with rfl | hu
    · exact Or.inl rfl
    · -- The other branch has a history and counters of its own.
      have hbht : bhtIndex 0x4c ≠ bhtIndex 0x40 := by decide
      have hpht : phtIndex 0x4c ≠ phtIndex 0x40 := by decide
      rw [List.mem_singleton.mp hu]
      exact Or.inr ⟨hbht, hpht⟩
  have hown : ownOutcomes 0x40 interleaved = (List.range 30).map twoOfThree := by
    decide +kernel
  have hperiod : pap.windows twoOfThree ≤ 3 :=
    TwoLevel.Shape.windows_le_of_periodic (by decide) fun i => by
      rw [twoOfThree, twoOfThree, Nat.add_mod_right]
  have h := pattern_learned 0x40 twoOfThree fits_twoOfThree interleaved 30 hown halone
  refine h.mono fun acc hacc => ?_
  omega

end Predictor

end MicroArch
