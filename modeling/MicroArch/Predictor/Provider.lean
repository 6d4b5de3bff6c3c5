import MicroArch.Library.Latest
import MicroArch.Predictor.Range

/-!
# The Provider of a Prediction

Which of the tagged tables a prediction is made from. A table number matches
a branch when the branch's row of that table holds the branch's tag. The
prediction finds, by its parallel arrays and two nested scans, the greatest
matching number, and below it the next one; here the two are `latest` at the
bound eight and at the provider.

The lookup is followed table by table with `Lookup.Sound`, which compares the
local arrays with `matching` at the numbers up to the table reached.

A cell that no table has written holds the `-1` it was declared with, and the
scans take that for no match. So they find the right number only because no
counter is negative, which is one of the ranges. Number zero stands for T0,
which never matches, and the scans do not look at it.

## Main definitions

* `matching`: The row that a table number contributes to a prediction.
* `Matches`: The table number contributes one.
* `Lookup.Sound`: The local arrays after the first tables.

## Theorems

* `findMatch_eq`: The scan finds the latest matching number.
* `getPrediction_default`: A prediction without a match.
* `getPrediction_tagged`: A prediction with a provider.
* `yields_getPrediction`: A prediction stays inside all arrays.
-/

namespace MicroArch

namespace Predictor

variable {PC : UINT32} {s : State}

/-- The row of the table with that number, if it holds the branch's tag. -/
def matching (PC : UINT32) (s : State) (n : Nat) : Option Entry := do
  let k ← tageTable n
  let tag ← tagT k PC s
  let ind ← indT k PC s
  let entry ← (s.T k).get ind.toNat
  if entry.tag = tag then return entry else none

/-- The table with that number holds the branch's tag. -/
def Matches (PC : UINT32) (s : State) (n : Nat) : Prop := (matching PC s n).isSome

instance : DecidablePred (Matches PC s) := fun _ => inferInstanceAs (Decidable (_ = true))

theorem tageTable_succ (k : Fin NUM_TAGE_TABLES) : tageTable (k.val + 1) = some k := by
  rw [tageTable, dif_pos ⟨Nat.succ_pos _, k.isLt⟩]
  rfl

theorem not_matches_zero : ¬ Matches PC s 0 := by
  unfold Matches
  exact Bool.false_ne_true

theorem matches_of_matching {n : Nat} {e : Entry} (h : matching PC s n = some e) :
    Matches PC s n := by
  rw [Matches, h]
  rfl

theorem matching_of_matches {n : Nat} (h : Matches PC s n) : ∃ e, matching PC s n = some e :=
  Option.isSome_iff_exists.mp h

/-- The row and the index that a table number contributes are those of the
    branch in that table. -/
def RowOf (PC : UINT32) (s : State) (n : Nat) (i : Int) (e : Entry) : Prop :=
  ∃ k ind, tageTable n = some k ∧ indT k PC s = some ind ∧
    ∃ h : ind.toNat < NUM_TAGE_ENTRIES, i = ind.toNat ∧ e = (s.T k).cell ⟨ind.toNat, h⟩

theorem RowOf.index {n : Nat} {i : Int} {e : Entry} (h : RowOf PC s n i e) :
    0 ≤ i ∧ i < NUM_TAGE_ENTRIES := by
  rcases h with ⟨k, ind, -, -, hlt, rfl, -⟩
  omega

theorem RowOf.inRange {n : Nat} {i : Int} {e : Entry} (h : RowOf PC s n i e) (hs : InRange s) :
    e.InRange := by
  rcases h with ⟨k, ind, -, -, hlt, -, rfl⟩
  exact hs.rows k _

/-- What a lookup does at one table. -/
theorem lookup_effect (PC : UINT32) (s : State) (k : Fin NUM_TAGE_TABLES) :
    (matching PC s (k.val + 1) = none ∧ ∀ acc, lookup PC s acc k = some acc) ∨
    ∃ i e, matching PC s (k.val + 1) = some e ∧ RowOf PC s (k.val + 1) i e ∧
      ∀ acc, lookup PC s acc k = some
        { pred := acc.pred.update k.succ e.pred, index := acc.index.update k.succ i
          useful := acc.useful.update k.succ e.useful } := by
  rcases yields_tagT k PC s with ⟨tag, htag, -⟩
  rcases yields_indT k PC s with ⟨ind, hind, hlt⟩
  have hget := (s.T k).get_natCast ind.toNat hlt
  -- Both sides read the same row and make the same test.
  by_cases htagged : ((s.T k).cell ⟨ind.toNat, hlt⟩).tag = tag
  · refine Or.inr ⟨ind.toNat, _, ?_, ⟨k, ind, tageTable_succ k, hind, hlt, rfl, rfl⟩, fun acc => ?_⟩
    · rw [matching, tageTable_succ]
      simp only [htag, hind, hget, Option.bind_eq_bind, Option.bind_some, if_pos htagged]
      rfl
    · rw [lookup]
      simp only [htag, hind, hget, Option.bind_eq_bind, Option.bind_some, if_pos htagged]
      rfl
  · refine Or.inl ⟨?_, fun acc => ?_⟩
    · rw [matching, tageTable_succ]
      simp only [htag, hind, hget, Option.bind_eq_bind, Option.bind_some, if_neg htagged]
    · rw [lookup]
      simp only [htag, hind, hget, Option.bind_eq_bind, Option.bind_some, if_neg htagged]
      rfl

/-- The local arrays after the tables with the first `m` numbers. -/
structure Lookup.Sound (PC : UINT32) (s : State) (m : Nat) (acc : Lookup) : Prop where
  hit : ∀ n : Fin NUM_TOTAL_TABLES, n.val ≤ m → ∀ e, matching PC s n = some e →
    acc.pred.cell n = e.pred ∧ acc.useful.cell n = e.useful ∧ RowOf PC s n (acc.index.cell n) e
  miss : ∀ n : Fin NUM_TOTAL_TABLES, 0 < n.val → (n.val ≤ m → matching PC s n = none) →
    acc.pred.cell n = -1

theorem Lookup.sound_initial (PC : UINT32) (s : State) (t0 : Bool) :
    Lookup.Sound PC s 0 (Lookup.initial t0) where
  hit n hn e he := by
    have hzero : n.val = 0 := Nat.le_zero.mp hn
    rw [hzero] at he
    exact absurd (matches_of_matching he) not_matches_zero
  miss n hn _ := by
    have hne : n ≠ 0 := fun h => absurd hn (by rw [h]; decide)
    rw [Lookup.initial, CArray.update_of_ne _ _ hne, CArray.replicate_cell]

/-- The lookup at one table extends the comparison by its number. -/
theorem Lookup.Sound.lookup {k : Fin NUM_TAGE_TABLES} {acc : Lookup}
    (h : Lookup.Sound PC s k acc) :
    Yields (Predictor.lookup PC s acc k) (Lookup.Sound PC s (k.val + 1)) := by
  rcases lookup_effect PC s k with ⟨hnone, heq⟩ | ⟨i, e, hsome, hrow, heq⟩
  · rw [heq]
    refine .ret ⟨fun n hn e he => h.hit n ?_ e he, fun n hn hnm => h.miss n hn fun hle => ?_⟩
    · by_contra hlt
      rw [show n.val = k.val + 1 by omega, hnone] at he
      exact absurd he (by simp only [reduceCtorEq, not_false_eq_true])
    · exact hnm (by omega)
  · rw [heq]
    refine .ret ⟨fun n hn e' he' => ?_, fun n hn hnm => ?_⟩
    · by_cases hnk : n = k.succ
      · subst hnk
        rw [Fin.val_succ, hsome, Option.some.injEq] at he'
        subst he'
        simp only [CArray.update_self, Fin.val_succ]
        exact ⟨trivial, trivial, hrow⟩
      · have hne : n.val ≠ k.val + 1 := fun hv => hnk (Fin.ext hv)
        simp only [CArray.update_of_ne _ _ hnk]
        exact h.hit n (by omega) e' he'
    · by_cases hnk : n = k.succ
      · subst hnk
        have hnone := hnm (Nat.le_refl _)
        rw [Fin.val_succ, hsome] at hnone
        exact absurd hnone (by simp only [reduceCtorEq, not_false_eq_true])
      · simp only [CArray.update_of_ne _ _ hnk]
        exact h.miss n hn fun hle => hnm (by omega)

/-- The lookup of a branch in all tables. -/
theorem yields_lookup (PC : UINT32) (s : State) (t0 : Bool) :
    Yields ((List.finRange NUM_TAGE_TABLES).foldlM (lookup PC s) (Lookup.initial t0))
      (Lookup.Sound PC s NUM_TAGE_TABLES) :=
  Yields.foldlM_finRange (Lookup.Sound PC s) (Lookup.sound_initial PC s t0)
    fun _ _ h => h.lookup

/-- A scan of the counters downwards finds the latest matching number. -/
theorem findMatch_eq {acc : Lookup} (h : Lookup.Sound PC s NUM_TAGE_TABLES acc)
    (hs : InRange s) (i : Nat) (hi : i ≤ NUM_TAGE_TABLES) :
    findMatch acc.pred i = some ((Latest.latest (Matches PC s) (i + 1)).getD 0) := by
  -- By induction on the scan, from the bound down to zero.
  induction i with
  | zero => rw [findMatch, Latest.latest_succ_neg not_matches_zero]; rfl
  | succ i ih =>
      have hget := acc.pred.get_natCast (i + 1) (Nat.lt_succ_of_le hi)
      rw [findMatch, hget]
      simp only [Option.bind_eq_bind, Option.bind_some]
      rcases hm : matching PC s (i + 1) with _ | e
      · have hnot : ¬ Matches PC s (i + 1) := by
          rw [Matches, hm]
          exact Bool.false_ne_true
        have hmiss := h.miss ⟨i + 1, Nat.lt_succ_of_le hi⟩ (Nat.succ_pos i) fun _ => hm
        rw [hmiss, if_neg (fun hne => hne rfl), Latest.latest_succ_neg hnot]
        exact ih (by omega)
      · rcases h.hit ⟨i + 1, Nat.lt_succ_of_le hi⟩ hi e hm with ⟨hpred, -, hrow⟩
        -- A counter in range is not the mark of a table without a match.
        have hne : e.pred ≠ -1 := by
          have := (hrow.inRange hs).pred
          omega
        rw [hpred, if_pos hne, Latest.latest_succ_pos (matches_of_matching hm)]
        rfl

/-- A matching number is that of a tagged table. -/
theorem pos_of_matches {n : Nat} (h : Matches PC s n) : 0 < n := by
  rcases Nat.eq_zero_or_pos n with rfl | hpos
  · exact absurd h not_matches_zero
  · exact hpos

/-- Without a match the prediction is that of T0. -/
theorem getPrediction_default (hs : InRange s) {t0 : Bool} (ht0 : getT0 PC s = some t0)
    (hnone : Latest.latest (Matches PC s) NUM_TOTAL_TABLES = none) :
    GetPrediction PC s = some (t0, { s with
      providerComp := 0, providerPred := t0, providerIndex := -1, altPred := t0 }) := by
  rcases yields_lookup PC s t0 with ⟨tables, hlookup, hsound⟩
  have hi := findMatch_eq hsound hs NUM_TAGE_TABLES (Nat.le_refl _)
  rw [hnone, Option.getD_none] at hi
  unfold GetPrediction
  simp only [ht0, hlookup, hi, Option.bind_eq_bind, Option.bind_some, if_true]
  rfl

/-- With a match the provider is the latest one. Its counter decides, unless
    it is weak or not useful; then the alternate does, which is T0's direction
    without a second match, and with one the provider's own. -/
theorem getPrediction_tagged (hs : InRange s) {t0 : Bool} (ht0 : getT0 PC s = some t0) {i : Nat}
    (hsome : Latest.latest (Matches PC s) NUM_TOTAL_TABLES = some i) :
    ∃ e index, matching PC s i = some e ∧ RowOf PC s i index e ∧ ∀ altPred,
      altPred = (if Latest.latest (Matches PC s) i = none then t0 else direction e.pred) →
      GetPrediction PC s = some
        (if (e.pred > 2 ∧ e.pred < 5) ∨ e.useful = 0 then altPred else direction e.pred,
          { s with providerComp := i, providerPred := direction e.pred, providerIndex := index
                   altPred := altPred }) := by
  rcases yields_lookup PC s t0 with ⟨tables, hlookup, hsound⟩
  rcases (Latest.latest_eq_some _ _).mp hsome with ⟨hlt, hmatch, -⟩
  have hpos := pos_of_matches hmatch
  rcases matching_of_matches hmatch with ⟨e, he⟩
  rcases hsound.hit ⟨i, hlt⟩ (Nat.lt_succ_iff.mp hlt) e he with ⟨hpred, huseful, hrow⟩
  refine ⟨e, _, he, hrow, fun altPred halt => ?_⟩
  have hi := findMatch_eq hsound hs NUM_TAGE_TABLES (Nat.le_refl _)
  rw [hsome, Option.getD_some] at hi
  have hj := findMatch_eq hsound hs (i - 1) ((Nat.sub_le i 1).trans (Nat.lt_succ_iff.mp hlt))
  rw [Nat.sub_add_cancel hpos] at hj
  -- The scan below the provider ends at zero exactly when there is no second match.
  have hzero : (Latest.latest (Matches PC s) i).getD 0 = 0
      ↔ Latest.latest (Matches PC s) i = none := by
    rcases hl : Latest.latest (Matches PC s) i with _ | j
    · exact ⟨fun _ => rfl, fun _ => rfl⟩
    · have hjpos := pos_of_matches ((Latest.latest_eq_some _ _).mp hl).2.1
      rw [Option.getD_some]
      refine ⟨fun h => absurd h (by omega), fun h => absurd h ?_⟩
      simp only [reduceCtorEq, not_false_eq_true]
  unfold GetPrediction
  simp only [ht0, hlookup, hi, hj, Option.bind_eq_bind, Option.bind_some,
    tables.pred.get_natCast i hlt, tables.index.get_natCast i hlt,
    tables.useful.get_natCast i hlt, hpred, huseful, hzero, ← halt]
  rw [if_neg (by omega)]
  rfl

/-- A prediction changes the provider only. -/
theorem yields_getPrediction (PC : UINT32) (hs : InRange s) :
    Yields (GetPrediction PC s) fun r => InRange r.2 ∧ ∃ comp pred index alt,
      r.2 = { s with
        providerComp := comp, providerPred := pred, providerIndex := index, altPred := alt } := by
  rcases yields_getT0 PC hs with ⟨t0, ht0, -⟩
  rcases hp : Latest.latest (Matches PC s) NUM_TOTAL_TABLES with _ | i
  · rw [getPrediction_default hs ht0 hp]
    refine .ret ⟨⟨hs.phrt, hs.pht, hs.rows, Nat.zero_le _, fun h => ?_, hs.useCounter⟩,
      _, _, _, _, rfl⟩
    exact absurd rfl h
  · rcases getPrediction_tagged hs ht0 hp with ⟨e, index, -, hrow, heq⟩
    have hlt := ((Latest.latest_eq_some _ _).mp hp).1
    rw [heq _ rfl]
    exact .ret ⟨⟨hs.phrt, hs.pht, hs.rows, Nat.lt_succ_iff.mp hlt, fun _ => hrow.index,
      hs.useCounter⟩, _, _, _, _, rfl⟩

end Predictor

end MicroArch
