import MicroArch.Predictor.History

/-!
# The Selection of a Prediction

What a tagged predictor should answer, stated over the set of matching
tables, and when the prediction answers that.

The longest matching table answers unless its counter is weak or its row not
useful; then the next longest one should, or T0 when there is none. The
prediction finds both tables but takes the alternate direction from the
counter of the first. With one match or none this makes no difference, and
with a trusted provider the alternate is not asked.

The reference is stated over `Matches` and has no scans in it, so it says what
the comments of the source say. What the scans find is known from
`Predictor.Provider`, and the comparison is a case distinction: no match, one
match, or two, and in the last case the provider is trusted or not. Only there
does the slip matter, and only if the two counters disagree.

## Main definitions

* `Entry.Trusted`: The row decides by itself.
* `selectedDirection`: The direction that should be predicted.
* `AlternateDiffers`: The two longest matching tables disagree, and the first
  is not trusted.

## Theorems

* `getPrediction_selects_iff`: The prediction is the selected direction exactly
  when the alternate does not differ.
-/

namespace MicroArch

namespace Predictor

variable {PC : UINT32} {s : State}

/-- The counter is not weak and the row is useful. -/
def Entry.Trusted (e : Entry) : Prop := e.pred ≠ 3 ∧ e.pred ≠ 4 ∧ e.useful = 1

instance (e : Entry) : Decidable e.Trusted := inferInstanceAs (Decidable (_ ∧ _ ∧ _))

/-- The direction of the longest matching table below `i`, or of T0. -/
def alternateDirection (PC : UINT32) (s : State) (i : Nat) : Option Bool :=
  match Latest.latest (Matches PC s) i with
  | none => getT0 PC s
  | some j => (matching PC s j).map fun e => direction e.pred

/-- The direction of the longest matching table if its row is trusted, and
    the alternate direction otherwise. -/
def selectedDirection (PC : UINT32) (s : State) : Option Bool :=
  match Latest.latest (Matches PC s) NUM_TOTAL_TABLES with
  | none => getT0 PC s
  | some i => do
    let e ← matching PC s i
    if e.Trusted then return direction e.pred else alternateDirection PC s i

/-- At least two tables match, the row of the longest is not trusted, and the
    counters of the two longest have different directions. -/
def AlternateDiffers (PC : UINT32) (s : State) : Prop :=
  ∃ i j e e', Latest.latest (Matches PC s) NUM_TOTAL_TABLES = some i ∧
    Latest.latest (Matches PC s) i = some j ∧ matching PC s i = some e ∧
    matching PC s j = some e' ∧ ¬ e.Trusted ∧ direction e.pred ≠ direction e'.pred

/-- The test of the source for a counter that does not decide by itself. -/
theorem Entry.InRange.weak_iff {e : Entry} (h : e.InRange) :
    ((e.pred > 2 ∧ e.pred < 5) ∨ e.useful = 0) ↔ ¬ e.Trusted := by
  have huseful := h.useful
  unfold Entry.Trusted
  omega

/-- Without a match nothing differs. -/
theorem not_alternateDiffers_of_none
    (h : Latest.latest (Matches PC s) NUM_TOTAL_TABLES = none) : ¬ AlternateDiffers PC s := by
  intro hcase
  rcases hcase with ⟨i, j, e, e', hi, -⟩
  rw [h] at hi
  exact absurd hi (by simp only [reduceCtorEq, not_false_eq_true])

/-- With a provider the condition is about its row and the next match. -/
theorem alternateDiffers_iff {i : Nat} {e : Entry}
    (hi : Latest.latest (Matches PC s) NUM_TOTAL_TABLES = some i)
    (he : matching PC s i = some e) :
    AlternateDiffers PC s ↔ ¬ e.Trusted ∧ ∃ j e', Latest.latest (Matches PC s) i = some j ∧
      matching PC s j = some e' ∧ direction e.pred ≠ direction e'.pred := by
  constructor
  · intro hcase
    rcases hcase with ⟨i', j, e₁, e', hi', hj, he₁, he', htrust, hdir⟩
    rw [hi, Option.some.injEq] at hi'
    subst hi'
    rw [he, Option.some.injEq] at he₁
    subst he₁
    exact ⟨htrust, j, e', hj, he', hdir⟩
  · intro hcase
    rcases hcase with ⟨htrust, j, e', hj, he', hdir⟩
    exact ⟨i, j, e, e', hi, hj, he, he', htrust, hdir⟩

theorem selectedDirection_of_none (hi : Latest.latest (Matches PC s) NUM_TOTAL_TABLES = none) :
    selectedDirection PC s = getT0 PC s := by
  unfold selectedDirection
  rw [hi]

theorem selectedDirection_of_trusted {i : Nat} {e : Entry}
    (hi : Latest.latest (Matches PC s) NUM_TOTAL_TABLES = some i)
    (he : matching PC s i = some e) (htrust : e.Trusted) :
    selectedDirection PC s = some (direction e.pred) := by
  unfold selectedDirection
  rw [hi]
  simp only [he, Option.bind_eq_bind, Option.bind_some, if_pos htrust]
  rfl

theorem selectedDirection_of_not_trusted {i : Nat} {e : Entry}
    (hi : Latest.latest (Matches PC s) NUM_TOTAL_TABLES = some i)
    (he : matching PC s i = some e) (htrust : ¬ e.Trusted) :
    selectedDirection PC s = alternateDirection PC s i := by
  unfold selectedDirection
  rw [hi]
  simp only [he, Option.bind_eq_bind, Option.bind_some, if_neg htrust]

/-- In every reachable state the prediction is the selected direction exactly
    when the alternate does not differ from the provider. -/
theorem getPrediction_selects_iff (calls : List Call) (PC : UINT32) :
    ∃ s b s', runCalls calls = some s ∧ GetPrediction PC s = some (b, s') ∧
      (selectedDirection PC s = some b ↔ ¬ AlternateDiffers PC s) := by
  rcases yields_runCalls calls with ⟨s, hrun, hsound⟩
  have hs := hsound.inRange
  rcases yields_getT0 PC hs with ⟨t0, ht0, -⟩
  rcases hi : Latest.latest (Matches PC s) NUM_TOTAL_TABLES with _ | i
  · refine ⟨s, t0, _, hrun, getPrediction_default hs ht0 hi, ?_⟩
    rw [selectedDirection_of_none hi]
    exact ⟨fun _ => not_alternateDiffers_of_none hi, fun _ => ht0⟩
  · rcases getPrediction_tagged hs ht0 hi with ⟨e, index, he, hrow, hget⟩
    refine ⟨s, _, _, hrun, hget _ rfl, ?_⟩
    rw [alternateDiffers_iff hi he]
    simp only [(hrow.inRange hs).weak_iff]
    -- A trusted row decides in both; otherwise the alternates are compared.
    by_cases htrust : e.Trusted
    · rw [if_neg fun h => h htrust, selectedDirection_of_trusted hi he htrust]
      exact ⟨fun _ h => h.1 htrust, fun _ => rfl⟩
    · rw [if_pos htrust, selectedDirection_of_not_trusted hi he htrust]
      unfold alternateDirection
      rcases hj : Latest.latest (Matches PC s) i with _ | j
      · -- A single match: the alternate is T0 in both.
        rw [if_pos rfl]
        refine ⟨fun _ hdiff => ?_, fun _ => ht0⟩
        rcases hdiff with ⟨-, j, e', hj', -⟩
        exact absurd hj' (by simp only [reduceCtorEq, not_false_eq_true])
      · rcases matching_of_matches ((Latest.latest_eq_some _ _).mp hj).2.1 with ⟨e', he'⟩
        -- With a second match the prediction is still the provider's direction.
        rw [if_neg (by simp only [reduceCtorEq, not_false_eq_true])]
        simp only [he', Option.map_some, Option.some.injEq]
        refine ⟨fun hdir hdiff => ?_, fun h => ?_⟩
        · rcases hdiff with ⟨-, j', e₂, hj', he₂, hne⟩
          subst hj'
          rw [he', Option.some.injEq] at he₂
          exact hne (by rw [← he₂, hdir])
        · by_contra hdir
          exact h ⟨htrust, j, e', rfl, he', fun heq => hdir heq.symm⟩

/-- After one taken branch the row zero of the longest table is weakly taken
    and matches a second branch, and so does the untrained row zero of the
    next table, which is weakly not taken. The prediction is taken. -/
theorem alternate_from_provider :
    ∃ s b s', runCalls [.getPrediction 0, .updatePredictor 0 true] = some s ∧
      GetPrediction 4099 s = some (b, s') ∧ selectedDirection 4099 s ≠ some b := by
  have heval : ((runCalls [.getPrediction 0, .updatePredictor 0 true]).bind fun s =>
      (GetPrediction 4099 s).map fun r => decide (selectedDirection 4099 s = some r.1))
      = some false := by
    decide +kernel
  rcases Option.bind_eq_some_iff.mp heval with ⟨s, hrun, hmap⟩
  rcases Option.map_eq_some_iff.mp hmap with ⟨⟨b, s'⟩, hget, hne⟩
  exact ⟨s, b, s', hrun, hget, of_decide_eq_false hne⟩

end Predictor

end MicroArch
