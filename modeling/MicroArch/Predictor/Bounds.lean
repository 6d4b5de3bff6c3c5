import MicroArch.Predictor.Frame

/-!
# The Ranges of All Cells

What every cell of the predictor holds between two calls, in the bounds of
its C type's use: the counters, the tags and the local histories, and also
the bits of the history and of the registers, which `InRange` leaves out.

The provider is set by a prediction and kept by an update. Before the first
prediction it is what the initialization left, which writes zero to
`providerIndex` and not the `-1` that a prediction without a match writes.

The ranges come out of the invariants of two other modules: `InRange`, which
keeps every array access inside, and `Folded`, by which the bits of the history
are bits because they are outcomes. Only the provider needs an induction of its
own, since what holds of it depends on whether a prediction was made.

## Main definitions

* `CellsInRange`: The ranges of the arrays and of `useCounter`.
* `ProviderInRange`: The provider that a prediction leaves.

## Theorems

* `calls_stay_in_range`: Both, after any sequence of calls.
-/

namespace MicroArch

namespace Predictor

open Window

/-- Every cell is in range, and the counter of successes and failures is
    between its bounds. -/
structure CellsInRange (s : State) : Prop where
  T0Pht : ∀ i j, 0 ≤ (s.T0Pht.cell i).cell j ∧ (s.T0Pht.cell i).cell j ≤ 7
  T0Phrt : ∀ i, (s.T0Phrt.cell i).toNat ≤ 511
  pred : ∀ k i, 0 ≤ (s.row k i).pred ∧ (s.row k i).pred ≤ 7
  tag : ∀ k i, (s.row k i).tag.toNat ≤ 1023
  useful : ∀ k i, (s.row k i).useful = 0 ∨ (s.row k i).useful = 1
  GHR : ∀ i, s.GHR.cell i = 0 ∨ s.GHR.cell i = 1
  CSR : ∀ t n j, (s.CSR t n).cell j = 0 ∨ (s.CSR t n).cell j = 1
  useCounter : 1 ≤ s.useCounter ∧ s.useCounter ≤ 255

/-- The provider is T0 without a row, or a row of a tagged table. -/
def ProviderInRange (s : State) : Prop :=
  (s.providerComp = 0 ∧ s.providerIndex = -1) ∨
    (1 ≤ s.providerComp ∧ s.providerComp ≤ 7 ∧ 0 ≤ s.providerIndex ∧ s.providerIndex ≤ 1023)

instance (s : State) : Decidable (ProviderInRange s) := inferInstanceAs (Decidable (_ ∨ _))

theorem Sound.cellsInRange {outs : List Bool} {s : State} (h : Sound outs s) : CellsInRange s where
  T0Pht i j := by
    have hcell := h.inRange.pht i j
    exact ⟨hcell.1, Int.lt_add_one_iff.mp hcell.2⟩
  T0Phrt i := Nat.le_of_lt_succ (h.inRange.phrt i)
  pred k i := by
    have hrow := (h.inRange.rows k i).pred
    exact ⟨hrow.1, Int.lt_add_one_iff.mp hrow.2⟩
  tag k i := Nat.le_of_lt_succ (h.inRange.rows k i).tag
  useful k i := (h.inRange.rows k i).useful
  GHR i := by
    rw [h.folded.GHR, history]
    cases outs.getD i false with
    | false => exact Or.inl rfl
    | true => exact Or.inr rfl
  CSR t n j := by
    rw [h.folded.CSR]
    refine foldXor_bit _ _ _ _ fun i => ?_
    rw [history]
    cases outs.getD i false with
    | false => exact Or.inl rfl
    | true => exact Or.inr rfl
  useCounter := ⟨h.useCounter, h.inRange.useCounter.2⟩

/-- A prediction leaves a provider in range. -/
theorem yields_getPrediction_provider {s : State} (PC : UINT32) (hs : InRange s) :
    Yields (GetPrediction PC s) fun r => ProviderInRange r.2 := by
  rcases yields_getT0 PC hs with ⟨t0, ht0, -⟩
  rcases hp : Latest.latest (Matches PC s) NUM_TOTAL_TABLES with _ | i
  · -- No table matches: T0 provides, and its row is -1.
    rw [getPrediction_default hs ht0 hp]
    exact .ret (Or.inl ⟨rfl, rfl⟩)
  · -- A table matches: its number and the row that was found.
    rcases getPrediction_tagged hs ht0 hp with ⟨e, index, -, hrow, heq⟩
    rcases (Latest.latest_eq_some _ _).mp hp with ⟨hlt, hmatch, -⟩
    have hindex := hrow.index
    rw [heq _ rfl]
    exact .ret (Or.inr ⟨pos_of_matches hmatch, Nat.lt_succ_iff.mp hlt, hindex.1,
      Int.lt_add_one_iff.mp hindex.2⟩)

/-- The provider after a sequence of calls. -/
structure ProviderAfter (calls : List Call) (s : State) : Prop where
  predicted : ∀ PC, .getPrediction PC ∈ calls → ProviderInRange s
  initial : (∀ PC, .getPrediction PC ∉ calls) → s.providerComp = 0 ∧ s.providerIndex = 0

theorem yields_run_provider {pre : List Call} {s : State} (c : Call)
    (h : Sound (outcomes pre) s) (hprov : ProviderAfter pre s) :
    Yields (c.run s) (ProviderAfter (pre ++ [c])) := by
  cases c with
  | getPrediction PC =>
      -- A prediction sets the provider, whatever it was before.
      change Yields ((GetPrediction PC s).map Prod.snd) _
      refine (yields_getPrediction_provider PC h.inRange).map fun r hr =>
        ⟨fun _ _ => hr, fun hnone => ?_⟩
      exact absurd (List.mem_append_right pre List.mem_cons_self) (hnone PC)
  | updatePredictor PC dir =>
      refine (yields_updatePredictor_effect PC dir h).mono fun s' h' => ?_
      -- An update is no prediction, and it keeps the provider.
      have hmem : ∀ PC', Call.getPrediction PC' ∈ pre ++ [.updatePredictor PC dir]
          ↔ Call.getPrediction PC' ∈ pre := by
        simp only [List.mem_append, List.mem_singleton, reduceCtorEq, or_false, implies_true]
      have hsame := h'.1
      refine ⟨fun PC' hin => ?_, fun hnone => ?_⟩
      · have hin' := hprov.predicted PC' ((hmem PC').mp hin)
        rwa [ProviderInRange, hsame.comp, hsame.index, ← ProviderInRange]
      · rw [hsame.comp, hsame.index]
        exact hprov.initial fun PC' hin => hnone PC' ((hmem PC').mpr hin)

/-- Every sequence of calls has a result, so that no array is indexed outside
    its bounds, and leaves every cell in range. From the first prediction on
    so is the provider; before it both of its numbers are zero. -/
theorem calls_stay_in_range (calls : List Call) :
    ∃ s, runCalls calls = some s ∧ CellsInRange s ∧
      (∀ PC, .getPrediction PC ∈ calls → ProviderInRange s) ∧
      ((∀ PC, .getPrediction PC ∉ calls) → s.providerComp = 0 ∧ s.providerIndex = 0) := by
  have hrun : Yields (runCalls calls) fun s =>
      Sound (outcomes calls) s ∧ ProviderAfter calls s := by
    refine Yields.foldlM (fun pre s => Sound (outcomes pre) s ∧ ProviderAfter pre s) calls
      ⟨sound_initial, ⟨fun PC hin => ?_, fun _ => ⟨rfl, rfl⟩⟩⟩ fun pre c s h => ?_
    · exact absurd hin List.not_mem_nil
    · refine Yields.and ?_ (yields_run_provider c h.1 h.2)
      rw [outcomes_append]
      exact yields_run c h.1
  rcases hrun with ⟨s, heq, hsound, hprov⟩
  exact ⟨s, heq, hsound.cellsInRange, hprov.predicted, hprov.initial⟩

/-- The initialization leaves T0 as the provider, with row zero. -/
theorem provider_before_prediction :
    ¬ ∀ calls, ∃ s, runCalls calls = some s ∧ CellsInRange s ∧ ProviderInRange s := by
  intro h
  rcases h [] with ⟨s, hrun, -, hprov⟩
  have heq : s = InitPredictor := (Option.some.inj hrun).symm
  rw [heq] at hprov
  -- Row zero is neither -1 nor the row of a tagged table, since T0 is the provider.
  exact absurd hprov (by decide)

end Predictor

end MicroArch
