import MicroArch.Predictor.Provider

/-!
# Training the Tagged Tables

The part of an update between T0 and the history: the provider's counter and
useful bit, the allocation of a new entry, and the clearing of useful bits.
All of it writes rows of the tagged tables, one at a time or all rows of a
table, so that its range lemmas go back to `yields_setRow` and
`inRange_clearUseful`.

The row the provider is trained in was left by the last prediction. The
update never computes it again, so that it is inside the table is part of
`InRange` and has to hold between the calls.

The steps are one function each in the model, in the order of the source, and a
step has one lemma, which says that it has a result, that the ranges hold of it,
and that the history was left alone. Which rows are written is not said here;
`Predictor.Frame` follows the same steps for that.

## Theorems

* `yields_setRow`: Writing a row in range keeps the ranges.
* `yields_updateProvider`: Training the provider stays inside its table.
* `yields_allocateOnMiss`: So does an allocation.
* `inRange_resetUseful`: Clearing all useful bits keeps the ranges.
-/

namespace MicroArch

namespace Predictor

variable {PC : UINT32} {s : State}

/-- The rows of the tables after one of them has been written. -/
theorem InRange.updateRow (hs : InRange s) {e : Entry} (he : e.InRange)
    (k k' : Fin NUM_TAGE_TABLES) (i j : Fin NUM_TAGE_ENTRIES) :
    ((Function.update s.T k ((s.T k).update i e) k').cell j).InRange := by
  by_cases hk : k' = k
  · subst hk
    rw [Function.update_self, CArray.update_cell]
    -- In the table that is written: the row itself, or another one.
    by_cases hj : j = i
    · rw [if_pos hj]
      exact he
    · rw [if_neg hj]
      exact hs.rows k' j
  · rw [Function.update_of_ne hk]
    exact hs.rows k' j

/-- A row in range may be written anywhere in a table. -/
theorem yields_setRow (k : Fin NUM_TAGE_TABLES) {i : Int} {e : Entry}
    (hi : 0 ≤ i ∧ i < NUM_TAGE_ENTRIES) (he : e.InRange) (hs : InRange s) :
    Yields (s.setRow k i e) fun s' => InRange s' ∧ SameHistory s s' := by
  rcases Int.eq_ofNat_of_zero_le hi.1 with ⟨n, rfl⟩
  refine ((s.T k).yields_set n e (Int.ofNat_lt.mp hi.2)).bind fun table htable => ?_
  subst htable
  exact .ret ⟨⟨hs.phrt, hs.pht, fun k' j => hs.updateRow he k k' _ j, hs.provider,
    hs.providerRow, hs.useCounter⟩, rfl, rfl⟩

/-- The row the last prediction left is inside the provider's table. -/
theorem yields_providerEntry (hs : InRange s) {k : Fin NUM_TAGE_TABLES}
    (hk : tageTable s.providerComp = some k) :
    (0 ≤ s.providerIndex ∧ s.providerIndex < NUM_TAGE_ENTRIES) ∧
      Yields ((s.T k).get s.providerIndex) Entry.InRange := by
  -- T0 is no tagged table, so the provider is one and its row is in range.
  have hne : s.providerComp ≠ 0 := by
    intro hzero
    rw [hzero] at hk
    exact absurd hk (by simp only [tageTable, Nat.lt_irrefl, false_and, dite_false,
      reduceCtorEq, not_false_eq_true])
  have hrow := hs.providerRow hne
  rcases Int.eq_ofNat_of_zero_le hrow.1 with ⟨n, hn⟩
  refine ⟨hrow, ?_⟩
  rw [hn] at hrow ⊢
  refine ((s.T k).yields_get n (Int.ofNat_lt.mp hrow.2)).mono fun e he => ?_
  rw [he]
  exact hs.rows k _

/-- A saturating step of a counter that is not at its end. -/
theorem Entry.InRange.step {e : Entry} (h : e.InRange) {dir : Bool}
    (hend : e.pred ≠ if dir then 7 else 0) :
    { e with pred := if dir then e.pred + 1 else e.pred - 1 : Entry }.InRange := by
  have hpred : 0 ≤ e.pred ∧ e.pred < 8 := h.pred
  refine ⟨show 0 ≤ (if dir then _ else _) ∧ (if dir then _ else _) < (8 : Int) from ?_, h.tag,
    h.useful⟩
  cases dir with
  | false =>
      simp only [Bool.false_eq_true, if_false] at hend ⊢
      omega
  | true =>
      simp only [if_true] at hend ⊢
      omega

theorem yields_trainProvider (dir : Bool) (hs : InRange s) :
    Yields (trainProvider dir s) fun r => InRange r.1 ∧ SameHistory s r.1 := by
  unfold trainProvider
  rcases hk : tageTable s.providerComp with _ | k
  · exact .ret ⟨hs, SameHistory.refl s⟩
  · rcases yields_providerEntry hs hk with ⟨hrow, hentry⟩
    -- A saturated counter is not written.
    refine hentry.bind fun e he =>
      Yields.ite (fun _ => .ret ⟨hs, SameHistory.refl s⟩) fun hend => ?_
    exact (yields_setRow k hrow (he.step hend) hs).bind fun s' hs' => .ret hs'

theorem yields_markProvider {useful : Int} (huseful : useful = 0 ∨ useful = 1) (hs : InRange s) :
    Yields (markProvider useful s) fun s' => InRange s' ∧ SameHistory s s' := by
  unfold markProvider
  rcases hk : tageTable s.providerComp with _ | k
  · exact .ret ⟨hs, SameHistory.refl s⟩
  · rcases yields_providerEntry hs hk with ⟨hrow, hentry⟩
    exact hentry.bind fun e he => yields_setRow k hrow ⟨he.pred, he.tag, huseful⟩ hs

/-- The counter of successes and failures may be anything up to its maximum. -/
theorem InRange.setUseCounter (hs : InRange s) {n : Int} (hn : 0 ≤ n ∧ n ≤ 255) :
    InRange { s with useCounter := n } :=
  ⟨hs.phrt, hs.pht, hs.rows, hs.provider, hs.providerRow, hn⟩

theorem yields_updateUseful (dir : Bool) (hs : InRange s) :
    Yields (updateUseful dir s) fun s' => InRange s' ∧ SameHistory s s' := by
  unfold updateUseful
  -- Both branches write the useful bit and move the counter by at most one.
  refine Yields.ite (fun _ => ?_) fun _ => Yields.ite (fun _ => ?_) fun _ =>
    .ret ⟨hs, SameHistory.refl s⟩
  · refine (yields_markProvider (Or.inr rfl) hs).bind fun s' ⟨hs', hsame⟩ =>
      .ret ⟨?_, hsame.GHR, hsame.CSR⟩
    have hcount := hs'.useCounter
    exact hs'.setUseCounter (by split_ifs <;> omega)
  · refine (yields_markProvider (Or.inl rfl) hs).bind fun s' ⟨hs', hsame⟩ =>
      .ret ⟨?_, hsame.GHR, hsame.CSR⟩
    have hcount := hs'.useCounter
    exact hs'.setUseCounter (by split_ifs <;> omega)

theorem yields_updateProvider (dir : Bool) (hs : InRange s) :
    Yields (updateProvider dir s) fun r => InRange r.1 ∧ SameHistory s r.1 := by
  refine Yields.ite (fun _ => ?_) fun _ => .ret ⟨hs, SameHistory.refl s⟩
  refine (yields_trainProvider dir hs).bind fun ⟨s₁, useful, pred⟩ ⟨hs₁, hsame₁⟩ => ?_
  refine (yields_updateUseful dir hs₁).bind fun s₂ ⟨hs₂, hsame₂⟩ => ?_
  exact .ret ⟨hs₂, hsame₁.trans hsame₂⟩

/-! ### Allocation -/

theorem yields_findVictims (PC : UINT32) (s : State) : Yields (findVictims PC s) fun _ => True := by
  refine Yields.foldlM_finRange (fun _ _ => True) trivial fun k acc _ => ?_
  refine (yields_indT k PC s).bind fun ind hind => ?_
  refine ((s.T k).yields_get _ hind).bind fun e _ => ?_
  exact Yields.ite (fun _ => .ret trivial) fun _ => .ret trivial

theorem yields_allocate (PC : UINT32) (dir : Bool) (k : Fin NUM_TAGE_TABLES) (hs : InRange s) :
    Yields (allocate PC dir k s) fun s' => InRange s' ∧ SameHistory s s' := by
  refine (yields_tagT k PC s).bind fun tag htag => ?_
  refine (yields_indT k PC s).bind fun ind hind => ?_
  have hpred : 0 ≤ (if dir then 4 else 3 : Int) ∧ (if dir then 4 else 3 : Int) < 8 := by
    cases dir <;> decide
  exact yields_setRow k ⟨Int.natCast_nonneg _, Int.ofNat_lt.mpr hind⟩ ⟨hpred, htag, Or.inl rfl⟩ hs

theorem clearUseful_T (which : Fin NUM_TAGE_TABLES → Bool) (s : State) (k : Fin NUM_TAGE_TABLES) :
    (clearUseful which s).T k =
      if which k then (s.T k).map (fun entry => { entry with useful := 0 }) else s.T k := rfl

theorem inRange_clearUseful (which : Fin NUM_TAGE_TABLES → Bool) (hs : InRange s) :
    InRange (clearUseful which s) := by
  refine ⟨hs.phrt, hs.pht, fun k i => ?_, hs.provider, hs.providerRow, hs.useCounter⟩
  have hrow := hs.rows k i
  rw [clearUseful_T]
  by_cases hk : which k
  · rw [if_pos hk, CArray.map_cell]
    exact ⟨hrow.pred, hrow.tag, Or.inl rfl⟩
  · rw [if_neg hk]
    exact hrow

/-- The state that follows does not depend on the counter of allocations. -/
theorem InRange.setProbability (hs : InRange s) (n : Int) : InRange { s with probability := n } :=
  ⟨hs.phrt, hs.pht, hs.rows, hs.provider, hs.providerRow, hs.useCounter⟩

theorem yields_allocateFound (PC : UINT32) (dir : Bool) (found : Option (Fin NUM_TAGE_TABLES))
    (hs : InRange s) :
    Yields (allocateFound PC dir found s) fun s' => InRange s' ∧ SameHistory s s' := by
  rcases found with _ | k
  · exact .ret ⟨hs, SameHistory.refl s⟩
  · exact yields_allocate PC dir k hs

theorem yields_allocateEntry (PC : UINT32) (dir : Bool) (hs : InRange s) :
    Yields (allocateEntry PC dir s) fun s' => InRange s' ∧ SameHistory s s' := by
  refine (yields_findVictims PC s).bind fun ⟨found, numFound⟩ _ => ?_
  -- No victim, one allocation in the first table, or one in the last.
  refine Yields.ite (fun _ => .ret ⟨inRange_clearUseful _ hs, rfl, rfl⟩) fun _ =>
    Yields.ite (fun _ => ?_) fun _ => ?_
  · refine (yields_allocateFound PC dir _ hs).bind fun s' ⟨hs', hsame⟩ => ?_
    exact .ret ⟨hs'.setProbability _, hsame.GHR, hsame.CSR⟩
  · refine (yields_allocateFound PC dir _ (hs.setProbability 1)).mono fun s' ⟨hs', hsame⟩ => ?_
    exact ⟨hs', hsame.GHR, hsame.CSR⟩

theorem yields_allocateOnMiss (PC : UINT32) (dir : Bool) (useful pred : Int) (hs : InRange s) :
    Yields (allocateOnMiss PC dir useful pred s) fun s' => InRange s' ∧ SameHistory s s' :=
  Yields.ite (fun _ => yields_allocateEntry PC dir hs) fun _ => .ret ⟨hs, SameHistory.refl s⟩

theorem inRange_resetUseful (hs : InRange s) :
    InRange (resetUseful s) ∧ SameHistory s (resetUseful s) := by
  unfold resetUseful
  by_cases hzero : s.useCounter = 0
  · rw [if_pos hzero]
    -- At zero all useful bits are cleared and the counter starts again in the middle.
    exact ⟨(inRange_clearUseful _ hs).setUseCounter (by decide), rfl, rfl⟩
  · rw [if_neg hzero]
    exact ⟨hs, SameHistory.refl s⟩

/-- The counter of successes and failures is not left at zero. -/
theorem useCounter_resetUseful (hs : InRange s) : 0 < (resetUseful s).useCounter := by
  have hcount := hs.useCounter
  unfold resetUseful
  by_cases hzero : s.useCounter = 0
  · rw [if_pos hzero]
    exact (by decide : (0 : Int) < 128)
  · rw [if_neg hzero]
    omega

end Predictor

end MicroArch
