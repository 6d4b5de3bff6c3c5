import MicroArch.Predictor.History

/-!
# What an Update Changes

The rows an update may write, row by row. An update reaches a row in one of
three ways: it is the provider's, it is the one allocated after a
misprediction, or its useful bit is cleared together with those of its whole
table. Each step of the update is described here by what it does to every
row of every table, and `UpdateEffect` composes the descriptions.

The provider and the history are what the steps communicate through, so each
step is also shown to leave them alone.

A frame condition is about all rows of all tables, and the steps write few of
them. So each step is described by one statement about an arbitrary row, with
the row it may write named by its table and index, and the statements are
composed in the order of the steps. The rows of the branch are those of the
history before the update, since the history is moved last.

## Main definitions

* `SameProvider`: The provider of the last prediction has not been touched.
* `IsProviderRow`, `IsBranchRow`: The rows an update may write by themselves.
* `UpdateEffect`: What one update may change.

## Theorems

* `trainProvider_rows`, `updateUseful_rows`: The provider's row.
* `allocateOnMiss_rows`: The allocation.
* `updatePredictor_effect`: The effect of an update that follows a prediction.
-/

namespace MicroArch

namespace Predictor

variable {PC : UINT32} {s s' : State}

/-- Nothing between the two states has touched the provider. -/
structure SameProvider (s s' : State) : Prop where
  comp : s'.providerComp = s.providerComp
  pred : s'.providerPred = s.providerPred
  index : s'.providerIndex = s.providerIndex
  alt : s'.altPred = s.altPred

theorem SameProvider.refl (s : State) : SameProvider s s := ⟨rfl, rfl, rfl, rfl⟩

theorem SameProvider.trans {s s' s'' : State} (h : SameProvider s s') (h' : SameProvider s' s'') :
    SameProvider s s'' :=
  ⟨h'.comp.trans h.comp, h'.pred.trans h.pred, h'.index.trans h.index, h'.alt.trans h.alt⟩

/-- A row of a tagged table. -/
def State.row (s : State) (k : Fin NUM_TAGE_TABLES) (i : Fin NUM_TAGE_ENTRIES) : Entry :=
  (s.T k).cell i

/-- The row that the last prediction was made from. -/
def IsProviderRow (s : State) (k : Fin NUM_TAGE_TABLES) (i : Fin NUM_TAGE_ENTRIES) : Prop :=
  s.providerComp = k.val + 1 ∧ s.providerIndex = i.val

/-- The row of a branch in a table. -/
def IsBranchRow (PC : UINT32) (s : State) (k : Fin NUM_TAGE_TABLES) (i : Fin NUM_TAGE_ENTRIES) :
    Prop :=
  ∃ ind, indT k PC s = some ind ∧ ind.toNat = i.val

instance (s : State) (k : Fin NUM_TAGE_TABLES) (i : Fin NUM_TAGE_ENTRIES) :
    Decidable (IsProviderRow s k i) := inferInstanceAs (Decidable (_ ∧ _))

theorem IsBranchRow.unique {k : Fin NUM_TAGE_TABLES} {i j : Fin NUM_TAGE_ENTRIES}
    (hi : IsBranchRow PC s k i) (hj : IsBranchRow PC s k j) : i = j := by
  rcases hi with ⟨ind, hind, hi⟩
  rcases hj with ⟨ind', hind', hj⟩
  rw [hind, Option.some.injEq] at hind'
  subst hind'
  exact Fin.ext (hi.symm.trans hj)

theorem getCSR_congr (h : SameHistory s s') (t : Fin NUM_TAGE_TABLES) (num : Fin 2) :
    getCSR t num s' = getCSR t num s := by
  rw [getCSR, h.CSR, ← getCSR]

theorem indT_congr (h : SameHistory s s') (k : Fin NUM_TAGE_TABLES) (PC : UINT32) :
    indT k PC s' = indT k PC s := by
  rw [indT, getCSR_congr h, ← indT]

theorem tagT_congr (h : SameHistory s s') (k : Fin NUM_TAGE_TABLES) (PC : UINT32) :
    tagT k PC s' = tagT k PC s := by
  rw [tagT, getCSR_congr h, getCSR_congr h, ← tagT]

theorem isBranchRow_congr (h : SameHistory s s') {k : Fin NUM_TAGE_TABLES}
    {i : Fin NUM_TAGE_ENTRIES} : IsBranchRow PC s' k i ↔ IsBranchRow PC s k i := by
  rw [IsBranchRow, indT_congr h, ← IsBranchRow]

theorem isProviderRow_congr (h : SameProvider s s') {k : Fin NUM_TAGE_TABLES}
    {i : Fin NUM_TAGE_ENTRIES} : IsProviderRow s' k i ↔ IsProviderRow s k i := by
  rw [IsProviderRow, h.comp, h.index, ← IsProviderRow]

/-! ### Writing one row -/

/-- Writing a row changes that row and nothing else. -/
theorem setRow_rows (s : State) (k : Fin NUM_TAGE_TABLES) (i : Fin NUM_TAGE_ENTRIES) (e : Entry) :
    Yields (s.setRow k i.val e) fun s' => SameProvider s s' ∧ SameHistory s s' ∧
      s'.useCounter = s.useCounter ∧
      ∀ k' j, s'.row k' j = if k' = k ∧ j = i then e else s.row k' j := by
  refine ((s.T k).yields_set i.val e i.isLt).bind fun table htable => ?_
  subst htable
  refine .ret ⟨⟨rfl, rfl, rfl, rfl⟩, ⟨rfl, rfl⟩, rfl, fun k' j => ?_⟩
  change (Function.update s.T k ((s.T k).update i e) k').cell j = _
  -- A row is one of an entry, in the table that was written.
  by_cases hk : k' = k
  · subst hk
    rw [Function.update_self, CArray.update_cell]
    simp only [true_and]
    rfl
  · rw [Function.update_of_ne hk, if_neg fun h => hk h.1]
    rfl

/-! ### The provider's row -/

/-- A tagged provider is a row of a table. -/
theorem exists_providerRow (hs : InRange s) (h : s.providerComp ≠ 0) :
    ∃ k i, IsProviderRow s k i ∧ tageTable s.providerComp = some k := by
  have hle := hs.provider
  have hrow := hs.providerRow h
  refine ⟨⟨s.providerComp - 1, by omega⟩, ⟨s.providerIndex.toNat, by omega⟩, ⟨?_, ?_⟩, ?_⟩
  · exact (Nat.sub_add_cancel (Nat.pos_of_ne_zero h)).symm
  · exact (Int.toNat_of_nonneg hrow.1).symm
  · exact dif_pos ⟨Nat.pos_of_ne_zero h, hle⟩

theorem IsProviderRow.unique {k k' : Fin NUM_TAGE_TABLES} {i j : Fin NUM_TAGE_ENTRIES}
    (h : IsProviderRow s k i) (h' : IsProviderRow s k' j) : k' = k ∧ j = i := by
  have hk := h.1.symm.trans h'.1
  have hi := h.2.symm.trans h'.2
  exact ⟨Fin.ext (by omega), Fin.ext (by omega)⟩

/-- The steps towards an outcome that training takes. -/
theorem saturate_pred (dir : Bool) (pred : Int) :
    saturate NUM_PRED_MODES dir pred
      = if pred = (if dir then 7 else 0) then pred else if dir then pred + 1 else pred - 1 := by
  unfold saturate
  cases dir with
  | false => by_cases h : pred = 0 <;> simp [h]
  | true => by_cases h : pred = 7 <;> simp [h]

theorem trainProvider_rows (dir : Bool) (hs : InRange s) (h : s.providerComp ≠ 0) :
    Yields (trainProvider dir s) fun r => SameProvider s r.1 ∧ SameHistory s r.1 ∧
      r.1.useCounter = s.useCounter ∧ ∀ k i, r.1.row k i = if IsProviderRow s k i
        then { s.row k i with pred := saturate NUM_PRED_MODES dir (s.row k i).pred }
        else s.row k i := by
  rcases exists_providerRow hs h with ⟨k, i, hrow, hk⟩
  unfold trainProvider
  rw [hk, hrow.2]
  refine ((s.T k).yields_get i.val i.isLt).bind fun e he => ?_
  have he' : e = s.row k i := he
  subst he'
  refine Yields.ite (fun hend => .ret ⟨SameProvider.refl s, SameHistory.refl s, rfl, ?_⟩)
    fun hend => ?_
  · -- A counter at its end stays where it is.
    intro k' j
    by_cases hp : IsProviderRow s k' j
    · rcases hrow.unique hp with ⟨rfl, rfl⟩
      rw [if_pos hp, saturate_pred, if_pos hend]
    · rw [if_neg hp]
  · refine (setRow_rows s k i _).bind fun s' ⟨hprov, hhist, hcount, hrows⟩ => ?_
    refine .ret ⟨hprov, hhist, hcount, fun k' j => ?_⟩
    rw [hrows]
    by_cases hp : IsProviderRow s k' j
    · rcases hrow.unique hp with ⟨rfl, rfl⟩
      rw [if_pos ⟨rfl, rfl⟩, if_pos hp, saturate_pred, if_neg hend]
    · have hne : ¬ (k' = k ∧ j = i) := by
        intro heq
        rcases heq with ⟨rfl, rfl⟩
        exact hp hrow
      rw [if_neg hne, if_neg hp]

theorem markProvider_rows (useful : Int) (hs : InRange s) (h : s.providerComp ≠ 0) :
    Yields (markProvider useful s) fun s' => SameProvider s s' ∧ SameHistory s s' ∧
      s'.useCounter = s.useCounter ∧ ∀ k i, s'.row k i = if IsProviderRow s k i
        then { s.row k i with useful := useful } else s.row k i := by
  rcases exists_providerRow hs h with ⟨k, i, hrow, hk⟩
  unfold markProvider
  rw [hk, hrow.2]
  refine ((s.T k).yields_get i.val i.isLt).bind fun e he => ?_
  have he' : e = s.row k i := he
  subst he'
  -- The row of the provider is written once, and read nowhere else.
  refine (setRow_rows s k i _).mono fun s' ⟨hprov, hhist, hcount, hrows⟩ =>
    ⟨hprov, hhist, hcount, fun k' j => ?_⟩
  rw [hrows]
  by_cases hp : IsProviderRow s k' j
  · rcases hrow.unique hp with ⟨rfl, rfl⟩
    rw [if_pos ⟨rfl, rfl⟩, if_pos hp]
  · have hne : ¬ (k' = k ∧ j = i) := by
      intro heq
      rcases heq with ⟨rfl, rfl⟩
      exact hp hrow
    rw [if_neg hne, if_neg hp]

/-- The provider was right, and the alternate was not. -/
def ProviderRight (dir : Bool) (s : State) : Prop :=
  s.providerPred = dir ∧ s.providerPred ≠ s.altPred

/-- The provider was wrong, and the alternate was not. -/
def ProviderWrong (dir : Bool) (s : State) : Prop :=
  s.providerPred ≠ dir ∧ s.providerPred ≠ s.altPred

instance (dir : Bool) (s : State) : Decidable (ProviderRight dir s) :=
  inferInstanceAs (Decidable (_ ∧ _))

instance (dir : Bool) (s : State) : Decidable (ProviderWrong dir s) :=
  inferInstanceAs (Decidable (_ ∧ _))

/-- The useful bit the provider's row gets. -/
def markedUseful (dir : Bool) (s : State) (useful : Int) : Int :=
  if ProviderRight dir s then 1 else if ProviderWrong dir s then 0 else useful

theorem markedUseful_congr (h : SameProvider s s') (dir : Bool) (useful : Int) :
    markedUseful dir s' useful = markedUseful dir s useful := by
  have hright : ProviderRight dir s' ↔ ProviderRight dir s := by
    rw [ProviderRight, h.pred, h.alt, ← ProviderRight]
  have hwrong : ProviderWrong dir s' ↔ ProviderWrong dir s := by
    rw [ProviderWrong, h.pred, h.alt, ← ProviderWrong]
  rw [markedUseful, markedUseful]
  simp only [hright, hwrong]

theorem updateUseful_rows (dir : Bool) (hs : InRange s) (h : s.providerComp ≠ 0) :
    Yields (updateUseful dir s) fun s' => SameProvider s s' ∧ SameHistory s s' ∧
      (s'.useCounter = 0 → s.useCounter = 0 ∨ s.useCounter = 1 ∧ ProviderWrong dir s) ∧
      ∀ k i, s'.row k i = if IsProviderRow s k i
        then { s.row k i with useful := markedUseful dir s (s.row k i).useful }
        else s.row k i := by
  have hcount := hs.useCounter
  unfold updateUseful
  -- The three branches of the source: right against a wrong alternative, wrong against a right
  -- one, and neither.
  refine Yields.ite (fun hright => ?_) fun hright => Yields.ite (fun hwrong => ?_) fun hwrong => ?_
  · refine (markProvider_rows 1 hs h).bind fun s₁ ⟨hprov, hhist, hsame, hrows⟩ =>
      .ret ⟨⟨hprov.comp, hprov.pred, hprov.index, hprov.alt⟩, ⟨hhist.GHR, hhist.CSR⟩, fun hz => ?_,
        fun k i => ?_⟩
    · simp only at hz
      split_ifs at hz <;> omega
    · change s₁.row k i = _
      rw [hrows, markedUseful, if_pos (show ProviderRight dir s from hright)]
  · refine (markProvider_rows 0 hs h).bind fun s₁ ⟨hprov, hhist, hsame, hrows⟩ =>
      .ret ⟨⟨hprov.comp, hprov.pred, hprov.index, hprov.alt⟩, ⟨hhist.GHR, hhist.CSR⟩, fun hz => ?_,
        fun k i => ?_⟩
    · -- The counter is decremented from above zero, so it only becomes zero from one.
      simp only at hz
      have hor : s.useCounter = 0 ∨ s.useCounter = 1 := by split_ifs at hz <;> omega
      rcases hor with h0 | h1
      · exact Or.inl h0
      · exact Or.inr ⟨h1, hwrong⟩
    · change s₁.row k i = _
      rw [hrows, markedUseful, if_neg (show ¬ ProviderRight dir s from hright),
        if_pos (show ProviderWrong dir s from hwrong)]
  · refine .ret ⟨SameProvider.refl s, SameHistory.refl s, fun hz => Or.inl hz, fun k i => ?_⟩
    rw [markedUseful, if_neg (show ¬ ProviderRight dir s from hright),
      if_neg (show ¬ ProviderWrong dir s from hwrong)]
    split_ifs <;> rfl

/-- The provider's row after it has been trained and marked. -/
def trainedRow (dir : Bool) (s : State) (k : Fin NUM_TAGE_TABLES) (i : Fin NUM_TAGE_ENTRIES) :
    Entry :=
  if IsProviderRow s k i then
    { s.row k i with
      pred := saturate NUM_PRED_MODES dir (s.row k i).pred
      useful := markedUseful dir s (s.row k i).useful }
  else s.row k i

theorem updateProvider_rows (dir : Bool) (hs : InRange s) (hcount : 0 < s.useCounter) :
    Yields (updateProvider dir s) fun r => SameProvider s r.1 ∧ SameHistory s r.1 ∧
      (r.1.useCounter = 0 → s.useCounter = 1 ∧ ProviderWrong dir s) ∧
      ∀ k i, r.1.row k i = trainedRow dir s k i := by
  refine Yields.ite (fun hne => ?_) fun hz => .ret ⟨SameProvider.refl s, SameHistory.refl s, ?_, ?_⟩
  · refine ((trainProvider_rows dir hs hne).and (yields_trainProvider dir hs)).bind ?_
    -- Training the counter comes first and leaves open which row is the provider's.
    intro r hr
    rcases hr with ⟨⟨hprov, hhist, hsame, hrows⟩, hs₁, -⟩
    have hne₁ : r.1.providerComp ≠ 0 := by rwa [hprov.comp]
    refine (updateUseful_rows dir hs₁ hne₁).bind fun s₂ ⟨hprov₂, hhist₂, hcount₂, hrows₂⟩ => ?_
    refine .ret ⟨hprov.trans hprov₂, hhist.trans hhist₂, fun hz => ?_, fun k i => ?_⟩
    · rcases hcount₂ hz with h0 | ⟨h1, hwrong⟩
      · omega
      · rw [ProviderWrong, hprov.pred, hprov.alt] at hwrong
        exact ⟨by omega, hwrong⟩
    · rw [hrows₂, hrows, trainedRow]
      simp only [isProviderRow_congr hprov, markedUseful_congr hprov]
      by_cases hp : IsProviderRow s k i
      · rw [if_pos hp, if_pos hp, if_pos hp]
      · rw [if_neg hp, if_neg hp, if_neg hp]
  · -- Without a provider nothing is trained, and no row is the provider's.
    intro h0
    change s.useCounter = 0 at h0
    omega
  · intro k i
    rw [trainedRow, if_neg]
    intro hp
    exact hz fun h => absurd (h.symm.trans hp.1) (by omega)

/-! ### The allocation -/

/-- A row that may be allocated: the branch's, in a table longer than the
    provider, and not useful. -/
def IsVictim (PC : UINT32) (s : State) (k : Fin NUM_TAGE_TABLES) (i : Fin NUM_TAGE_ENTRIES) :
    Prop :=
  s.providerComp ≤ k.val ∧ IsBranchRow PC s k i ∧ (s.row k i).useful = 0

/-- The tables found are those of victims, and none are found only when
    there is no victim. -/
theorem findVictims_found (PC : UINT32) (s : State) :
    Yields (findVictims PC s) fun r => (∀ k, r.1 k = true → ∃ i, IsVictim PC s k i) ∧
      (r.2 = 0 → ∀ k i, ¬ IsVictim PC s k i) ∧ (r.2 ≠ 0 → ∃ k, r.1 k = true) := by
  -- After the first `m` tables this holds of the tables below `m`.
  refine (Yields.foldlM_finRange (fun m (r : (Fin NUM_TAGE_TABLES → Bool) × Nat) =>
      (∀ k, r.1 k = true → ∃ i, IsVictim PC s k i) ∧
      (r.2 = 0 → ∀ k i, k.val < m → ¬ IsVictim PC s k i) ∧ (r.2 ≠ 0 → ∃ k, r.1 k = true))
    ⟨fun k hk => ?_, fun _ k i hk => ?_, fun hne => absurd rfl hne⟩ fun k r hr => ?_).mono ?_
  · exact absurd hk Bool.false_ne_true
  · exact absurd hk (Nat.not_lt_zero _)
  · rcases hr with ⟨hfound, hnone, hsome⟩
    rcases yields_indT k PC s with ⟨ind, hind, hlt⟩
    refine Yields.bind (P := fun v => v = ind) ⟨ind, hind, rfl⟩ fun v hv => ?_
    subst hv
    refine ((s.T k).yields_get _ hlt).bind fun e he => ?_
    have hrow : IsBranchRow PC s k ⟨v.toNat, hlt⟩ := ⟨v, hind, rfl⟩
    have he' : e = s.row k ⟨v.toNat, hlt⟩ := he
    subst he'
    refine Yields.ite (fun hc => .ret ⟨fun k' hk' => ?_, fun hz => ?_, fun _ => ?_⟩)
      fun hc => .ret ⟨hfound, fun hz k' i hk' => ?_, hsome⟩
    · by_cases hkk : k' = k
      · subst hkk
        exact ⟨_, hc.1, hrow, hc.2.1⟩
      · simp only [Function.update_of_ne hkk] at hk'
        exact hfound k' hk'
    · exact absurd hz (Nat.succ_ne_zero _)
    · exact ⟨k, Function.update_self _ _ _⟩
    · intro hvictim
      by_cases hkk : k'.val < k.val
      · exact hnone hz k' i hkk hvictim
      · have heq : k' = k := Fin.ext (by omega)
        subst heq
        -- With nothing found yet the limit of two does not apply.
        rw [hvictim.2.1.unique hrow] at hvictim
        exact hc ⟨hvictim.1, hvictim.2.2, Or.inr (by omega)⟩
  · intro r hr
    exact ⟨hr.1, fun hz k i => hr.2.1 hz k i k.isLt, hr.2.2⟩

/-- The entry of a branch that is allocated. -/
def IsNewEntry (PC : UINT32) (dir : Bool) (s : State) (k : Fin NUM_TAGE_TABLES) (e : Entry) :
    Prop :=
  e.pred = (if dir then 4 else 3) ∧ tagT k PC s = some e.tag ∧ e.useful = 0

theorem allocate_rows (PC : UINT32) (dir : Bool) (k : Fin NUM_TAGE_TABLES) (s : State) :
    Yields (allocate PC dir k s) fun s' => SameProvider s s' ∧ SameHistory s s' ∧
      s'.useCounter = s.useCounter ∧ ∃ i e, IsBranchRow PC s k i ∧ IsNewEntry PC dir s k e ∧
        ∀ k' j, s'.row k' j = if k' = k ∧ j = i then e else s.row k' j := by
  rcases yields_tagT k PC s with ⟨tag, htag, -⟩
  rcases yields_indT k PC s with ⟨ind, hind, hlt⟩
  unfold allocate
  simp only [htag, hind, Option.bind_eq_bind, Option.bind_some]
  refine (setRow_rows s k ⟨ind.toNat, hlt⟩ _).mono fun s' ⟨hprov, hhist, hcount, hrows⟩ => ?_
  exact ⟨hprov, hhist, hcount, _, _, ⟨ind, hind, rfl⟩, ⟨rfl, htag, rfl⟩, hrows⟩

/-- The misprediction after which an entry may be allocated. -/
def Mispredicted (dir : Bool) (s : State) : Prop :=
  s.providerPred ≠ dir ∧ s.providerComp ≠ NUM_TAGE_TABLES

/-- The rows after an allocation: one victim has been overwritten, or there
    was none and the longer tables have been cleared, or nothing happened. -/
inductive Allocated (PC : UINT32) (dir : Bool) (s s' : State) : Prop where
  | unchanged (hrows : ∀ k i, s'.row k i = s.row k i)
  | victim (k : Fin NUM_TAGE_TABLES) (i : Fin NUM_TAGE_ENTRIES) (e : Entry)
      (hmiss : Mispredicted dir s) (hvictim : IsVictim PC s k i) (hnew : IsNewEntry PC dir s k e)
      (hrows : ∀ k' j, s'.row k' j = if k' = k ∧ j = i then e else s.row k' j)
  | cleared (hmiss : Mispredicted dir s) (hnone : ∀ k i, ¬ IsVictim PC s k i)
      (hrows : ∀ k i, s'.row k i =
        if s.providerComp ≤ k.val then { s.row k i with useful := 0 } else s.row k i)

theorem clearUseful_row (which : Fin NUM_TAGE_TABLES → Bool) (s : State) (k : Fin NUM_TAGE_TABLES)
    (i : Fin NUM_TAGE_ENTRIES) : (clearUseful which s).row k i =
      if which k then { s.row k i with useful := 0 } else s.row k i := by
  rw [State.row, clearUseful_T]
  by_cases hk : which k
  · rw [if_pos hk, if_pos hk, CArray.map_cell]
    rfl
  · rw [if_neg hk, if_neg hk]
    rfl

/-- Allocating in a table that was found overwrites a victim. -/
theorem allocateFound_rows {found : Fin NUM_TAGE_TABLES → Bool} {l : List (Fin NUM_TAGE_TABLES)}
    (hmem : ∀ k, k ∈ l) (hfound : ∀ k, found k = true → ∃ i, IsVictim PC s k i)
    (hsome : ∃ k, found k = true) {dir : Bool} (hmiss : Mispredicted dir s) :
    Yields (allocateFound PC dir (l.find? found) s) fun s' => SameProvider s s' ∧
      SameHistory s s' ∧ s'.useCounter = s.useCounter ∧ Allocated PC dir s s' := by
  rcases hsome with ⟨k₀, hk₀⟩
  rcases hf : l.find? found with _ | k
  · exact absurd hk₀ (List.find?_eq_none.mp hf k₀ (hmem k₀))
  · refine (allocate_rows PC dir k s).mono
      fun s' ⟨hprov, hhist, hcount, i, e, hrow, hnew, hrows⟩ => ?_
    rcases hfound k (List.find?_some hf) with ⟨j, hvictim⟩
    rw [hvictim.2.1.unique hrow] at hvictim
    exact ⟨hprov, hhist, hcount, .victim k i e hmiss hvictim hnew hrows⟩

theorem allocateEntry_rows (PC : UINT32) {dir : Bool} {s : State} (hmiss : Mispredicted dir s) :
    Yields (allocateEntry PC dir s) fun s' => SameProvider s s' ∧ SameHistory s s' ∧
      s'.useCounter = s.useCounter ∧ Allocated PC dir s s' := by
  refine (findVictims_found PC s).bind fun ⟨found, numFound⟩ ⟨hfound, hnone, hsome⟩ => ?_
  -- No victim clears the useful bits, and otherwise one of those found is overwritten. Which
  -- one depends on a draw that only chooses the direction of the search.
  refine Yields.ite (fun hz => .ret ⟨⟨rfl, rfl, rfl, rfl⟩, ⟨rfl, rfl⟩, rfl, ?_⟩) fun hz =>
    Yields.ite (fun _ => ?_) fun _ => ?_
  · refine .cleared hmiss (hnone hz) fun k i => ?_
    rw [clearUseful_row]
    simp only [decide_eq_true_eq]
  · refine (allocateFound_rows List.mem_finRange hfound (hsome hz) hmiss).bind ?_
    intro s' h
    rcases h with ⟨hprov, hhist, hcount, halloc⟩
    refine .ret ⟨⟨hprov.comp, hprov.pred, hprov.index, hprov.alt⟩, ⟨hhist.GHR, hhist.CSR⟩,
      hcount, ?_⟩
    cases halloc with
    | unchanged hrows => exact .unchanged hrows
    | victim k i e hmiss hvictim hnew hrows => exact .victim k i e hmiss hvictim hnew hrows
    | cleared hmiss hnone hrows => exact .cleared hmiss hnone hrows
  · have hmem : ∀ k, k ∈ (List.finRange NUM_TAGE_TABLES).reverse := fun k =>
      List.mem_reverse.mpr (List.mem_finRange k)
    refine (allocateFound_rows (s := { s with probability := 1 }) hmem hfound (hsome hz)
      hmiss).mono ?_
    intro s' h
    rcases h with ⟨hprov, hhist, hcount, halloc⟩
    refine ⟨⟨hprov.comp, hprov.pred, hprov.index, hprov.alt⟩, ⟨hhist.GHR, hhist.CSR⟩, hcount, ?_⟩
    cases halloc with
    | unchanged hrows => exact .unchanged hrows
    | victim k i e hmiss hvictim hnew hrows => exact .victim k i e hmiss hvictim hnew hrows
    | cleared hmiss hnone hrows => exact .cleared hmiss hnone hrows

theorem allocateOnMiss_rows (PC : UINT32) (dir : Bool) (useful pred : Int) (s : State) :
    Yields (allocateOnMiss PC dir useful pred s) fun s' => SameProvider s s' ∧ SameHistory s s' ∧
      s'.useCounter = s.useCounter ∧ Allocated PC dir s s' :=
  Yields.ite (fun h => allocateEntry_rows PC ⟨fun he => h.2.1 he.symm, h.1⟩) fun _ =>
    .ret ⟨SameProvider.refl s, SameHistory.refl s, rfl, .unchanged fun _ _ => rfl⟩

/-! ### The whole update -/

/-- The useful bits of all tables longer than the provider are cleared
    together, since a misprediction found no victim. -/
def LongerCleared (PC : UINT32) (dir : Bool) (s s' : State) (k : Fin NUM_TAGE_TABLES) : Prop :=
  Mispredicted dir s ∧ (∀ k i, ¬ IsVictim PC s k i) ∧ s.providerComp ≤ k.val ∧
    ∀ k' i, s.providerComp ≤ k'.val → (s'.row k' i).useful = 0

/-- The useful bits of all tables are cleared together, since the counter of
    successes and failures went down to zero. -/
def AllCleared (dir : Bool) (s s' : State) : Prop :=
  s.useCounter = 1 ∧ ProviderWrong dir s ∧ ∀ k i, (s'.row k i).useful = 0

/-- What an update from `s` to `s'` may change in the tagged tables. -/
structure UpdateEffect (PC : UINT32) (dir : Bool) (s s' : State) : Prop where
  /-- At most one tag is written, in a victim of a misprediction. Apart from
      the victim only the provider's counter changes, by a saturating step. -/
  victim : ∃ victim : Option (Fin NUM_TAGE_TABLES × Fin NUM_TAGE_ENTRIES),
    (∀ k i, victim = some (k, i) → Mispredicted dir s ∧ IsVictim PC s k i ∧
      IsNewEntry PC dir s k (s'.row k i)) ∧
    ∀ k i, victim ≠ some (k, i) → (s'.row k i).tag = (s.row k i).tag ∧
      (s'.row k i).pred = if IsProviderRow s k i
        then saturate NUM_PRED_MODES dir (s.row k i).pred else (s.row k i).pred
  /-- A useful bit is set in the provider's row only, when it was right and
      differed from the alternate. -/
  set : ∀ k i, (s.row k i).useful = 0 → (s'.row k i).useful ≠ 0 →
    (s'.row k i).useful = 1 ∧ IsProviderRow s k i ∧ ProviderRight dir s
  /-- Every other change clears a useful bit: the provider's, when it was
      wrong and differed from the alternate, or one of a bulk clear. -/
  clear : ∀ k i, (s.row k i).useful = 1 → (s'.row k i).useful ≠ 1 →
    (s'.row k i).useful = 0 ∧
      (IsProviderRow s k i ∧ ProviderWrong dir s ∨ LongerCleared PC dir s s' k ∨
        AllCleared dir s s')

/-! #### The rows of the training alone -/

theorem trainedRow_tag (dir : Bool) (s : State) (k : Fin NUM_TAGE_TABLES)
    (i : Fin NUM_TAGE_ENTRIES) : (trainedRow dir s k i).tag = (s.row k i).tag := by
  rw [trainedRow]
  split_ifs <;> rfl

theorem trainedRow_pred (dir : Bool) (s : State) (k : Fin NUM_TAGE_TABLES)
    (i : Fin NUM_TAGE_ENTRIES) : (trainedRow dir s k i).pred = if IsProviderRow s k i
      then saturate NUM_PRED_MODES dir (s.row k i).pred else (s.row k i).pred := by
  rw [trainedRow]
  split_ifs <;> rfl

theorem trainedRow_set {dir : Bool} {k : Fin NUM_TAGE_TABLES} {i : Fin NUM_TAGE_ENTRIES}
    (hz : (s.row k i).useful = 0) (hne : (trainedRow dir s k i).useful ≠ 0) :
    (trainedRow dir s k i).useful = 1 ∧ IsProviderRow s k i ∧ ProviderRight dir s := by
  -- Only the row of the provider is marked, and it is set when the provider is right.
  revert hne
  rw [trainedRow]
  by_cases hp : IsProviderRow s k i
  · simp only [if_pos hp, markedUseful]
    split_ifs with hright hwrong
    · exact fun _ => ⟨rfl, hp, hright⟩
    · exact fun h => absurd rfl h
    · exact fun h => absurd hz h
  · rw [if_neg hp]
    exact fun h => absurd hz h

theorem trainedRow_clear {dir : Bool} {k : Fin NUM_TAGE_TABLES} {i : Fin NUM_TAGE_ENTRIES}
    (ho : (s.row k i).useful = 1) (hne : (trainedRow dir s k i).useful ≠ 1) :
    (trainedRow dir s k i).useful = 0 ∧ IsProviderRow s k i ∧ ProviderWrong dir s := by
  revert hne
  rw [trainedRow]
  by_cases hp : IsProviderRow s k i
  · simp only [if_pos hp, markedUseful]
    split_ifs with hright hwrong
    · exact fun h => absurd rfl h
    · exact fun _ => ⟨rfl, hp, hwrong⟩
    · exact fun h => absurd ho h
  · rw [if_neg hp]
    exact fun h => absurd ho h

/-- Outside the provider's table the training changes nothing. -/
theorem trainedRow_of_longer {dir : Bool} {k : Fin NUM_TAGE_TABLES} {i : Fin NUM_TAGE_ENTRIES}
    (hle : s.providerComp ≤ k.val) : trainedRow dir s k i = s.row k i := by
  rw [trainedRow, if_neg]
  intro hp
  have := hp.1
  omega

/-! #### The effect, for each outcome of the allocation -/

theorem effect_of_unchanged {dir : Bool} (hrows : ∀ k i, s'.row k i = trainedRow dir s k i) :
    UpdateEffect PC dir s s' where
  victim := by
    refine ⟨none, fun k i h => ?_, fun k i _ => ?_⟩
    · exact absurd h (by simp only [reduceCtorEq, not_false_eq_true])
    · rw [hrows]
      exact ⟨trainedRow_tag dir s k i, trainedRow_pred dir s k i⟩
  set k i hz hne := by
    rw [hrows] at hne ⊢
    exact trainedRow_set hz hne
  clear k i ho hne := by
    rw [hrows] at hne ⊢
    rcases trainedRow_clear ho hne with ⟨h0, hp⟩
    exact ⟨h0, Or.inl hp⟩

theorem effect_of_victim {dir : Bool} {k₀ : Fin NUM_TAGE_TABLES} {i₀ : Fin NUM_TAGE_ENTRIES}
    {e : Entry} (hmiss : Mispredicted dir s) (hvictim : IsVictim PC s k₀ i₀)
    (hnew : IsNewEntry PC dir s k₀ e)
    (hrows : ∀ k i, s'.row k i = if k = k₀ ∧ i = i₀ then e else trainedRow dir s k i) :
    UpdateEffect PC dir s s' := by
  have hself : s'.row k₀ i₀ = e := by rw [hrows, if_pos ⟨rfl, rfl⟩]
  refine ⟨⟨some (k₀, i₀), fun k i h => ?_, fun k i h => ?_⟩, fun k i hz hne => ?_,
    fun k i ho hne => ?_⟩
  · rw [Option.some.injEq, Prod.mk.injEq] at h
    rcases h with ⟨rfl, rfl⟩
    rw [hself]
    exact ⟨hmiss, hvictim, hnew⟩
  · have hother : ¬ (k = k₀ ∧ i = i₀) := by
      intro heq
      rcases heq with ⟨rfl, rfl⟩
      exact h rfl
    rw [hrows, if_neg hother]
    exact ⟨trainedRow_tag dir s k i, trainedRow_pred dir s k i⟩
  · by_cases heq : k = k₀ ∧ i = i₀
    · -- The new entry is not useful.
      rw [hrows, if_pos heq] at hne
      exact absurd hnew.2.2 hne
    · rw [hrows, if_neg heq] at hne ⊢
      exact trainedRow_set hz hne
  · by_cases heq : k = k₀ ∧ i = i₀
    · -- The victim was not useful.
      rcases heq with ⟨rfl, rfl⟩
      rw [hvictim.2.2] at ho
      exact absurd ho (by decide)
    · rw [hrows, if_neg heq] at hne ⊢
      rcases trainedRow_clear ho hne with ⟨h0, hp⟩
      exact ⟨h0, Or.inl hp⟩

theorem effect_of_cleared {dir : Bool} (hmiss : Mispredicted dir s)
    (hnone : ∀ k i, ¬ IsVictim PC s k i)
    (hrows : ∀ k i, s'.row k i = if s.providerComp ≤ k.val
      then { trainedRow dir s k i with useful := 0 } else trainedRow dir s k i) :
    UpdateEffect PC dir s s' := by
  have hbulk : ∀ k i, s.providerComp ≤ k.val → (s'.row k i).useful = 0 := by
    intro k i hle
    rw [hrows, if_pos hle]
  refine ⟨⟨none, fun k i h => ?_, fun k i _ => ?_⟩, fun k i hz hne => ?_, fun k i ho hne => ?_⟩
  · exact absurd h (by simp only [reduceCtorEq, not_false_eq_true])
  · have hboth := And.intro (trainedRow_tag dir s k i) (trainedRow_pred dir s k i)
    by_cases hle : s.providerComp ≤ k.val
    · rw [hrows, if_pos hle]
      exact hboth
    · rw [hrows, if_neg hle]
      exact hboth
  · by_cases hle : s.providerComp ≤ k.val
    · exact absurd (hbulk k i hle) hne
    · rw [hrows, if_neg hle] at hne ⊢
      exact trainedRow_set hz hne
  · by_cases hle : s.providerComp ≤ k.val
    · exact ⟨hbulk k i hle, Or.inr (Or.inl ⟨hmiss, hnone, hle, hbulk⟩)⟩
    · rw [hrows, if_neg hle] at hne ⊢
      rcases trainedRow_clear ho hne with ⟨h0, hp⟩
      exact ⟨h0, Or.inl hp⟩

/-- An allocation that follows the training of the provider. -/
theorem Allocated.effect {dir : Bool} {t t' : State} (hprov : SameProvider s t)
    (hhist : SameHistory s t) (htrained : ∀ k i, t.row k i = trainedRow dir s k i)
    (halloc : Allocated PC dir t t') : UpdateEffect PC dir s t' := by
  -- The allocation sees the provider, the branch's rows and the victims of `s`.
  have hmissed : Mispredicted dir t ↔ Mispredicted dir s := by
    rw [Mispredicted, hprov.pred, hprov.comp, ← Mispredicted]
  have hvictims : ∀ k i, IsVictim PC t k i ↔ IsVictim PC s k i := by
    intro k i
    rw [IsVictim, IsVictim, hprov.comp, isBranchRow_congr hhist, htrained]
    refine and_congr_right fun hle => ?_
    rw [trainedRow_of_longer hle]
  cases halloc with
  | unchanged hrows => exact effect_of_unchanged fun k i => (hrows k i).trans (htrained k i)
  | victim k₀ i₀ e hmiss hvictim hnew hrows =>
      rw [IsNewEntry, tagT_congr hhist, ← IsNewEntry] at hnew
      refine effect_of_victim (hmissed.mp hmiss) ((hvictims k₀ i₀).mp hvictim) hnew fun k i => ?_
      rw [hrows, htrained]
  | cleared hmiss hnone hrows =>
      refine effect_of_cleared (hmissed.mp hmiss) (fun k i h => hnone k i ((hvictims k i).mpr h))
        fun k i => ?_
      rw [hrows, htrained, hprov.comp]

/-- Clearing all useful bits when their counter has run out. -/
theorem UpdateEffect.reset {dir : Bool} {t : State} (h : UpdateEffect PC dir s t)
    (hcount : t.useCounter = 0 → s.useCounter = 1 ∧ ProviderWrong dir s) :
    UpdateEffect PC dir s (resetUseful t) := by
  unfold resetUseful
  by_cases hz : t.useCounter = 0
  · rw [if_pos hz]
    have hrows : ∀ k i, State.row { clearUseful (fun _ => true) t with useCounter := 128 } k i
        = { t.row k i with useful := 0 } := clearUseful_row (fun _ => true) t
    rcases h.victim with ⟨victim, hwritten, hkept⟩
    refine ⟨⟨victim, fun k i hv => ?_, fun k i hv => ?_⟩, fun k i _ hne => ?_, fun k i _ _ => ?_⟩
    · rcases hwritten k i hv with ⟨hmiss, hvictim, hnew⟩
      rw [hrows]
      exact ⟨hmiss, hvictim, hnew.1, hnew.2.1, rfl⟩
    · rw [hrows]
      exact hkept k i hv
    · rw [hrows] at hne
      exact absurd rfl hne
    · rw [hrows]
      refine ⟨rfl, Or.inr (Or.inr ⟨(hcount hz).1, (hcount hz).2, fun k i => ?_⟩)⟩
      rw [hrows]
  · rw [if_neg hz]
    exact h

/-- The effect is about the rows of the state after it. -/
theorem UpdateEffect.congr {dir : Bool} {t t' : State} (h : UpdateEffect PC dir s t)
    (hrows : ∀ k i, t'.row k i = t.row k i) : UpdateEffect PC dir s t' where
  victim := by
    simp only [hrows]
    exact h.victim
  set := by
    simp only [hrows]
    exact h.set
  clear := by
    simp only [hrows, LongerCleared, AllCleared]
    exact h.clear

/-- The default predictor has no part in the tagged tables. -/
theorem yields_updateT0_only (PC : UINT32) (dir : Bool) (hs : InRange s) :
    Yields (updateT0 PC dir s) fun s' => ∃ T0Pht T0Phrt,
      s' = { s with T0Pht := T0Pht, T0Phrt := T0Phrt } := by
  refine (s.T0Phrt.yields_get _ (phrtIndex_lt PC)).bind fun history hhistory => ?_
  refine (s.T0Pht.yields_get _ (phtIndex_lt PC)).bind fun pht _ => ?_
  have hrow : history.toNat < T0_PHT_ENTRIES := hhistory ▸ hs.phrt _
  refine (pht.yields_get _ hrow).bind fun mode _ => ?_
  refine (pht.yields_set _ _ hrow).bind fun pht' _ => ?_
  refine (s.T0Pht.yields_set _ _ (phtIndex_lt PC)).bind fun T0Pht _ => ?_
  refine (s.T0Phrt.yields_set _ _ (phrtIndex_lt PC)).bind fun T0Phrt _ => ?_
  exact .ret ⟨T0Pht, T0Phrt, rfl⟩

/-- What an update changes, from any state between two calls. -/
theorem yields_updatePredictor_effect {outs : List Bool} (PC : UINT32) (dir : Bool)
    (h : Sound outs s) : Yields (UpdatePredictor PC dir s) fun s' =>
      SameProvider s s' ∧ UpdateEffect PC dir s s' := by
  refine ((yields_updateT0 PC dir h.inRange).and (yields_updateT0_only PC dir h.inRange)).bind ?_
  intro s₁ h₁
  rcases h₁ with ⟨⟨hs₁, hhist₁⟩, T0Pht, T0Phrt, rfl⟩
  refine ((yields_updateProvider dir hs₁).and (updateProvider_rows dir hs₁ h.useCounter)).bind ?_
  intro r h₂
  rcases h₂ with ⟨⟨hs₂, -⟩, hprov₂, hhist₂, hcount₂, hrows₂⟩
  refine ((yields_allocateOnMiss PC dir r.2.1 r.2.2 hs₂).and
    (allocateOnMiss_rows PC dir r.2.1 r.2.2 r.1)).bind ?_
  intro s₃ h₃
  rcases h₃ with ⟨-, hprov₃, hhist₃, hcount₃, halloc⟩
  -- Up to here nothing has touched the provider or the history.
  have hprov : SameProvider s r.1 := ⟨hprov₂.comp, hprov₂.pred, hprov₂.index, hprov₂.alt⟩
  have hhist : SameHistory s r.1 := ⟨hhist₂.GHR, hhist₂.CSR⟩
  have heffect := (halloc.effect hprov hhist hrows₂).reset fun hz => hcount₂ (hcount₃ ▸ hz)
  have hreset : SameProvider s (resetUseful s₃) ∧ SameHistory s (resetUseful s₃) := by
    have hprov' := hprov.trans hprov₃
    have hhist' := hhist.trans hhist₃
    unfold resetUseful
    split_ifs
    · exact ⟨⟨hprov'.comp, hprov'.pred, hprov'.index, hprov'.alt⟩, hhist'.GHR, hhist'.CSR⟩
    · exact ⟨hprov', hhist'⟩
  refine (yields_updateHistory dir (h.folded.congr hreset.2)).mono fun s₄ h₄ => ?_
  rcases h₄ with ⟨GHR, CSR, rfl, -⟩
  have hprov' := hreset.1
  exact ⟨⟨hprov'.comp, hprov'.pred, hprov'.index, hprov'.alt⟩, heffect.congr fun _ _ => rfl⟩

/-- What an update changes in the tagged tables when it follows a prediction
    of the same branch, in every reachable state. -/
theorem updatePredictor_effect (calls : List Call) (PC : UINT32) (dir : Bool) :
    ∃ s b s₁ s₂, runCalls calls = some s ∧ GetPrediction PC s = some (b, s₁) ∧ s₁.T = s.T ∧
      UpdatePredictor PC dir s₁ = some s₂ ∧ UpdateEffect PC dir s₁ s₂ := by
  rcases yields_runCalls calls with ⟨s, hrun, hsound⟩
  rcases yields_getPrediction PC hsound.inRange with
    ⟨⟨b, s₁⟩, hget, hs₁, comp, pred, index, alt, heq⟩
  subst heq
  have hsound₁ : Sound (outcomes calls) { s with
      providerComp := comp, providerPred := pred, providerIndex := index, altPred := alt } :=
    ⟨hs₁, hsound.folded.congr ⟨rfl, rfl⟩, hsound.useCounter⟩
  rcases yields_updatePredictor_effect PC dir hsound₁ with ⟨s₂, hupdate, -, heffect⟩
  exact ⟨s, b, _, s₂, hrun, hget, rfl, hupdate, heffect⟩

end Predictor

end MicroArch
