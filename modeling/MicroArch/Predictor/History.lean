import MicroArch.Library.Window
import MicroArch.Predictor.Training

/-!
# The Folded History

What the history register and the circular shift registers hold after any
sequence of calls. Each register is moved by one cell at every update and is
never computed from the history, which is why it has to be compared with the
fold of the history from the first update on.

The window of a table is `numHisBits` outcomes, one less than the length the
table is named after, since the loop that moves the history has run before
the registers are moved.

`Folded` is the invariant, between the calls. A prediction leaves history and
registers alone. An update pushes its outcome into every window, and that the
registers follow is `foldXor_slide` of `Library.Window`, once for each of the
two widths; the code moves a register cell by cell and then corrects two cells,
and these are the new bit and the one that fell out.

## Main definitions

* `history`: The outcomes as bits, the most recent one first.
* `Folded`: The history and the registers hold these bits and their folds.

## Theorems

* `yields_rotateCSR`: Moving a register is a slide of its window.
* `yields_updateHistory`: An update pushes its outcome.
* `yields_runCalls`: The ranges and the folds after any sequence of calls.
* `folding_tracks_history`: The registers and the history, cell by cell.
-/

namespace MicroArch

namespace Predictor

open Window

/-- The outcomes as bits. Before the first one there are zeros. -/
def history (outs : List Bool) (i : Nat) : UINT32 := bit (outs.getD i false)

theorem history_cons (dir : Bool) (outs : List Bool) :
    history (dir :: outs) = push (bit dir) (history outs) := by
  ext i
  cases i with
  | zero => rfl
  | succ i => rfl

/-- The number of outcomes that the registers of a table fold. -/
def numHisBits (t : Fin NUM_TAGE_TABLES) : Nat := HIS_BITS t - 1

theorem numHisBits_lt (t : Fin NUM_TAGE_TABLES) : numHisBits t < NUM_GHR_BITS := by
  revert t
  decide

/-- The number of cells that are moved in a register. -/
def csrWidth (n : Fin 2) : Nat := if n = 0 then TAG_WIDTH else TAG_WIDTH - 1

theorem csrWidth_bounds (n : Fin 2) : 0 < csrWidth n ∧ csrWidth n ≤ TAG_WIDTH := by
  revert n
  decide

/-- The history register and the registers of the tables hold the outcomes
    and their folds. -/
structure Folded (outs : List Bool) (s : State) : Prop where
  GHR : ∀ i : Fin NUM_GHR_BITS, s.GHR.cell i = history outs i
  CSR : ∀ t n, ∀ j : Fin TAG_WIDTH,
    (s.CSR t n).cell j = foldXor (csrWidth n) (history outs) j (numHisBits t)

theorem folded_initial : Folded [] InitPredictor where
  GHR i := by
    rw [history, List.getD_nil]
    rfl
  CSR t n j := by
    -- A fold of zeros is zero, whatever the window.
    have hzero : ∀ H, foldXor (csrWidth n) (history []) j H = 0#32 := by
      intro H
      induction H with
      | zero => rfl
      | succ H ih =>
          have hbit : history [] H = 0#32 := rfl
          rw [foldXor_succ, ih, hbit, ite_self, BitVec.xor_zero]
    rw [hzero]
    rfl

theorem Folded.congr {outs : List Bool} {s s' : State} (h : Folded outs s)
    (hsame : SameHistory s s') : Folded outs s' where
  GHR i := by rw [hsame.GHR, h.GHR]
  CSR t n j := by rw [hsame.CSR, h.CSR]

/-- Moving a register slides its window. The history has already been moved. -/
theorem yields_rotateCSR {width H : Nat} {g : Nat → UINT32} {b : UINT32}
    {GHR : CArray NUM_GHR_BITS UINT32} {csr : CArray TAG_WIDTH UINT32}
    (hwidth : 0 < width ∧ width ≤ TAG_WIDTH) (hH : H < NUM_GHR_BITS)
    (hGHR : ∀ i, GHR.cell i = push b g i) (hcsr : ∀ j, csr.cell j = foldXor width g j H) :
    Yields (rotateCSR width H GHR csr)
      fun csr' => ∀ j, csr'.cell j = foldXor width (push b g) j H := by
  have hmod : H % width < width := Nat.mod_lt H hwidth.1
  have hmsb : width - 1 < TAG_WIDTH := by omega
  have hzero : 0 < TAG_WIDTH := by decide
  have hcancel : H % width < TAG_WIDTH := by omega
  refine (csr.yields_get _ hmsb).bind fun msb hmsb => ?_
  refine (GHR.yields_get 0 (by decide)).bind fun newest hnewest => ?_
  refine (CArray.yields_set _ 0 _ hzero).bind fun rotated hrotated => ?_
  refine (GHR.yields_get H hH).bind fun oldest holdest => ?_
  refine (rotated.yields_get _ hcancel).bind fun cancelled hcancelled => ?_
  refine (rotated.yields_set _ _ hcancel).mono fun csr' hcsr' j => ?_
  -- Before the cancellation the cells are the rotation, with the newest bit in the first.
  have hrot : ∀ j : Fin TAG_WIDTH, j.val < width →
      rotated.cell j = (if j.val = 0 then b else 0#32) ^^^ foldXor width g (before width j) H := by
    intro j hj
    rw [hrotated, CArray.update_cell]
    by_cases hz : j.val = 0
    · rw [if_pos (Fin.ext hz), if_pos hz, before, if_pos hz, hnewest, hGHR, hmsb, hcsr]
      rfl
    · have hne : j ≠ ⟨0, hzero⟩ := fun h => hz (congrArg Fin.val h)
      rw [if_neg hne, if_neg hz, before, if_neg hz, csr.moveUp_of_lt (Nat.pos_of_ne_zero hz) hj,
        hcsr, BitVec.zero_xor]
  rw [hcsr', CArray.update_cell]
  by_cases hj : j.val < width
  · rw [foldXor_slide width g b j H hj, ← hrot j hj]
    -- The cell at the length modulo the width takes the bit that leaves.
    by_cases hat : H % width = j.val
    · rw [if_pos (Fin.ext hat.symm), if_pos hat, holdest, hGHR, hcancelled, BitVec.xor_comm]
      congr 2
      exact Fin.ext hat
    · rw [if_neg fun h => hat (congrArg Fin.val h).symm, if_neg hat, BitVec.xor_zero]
  · -- The last cell of the narrower register is never moved.
    have hne : j ≠ ⟨0, hzero⟩ := fun h => hj (by rw [h]; exact hwidth.1)
    have hne' : j ≠ ⟨H % width, hcancel⟩ := fun h => hj (by rw [h]; exact hmod)
    rw [if_neg hne', hrotated, CArray.update_of_ne _ _ hne,
      csr.moveUp_of_le (Nat.le_of_not_lt hj), hcsr,
      foldXor_of_le _ _ _ _ hwidth.1 (Nat.le_of_not_lt hj),
      foldXor_of_le _ _ _ _ hwidth.1 (Nat.le_of_not_lt hj)]

theorem yields_updateCSR {s : State} {g : Nat → UINT32} {b : UINT32} (t : Fin NUM_TAGE_TABLES)
    (hGHR : ∀ i, s.GHR.cell i = push b g i)
    (hcsr : ∀ n j, (s.CSR t n).cell j = foldXor (csrWidth n) g j (numHisBits t)) :
    Yields (updateCSR t (numHisBits t) s) fun s' => ∃ registers : Fin 2 → CArray TAG_WIDTH UINT32,
      s' = { s with CSR := Function.update s.CSR t registers } ∧
        ∀ n j, (registers n).cell j = foldXor (csrWidth n) (push b g) j (numHisBits t) := by
  have hH := numHisBits_lt t
  refine (yields_rotateCSR (csrWidth_bounds 0) hH hGHR (hcsr 0)).bind fun csr0 hcsr0 => ?_
  refine (yields_rotateCSR (csrWidth_bounds 1) hH hGHR (hcsr 1)).bind fun csr1 hcsr1 => ?_
  refine .ret ⟨![csr0, csr1], rfl, fun n j => ?_⟩
  match n with
  | 0 => exact hcsr0 j
  | 1 => exact hcsr1 j

/-- An update pushes its outcome onto the history and leaves the rest of the
    state as it is. -/
theorem yields_updateHistory {outs : List Bool} {s : State} (dir : Bool) (h : Folded outs s) :
    Yields (updateHistory dir s) fun s' => ∃ GHR CSR,
      s' = { s with GHR := GHR, CSR := CSR } ∧ Folded (dir :: outs) s' := by
  -- The history has moved by one, with the outcome in the first cell.
  have hGHR : ∀ i, ((s.GHR.moveUp NUM_GHR_BITS).update 0 (bit dir)).cell i
      = push (bit dir) (history outs) i := by
    intro i
    rw [CArray.update_cell, push]
    by_cases hz : i = 0
    · subst hz
      rfl
    · have hpos : 0 < i.val := Nat.pos_of_ne_zero fun hv => hz (Fin.ext hv)
      rw [if_neg hz, if_neg (Nat.ne_of_gt hpos), s.GHR.moveUp_of_lt hpos i.isLt, h.GHR]
  -- The registers of the first `m` tables have been moved, those of the others have not.
  refine (Yields.foldlM_finRange (fun m s' => ∃ CSR,
      s' = { s with GHR := (s.GHR.moveUp NUM_GHR_BITS).update 0 (bit dir), CSR := CSR } ∧
      ∀ t n, ∀ j : Fin TAG_WIDTH, (CSR t n).cell j = foldXor (csrWidth n)
        (if t.val < m then push (bit dir) (history outs) else history outs) j (numHisBits t))
    ⟨s.CSR, rfl, fun t n j => ?_⟩ fun t s' => ?_).mono fun s' => ?_
  · rw [if_neg (Nat.not_lt_zero _)]
    exact h.CSR t n j
  · intro hcase
    rcases hcase with ⟨CSR, rfl, hCSR⟩
    have hold : ∀ n j, (CSR t n).cell j
        = foldXor (csrWidth n) (history outs) j (numHisBits t) := by
      intro n j
      rw [hCSR, if_neg (Nat.lt_irrefl _)]
    refine (yields_updateCSR t hGHR hold).mono fun s'' => ?_
    intro hcase
    rcases hcase with ⟨registers, rfl, hregisters⟩
    refine ⟨_, rfl, fun t' n j => ?_⟩
    by_cases ht : t' = t
    · subst ht
      rw [Function.update_self, hregisters, if_pos (Nat.lt_succ_self _)]
    · have hiff : t'.val < t.val + 1 ↔ t'.val < t.val := by
        have hne : t'.val ≠ t.val := fun hv => ht (Fin.ext hv)
        omega
      rw [Function.update_of_ne ht, hCSR]
      simp only [hiff]
  · intro hcase
    rcases hcase with ⟨CSR, rfl, hCSR⟩
    refine ⟨_, _, rfl, fun i => ?_, fun t n j => ?_⟩
    · rw [history_cons]
      exact hGHR i
    · rw [history_cons, hCSR, if_pos t.isLt]

/-! ### Sequences of calls -/

/-- What holds between the calls of a sequence. -/
structure Sound (outs : List Bool) (s : State) : Prop where
  inRange : InRange s
  folded : Folded outs s
  useCounter : 0 < s.useCounter

theorem sound_initial : Sound [] InitPredictor where
  inRange := inRange_initial
  folded := folded_initial
  useCounter := by decide

theorem yields_updatePredictor {outs : List Bool} {s : State} (PC : UINT32) (dir : Bool)
    (h : Sound outs s) : Yields (UpdatePredictor PC dir s) (Sound (dir :: outs)) := by
  refine (yields_updateT0 PC dir h.inRange).bind fun s₁ ⟨hs₁, hsame₁⟩ => ?_
  refine (yields_updateProvider dir hs₁).bind fun ⟨s₂, useful, pred⟩ ⟨hs₂, hsame₂⟩ => ?_
  refine (yields_allocateOnMiss PC dir useful pred hs₂).bind fun s₃ ⟨hs₃, hsame₃⟩ => ?_
  rcases inRange_resetUseful hs₃ with ⟨hs₄, hsame₄⟩
  -- Nothing before the last step touches the history.
  have hsame := ((hsame₁.trans hsame₂).trans hsame₃).trans hsame₄
  refine (yields_updateHistory dir (h.folded.congr hsame)).mono fun s' => ?_
  intro hcase
  rcases hcase with ⟨GHR, CSR, rfl, hfolded⟩
  exact ⟨⟨hs₄.phrt, hs₄.pht, hs₄.rows, hs₄.provider, hs₄.providerRow, hs₄.useCounter⟩, hfolded,
    useCounter_resetUseful hs₃⟩

theorem outcomes_append (calls : List Call) (c : Call) :
    outcomes (calls ++ [c]) = (match c with
      | .getPrediction _ => outcomes calls
      | .updatePredictor _ dir => dir :: outcomes calls) := by
  -- By induction on the calls before the last one.
  induction calls with
  | nil =>
      cases c with
      | getPrediction PC => rfl
      | updatePredictor PC dir => rfl
  | cons d calls ih =>
      cases c with
      | getPrediction PC => cases d <;> simp only [List.cons_append, outcomes, ih]
      | updatePredictor PC dir => cases d <;> simp only [List.cons_append, outcomes, ih]

theorem yields_run {outs : List Bool} {s : State} (c : Call) (h : Sound outs s) :
    Yields (c.run s) (Sound (match c with
      | .getPrediction _ => outs
      | .updatePredictor _ dir => dir :: outs)) := by
  cases c with
  | getPrediction PC =>
      change Yields ((GetPrediction PC s).map Prod.snd) (Sound outs)
      refine (yields_getPrediction PC h.inRange).map ?_
      rintro ⟨dir, s'⟩ ⟨hs', comp, pred, index, alt, rfl⟩
      exact ⟨hs', h.folded.congr ⟨rfl, rfl⟩, h.useCounter⟩
  | updatePredictor PC dir => exact yields_updatePredictor PC dir h

/-- Every sequence of calls stays inside all arrays. -/
theorem yields_runCalls (calls : List Call) : Yields (runCalls calls) (Sound (outcomes calls)) :=
  Yields.foldlM (fun pre s => Sound (outcomes pre) s) calls sound_initial fun pre c s h => by
    rw [outcomes_append]
    exact yields_run c h

/-- The history register read at any position. -/
def ghrBit (s : State) (i : Nat) : UINT32 := (s.GHR.get i).getD 0

theorem Folded.foldXor_history {outs : List Bool} {s : State} (h : Folded outs s)
    (width j : Nat) (t : Fin NUM_TAGE_TABLES) :
    foldXor width (history outs) j (numHisBits t) = foldXor width (ghrBit s) j (numHisBits t) := by
  refine foldXor_congr _ _ _ _ _ fun i hi => ?_
  have hlt := hi.trans (numHisBits_lt t)
  rw [ghrBit, s.GHR.get_natCast i hlt, h.GHR]
  rfl

/-- After any sequence of calls the registers hold the folds of the history,
    and the history the most recent outcomes. -/
theorem folding_tracks_history (calls : List Call) :
    ∃ s, runCalls calls = some s ∧
      (∀ t : Fin NUM_TAGE_TABLES,
        (∀ j : Fin 11, (s.CSR t 0).cell j = foldXor 11 (ghrBit s) j (numHisBits t)) ∧
        (∀ j : Fin 11, j.val < 10 →
          (s.CSR t 1).cell j = foldXor 10 (ghrBit s) j (numHisBits t)) ∧
        (s.CSR t 1).cell 10 = 0) ∧
      ∀ i : Fin NUM_GHR_BITS, s.GHR.cell i = bit ((outcomes calls).getD i false) := by
  rcases yields_runCalls calls with ⟨s, hrun, hsound⟩
  have hf := hsound.folded
  refine ⟨s, hrun, fun t => ⟨fun j => ?_, fun j _ => ?_, ?_⟩, hf.GHR⟩
  · rw [hf.CSR, hf.foldXor_history]
    rfl
  · rw [hf.CSR, hf.foldXor_history]
    rfl
  · rw [hf.CSR]
    exact foldXor_of_le 10 _ 10 _ (by decide) (Nat.le_refl _)

end Predictor

end MicroArch
