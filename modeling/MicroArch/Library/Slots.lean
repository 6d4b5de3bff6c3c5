import Mathlib.Data.Fintype.Card
import Mathlib.Data.List.FinRange
import Mathlib.Logic.Function.Basic

/-!
# Arrays of Slots

A fixed array whose cells either hold something or are empty, and the loops
such arrays are scanned with: emptying every cell that holds a given value,
finding the first empty cell, and searching for the cell whose occupant has
the least key.

The least-key search is written the way a C program writes it, with a
running minimum that starts at `-1`. The sentinel is only sound when no key
is negative, and `offer_sound` is the one place that matters: offering a
candidate with a non-negative key keeps the accumulator describing exactly
the candidates seen. `scanOldest_sound` lifts it over a whole array. Stating
soundness for a set of candidates, rather than for one array, is what lets a
search continue from one array into the next with a shared minimum.

## Main definitions

* `Holds`: Some cell holds the value.
* `drop`: The array with every copy of a value emptied.
* `firstFree`: The first empty cell.
* `occupied`: How many cells are occupied.
* `Oldest`: The accumulator of a least-key search.
* `offer`: One comparison of the search.
* `scanOldest`: The search over an array.
* `Oldest.Sound`: The accumulator names a least candidate, or there is none.
* `Packed`: The array is a list followed by empty cells.
* `contents`: The occupants of an array, in order.

## Theorems

* `drop_eq_some`: Dropping a value removes exactly that value.
* `firstFree_eq_some`: The cell found is empty.
* `firstFree_eq_none`: When none is found, every cell is occupied.
* `occupied_lt`: Emptying a cell lowers the count.
* `occupied_update_le`: Filling one raises it by one at most.
* `offer_sound`: Offering a candidate adds it to those accounted for.
* `scanOldest_sound`: Scanning an array adds its candidates.
* `Oldest.found_eq_some`: What a sound search finds is a least candidate.
* `Oldest.found_eq_none`: A sound search that finds nothing had no candidate.
* `Packed.contents_eq`: The contents of a packed array are its list.
* `Packed.append`: Writing the first unused cell appends.
* `Packed.shift`: Moving every cell up by one removes the head.
-/

namespace MicroArch

namespace Slots

variable {α σ : Type*} {n : Nat}

/-- Some cell holds `p`. -/
def Holds (a : Fin n → Option α) (p : α) : Prop := ∃ i, a i = some p

instance [DecidableEq α] (a : Fin n → Option α) (p : α) : Decidable (Holds a p) :=
  inferInstanceAs (Decidable (∃ i, a i = some p))

/-- Every cell that holds `p` is emptied. -/
def drop [DecidableEq α] (p : α) (a : Fin n → Option α) : Fin n → Option α :=
  fun i => if a i = some p then none else a i

theorem drop_eq_some [DecidableEq α] (p q : α) (a : Fin n → Option α) (i : Fin n) :
    drop p a i = some q ↔ a i = some q ∧ q ≠ p := by
  unfold drop
  by_cases hp : a i = some p
  · rw [if_pos hp, hp]
    simp only [reduceCtorEq, Option.some.injEq, false_iff, not_and, not_not]
    exact fun h => h.symm
  · rw [if_neg hp]
    refine ⟨fun h => ⟨h, fun hqp => hp (hqp ▸ h)⟩, fun h => h.1⟩

/-- The first empty cell, if any. -/
def firstFree (a : Fin n → Option α) : Option (Fin n) :=
  (List.finRange n).find? fun i => (a i).isNone

theorem firstFree_eq_some (a : Fin n → Option α) (i : Fin n) (h : firstFree a = some i) :
    a i = none := by
  have hi := List.find?_some h
  exact Option.isNone_iff_eq_none.mp hi

theorem firstFree_eq_none (a : Fin n → Option α) :
    firstFree a = none ↔ ∀ i, a i ≠ none := by
  simp only [firstFree, List.find?_eq_none, List.mem_finRange, forall_const,
    Option.isNone_iff_eq_none, ne_eq]

/-- Filling an empty cell adds exactly one occupant. -/
theorem holds_update (a : Fin n → Option α) (i : Fin n) (p q : α) (hi : a i = none) :
    Holds (Function.update a i (some p)) q ↔ Holds a q ∨ q = p := by
  constructor
  · intro hcase
    rcases hcase with ⟨j, hj⟩
    by_cases hji : j = i
    · rw [hji, Function.update_self, Option.some.injEq] at hj
      exact Or.inr hj.symm
    · rw [Function.update_of_ne hji] at hj
      exact Or.inl ⟨j, hj⟩
  · intro hcase
    rcases hcase with ⟨j, hj⟩ | rfl
    · refine ⟨j, ?_⟩
      rw [Function.update_of_ne]
      · exact hj
      · intro hji
        -- The cell was empty before.
        rw [hji, hi] at hj
        exact absurd hj (by simp only [reduceCtorEq, not_false_eq_true])
    · exact ⟨i, Function.update_self _ _ _⟩

/-- How many cells are occupied. -/
def occupied (a : Fin n → Option α) : Nat := (Finset.univ.filter fun i => (a i).isSome).card

theorem occupied_le {a b : Fin n → Option α} (h : ∀ i p, b i = some p → a i = some p) :
    occupied b ≤ occupied a := by
  refine Finset.card_le_card fun i hi => ?_
  simp only [Finset.mem_filter, Finset.mem_univ, true_and, Option.isSome_iff_exists] at hi ⊢
  rcases hi with ⟨p, hp⟩
  exact ⟨p, h i p hp⟩

/-- Emptying a cell lowers the count. -/
theorem occupied_lt {a b : Fin n → Option α} (h : ∀ i p, b i = some p → a i = some p)
    {i : Fin n} {p : α} (ha : a i = some p) (hb : b i ≠ some p) : occupied b < occupied a := by
  refine Finset.card_lt_card (Finset.ssubset_iff_subset_ne.mpr ⟨fun j hj => ?_, fun heq => ?_⟩)
  · simp only [Finset.mem_filter, Finset.mem_univ, true_and, Option.isSome_iff_exists] at hj ⊢
    rcases hj with ⟨q, hq⟩
    exact ⟨q, h j q hq⟩
  · -- a cell that is still occupied still holds the same value
    have hmem : i ∈ Finset.univ.filter fun j => (b j).isSome := by
      rw [heq]
      simp only [Finset.mem_filter, Finset.mem_univ, true_and, ha, Option.isSome_some]
    simp only [Finset.mem_filter, Finset.mem_univ, true_and, Option.isSome_iff_exists] at hmem
    rcases hmem with ⟨q, hq⟩
    have hqp := h i q hq
    rw [ha, Option.some.injEq] at hqp
    rw [← hqp] at hq
    exact hb hq

/-- Filling a cell raises the count by one at most. -/
theorem occupied_update_le (a : Fin n → Option α) (i : Fin n) (p : α) :
    occupied (Function.update a i (some p)) ≤ occupied a + 1 := by
  refine (Finset.card_le_card fun j hj => ?_).trans (Finset.card_insert_le i _)
  rw [Finset.mem_filter] at hj
  rw [Finset.mem_insert, Finset.mem_filter]
  by_cases hji : j = i
  · exact Or.inl hji
  · rw [Function.update_of_ne hji] at hj
    exact Or.inr hj

/-- The accumulator of a least-key search: the least key so far, `-1` before
    any candidate, and the place it was seen at. -/
structure Oldest (σ : Type*) where
  index : Int
  slot : Option σ

/-- The search before any candidate has been seen. -/
def Oldest.start : Oldest σ := { index := -1, slot := none }

/-- One comparison: a candidate replaces the minimum when its key is smaller
    or when there is no minimum yet. -/
def offer (key : α → Int) (u : σ) (p : α) (acc : Oldest σ) : Oldest σ :=
  if key p < acc.index ∨ acc.index = -1 then { index := key p, slot := some u } else acc

/-- The search over an array, continuing from `acc`. Occupants that fail the
    test are passed over. -/
def scanOldest (key : α → Int) (ok : α → Bool) (name : Fin n → σ) (a : Fin n → Option α)
    (acc : Oldest σ) : Oldest σ :=
  (List.finRange n).foldl (fun acc i => match a i with
    | some p => if ok p then offer key (name i) p acc else acc
    | none => acc) acc

/-- What the search found: nothing while the minimum is still the sentinel. -/
def Oldest.found (acc : Oldest σ) : Option σ := if acc.index = -1 then none else acc.slot

/-- The accumulator accounts for a set of candidates: it names one with a
    least key, or there are none. -/
def Oldest.Sound (key : α → Int) (cand : σ → α → Prop) (acc : Oldest σ) : Prop :=
  (acc = Oldest.start ∧ ∀ u p, ¬ cand u p) ∨
  ∃ u p, cand u p ∧ 0 ≤ key p ∧ acc = { index := key p, slot := some u } ∧
    ∀ v q, cand v q → key p ≤ key q

theorem start_sound (key : α → Int) : Oldest.Sound (σ := σ) key (fun _ _ => False) Oldest.start :=
  Or.inl ⟨rfl, fun _ _ h => h⟩

/-- Soundness only depends on which candidates there are. -/
theorem Oldest.Sound.congr {key : α → Int} {cand cand' : σ → α → Prop} {acc : Oldest σ}
    (h : Oldest.Sound key cand acc) (hiff : ∀ u p, cand' u p ↔ cand u p) :
    Oldest.Sound key cand' acc := by
  have heq : cand' = cand := funext fun u => funext fun p => propext (hiff u p)
  rw [heq]
  exact h

theorem offer_sound (key : α → Int) (cand : σ → α → Prop) (acc : Oldest σ) (u : σ) (p : α)
    (h : Oldest.Sound key cand acc) (hp : 0 ≤ key p) :
    Oldest.Sound key (fun v q => cand v q ∨ (v = u ∧ q = p)) (offer key u p acc) := by
  right
  unfold offer
  rcases h with ⟨hacc, hnone⟩ | ⟨v, q, hv, hq, hacc, hmin⟩
  · -- the sentinel: the candidate is the first one
    refine ⟨u, p, Or.inr ⟨rfl, rfl⟩, hp, ?_, ?_⟩
    · simp only [hacc, Oldest.start, or_true, if_true]
    · rintro w x (hw | ⟨-, rfl⟩)
      · exact absurd hw (hnone w x)
      · exact le_refl _
  · by_cases hlt : key p < key q
    · refine ⟨u, p, Or.inr ⟨rfl, rfl⟩, hp, ?_, ?_⟩
      · rw [hacc, if_pos (Or.inl hlt)]
      · rintro w x (hw | ⟨-, rfl⟩)
        · exact le_of_lt (lt_of_lt_of_le hlt (hmin w x hw))
        · exact le_refl _
    · -- a non-negative minimum is never mistaken for the sentinel
      refine ⟨v, q, Or.inl hv, hq, ?_, ?_⟩
      · rw [hacc, if_neg (by simp only; omega)]
      · rintro w x (hw | ⟨-, rfl⟩)
        · exact hmin w x hw
        · omega

theorem scanOldest_sound (key : α → Int) (ok : α → Bool) (name : Fin n → σ)
    (a : Fin n → Option α) (cand : σ → α → Prop) (acc : Oldest σ)
    (h : Oldest.Sound key cand acc) (hkey : ∀ i p, a i = some p → 0 ≤ key p) :
    Oldest.Sound key
      (fun u p => cand u p ∨ ∃ i, name i = u ∧ a i = some p ∧ ok p = true)
      (scanOldest key ok name a acc) := by
  -- The candidates accounted for are those at the slots already visited.
  have key' : ∀ (l : List (Fin n)) (cand : σ → α → Prop) (acc : Oldest σ),
      Oldest.Sound key cand acc →
      Oldest.Sound key
        (fun u p => cand u p ∨ ∃ i ∈ l, name i = u ∧ a i = some p ∧ ok p = true)
        (l.foldl (fun acc i => match a i with
          | some p => if ok p then offer key (name i) p acc else acc
          | none => acc) acc) := by
    intro l
    induction l with
    | nil =>
        intro cand acc h
        refine h.congr fun u p => ?_
        simp only [List.not_mem_nil, false_and, exists_false, or_false]
    | cons i l ih =>
        intro cand acc h
        rw [List.foldl_cons]
        rcases hi : a i with _ | p
        · -- An empty cell offers nothing.
          refine (ih cand acc h).congr fun u q => ?_
          simp only [List.mem_cons, exists_eq_or_imp, hi, reduceCtorEq, false_and, and_false,
            false_or]
        · by_cases hok : ok p = true
          · simp only [hok, if_true]
            -- An occupant that passes the test is one more candidate.
            refine (ih _ _ (offer_sound key cand acc (name i) p h (hkey i p hi))).congr
              fun u q => ?_
            simp only [List.mem_cons, exists_eq_or_imp, hi, Option.some.injEq, or_assoc]
            refine or_congr_right (or_congr_left ?_)
            refine ⟨fun ⟨h1, h2, _⟩ => ⟨h1.symm, h2.symm⟩, fun ⟨h1, h2⟩ => ⟨h1.symm, h2.symm, ?_⟩⟩
            rw [h2]
            exact hok
          · simp only [hok]
            refine (ih cand acc h).congr fun u q => ?_
            simp only [List.mem_cons, exists_eq_or_imp, hi, Option.some.injEq]
            refine or_congr_right ⟨?_, Or.inr⟩
            intro hcase
            rcases hcase with ⟨-, rfl, hq⟩ | h'
            · exact absurd hq hok
            · exact h'
  refine (key' (List.finRange n) cand acc h).congr fun u p => ?_
  simp only [List.mem_finRange, true_and]

theorem Oldest.found_eq_some {key : α → Int} {cand : σ → α → Prop} {acc : Oldest σ}
    (h : Oldest.Sound key cand acc) (u : σ) (hu : acc.found = some u) :
    ∃ p, cand u p ∧ ∀ v q, cand v q → key p ≤ key q := by
  rcases h with ⟨hacc, -⟩ | ⟨v, q, hv, hq, hacc, hmin⟩
  · rw [hacc] at hu
    simp only [Oldest.found, Oldest.start, if_true, reduceCtorEq] at hu
  · rw [hacc, Oldest.found, if_neg (by simp only; omega), Option.some.injEq] at hu
    rw [← hu]
    exact ⟨q, hv, hmin⟩

theorem Oldest.found_eq_none {key : α → Int} {cand : σ → α → Prop} {acc : Oldest σ}
    (h : Oldest.Sound key cand acc) (hn : acc.found = none) : ∀ u p, ¬ cand u p := by
  rcases h with ⟨-, hnone⟩ | ⟨v, q, hv, hq, hacc, hmin⟩
  · exact hnone
  · rw [hacc, Oldest.found, if_neg (by simp only; omega)] at hn
    exact absurd hn (by simp only [reduceCtorEq, not_false_eq_true])

/-- The array holds the list from its first cell on and nothing after it. -/
structure Packed (a : Fin n → Option α) (l : List α) : Prop where
  bound : l.length ≤ n
  cells : ∀ j : Fin n, a j = l[j.val]?

/-- The occupants of an array, in order. -/
def contents (a : Fin n → Option α) : List α := (List.finRange n).filterMap a

theorem filterMap_getElem? (m : Nat) (l : List α) (h : l.length ≤ m) :
    (List.finRange m).filterMap (fun j => l[j.val]?) = l := by
  induction m generalizing l with
  | zero =>
      have hl : l = [] := List.eq_nil_of_length_eq_zero (by omega)
      rw [hl]
      rfl
  | succ m ih =>
      rw [List.finRange_succ, List.filterMap_cons, List.filterMap_map]
      cases l with
      | nil =>
          simp only [Fin.val_zero, List.getElem?_nil]
          exact ih [] (Nat.zero_le m)
      | cons x l =>
          simp only [Fin.val_zero, List.getElem?_cons_zero]
          have hlen : l.length ≤ m := by
            rw [List.length_cons] at h
            omega
          refine congrArg (x :: ·) ((List.filterMap_congr fun j _ => ?_).trans (ih l hlen))
          simp only [Function.comp_apply, Fin.val_succ, List.getElem?_cons_succ]

theorem Packed.contents_eq {a : Fin n → Option α} {l : List α} (h : Packed a l) :
    contents a = l := by
  unfold contents
  rw [show a = fun j => l[j.val]? from funext h.cells]
  exact filterMap_getElem? n l h.bound

theorem Packed.append {a : Fin n → Option α} {l : List α} (h : Packed a l) (hlt : l.length < n)
    (p : α) : Packed (fun j : Fin n => if j.val = l.length then some p else a j) (l ++ [p]) where
  bound := by
    rw [List.length_append, List.length_singleton]
    omega
  cells j := by
    by_cases hj : j.val = l.length
    · rw [if_pos hj, hj, List.getElem?_concat_length]
    · rw [if_neg hj, h.cells]
      -- A cell before the first free one, or behind it.
      rcases Nat.lt_or_ge j.val l.length with hlt' | hge
      · rw [List.getElem?_append_left hlt']
      · rw [List.getElem?_eq_none_iff.mpr hge, List.getElem?_eq_none_iff.mpr]
        rw [List.length_append, List.length_singleton]
        omega

theorem Packed.shift {a : Fin n → Option α} {x : α} {l : List α} (h : Packed a (x :: l)) :
    Packed (fun j : Fin n => if hj : j.val + 1 < n then a ⟨j.val + 1, hj⟩ else none) l where
  bound := by
    have hb := h.bound
    rw [List.length_cons] at hb
    omega
  cells j := by
    by_cases hj : j.val + 1 < n
    · rw [dif_pos hj, h.cells, List.getElem?_cons_succ]
    · have hb := h.bound
      rw [List.length_cons] at hb
      rw [dif_neg hj, List.getElem?_eq_none_iff.mpr (by omega)]

end Slots

end MicroArch
