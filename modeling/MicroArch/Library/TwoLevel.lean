import Mathlib.Algebra.BigOperators.Group.Finset.Basic
import Mathlib.Algebra.Order.BigOperators.Group.Finset
import Mathlib.Data.Finset.Card
import Mathlib.Data.List.OfFn
import Mathlib.Data.Nat.Periodic
import Mathlib.Data.Set.Card
import Mathlib.Logic.Function.Basic

/-!
# Two-Level Predictors

A predictor with a table of local histories and tables of saturating
counters. A branch is known by the entry of the first level it uses, where
its last outcomes are kept as a number, and by the table of the second level
in which that number selects its counter. Entries of either level may be
shared by branches that share nothing of the other.

A run is a list of resolved branches, the newest one first, so that the rest
of a list is the run before its head. The reference reads both levels off the
run: a history is the number its last outcomes form, and a counter has been
trained by exactly the outcomes that met it, which are those of branches of
its table whose history was then its own.

A branch that shares its entries with no other learns every pattern that its
history can hold. Once the history is full, the counter selected is only ever
trained in one direction, so each counter mispredicts a bounded number of
times; `remaining` is what is left of that bound, and pays for the
mispredictions.

## Main definitions

* `Shape`: The sizes of a predictor.
* `Shape.after`: The tables after a run.
* `Shape.pattern`: The history of an entry, read off the run.
* `Shape.trained`: The outcomes that met a counter.
* `Shape.missed`: The mispredictions of a branch.
* `Shape.Follows`: From full histories on, the history decides the outcome.
* `Shape.Fits`: In a sequence, equal histories have equal successors.

## Theorems

* `value_take`: The last outcomes are the low bits.
* `Shape.after_history`: A history is the number its last outcomes form.
* `Shape.after_counter`: A counter was trained by the outcomes that met it.
* `Shape.missed_le`: A branch with a pattern is learned.
* `Shape.missed_le_of_fits`: So is one whose outcomes fit its history.
-/

namespace MicroArch

namespace TwoLevel

variable {β τ : Type*}

/-- The sizes of a predictor: the length of a history, the greatest value of
    a counter, its value at the start, and the least one that predicts a
    taken branch. -/
structure Shape where
  bits : Nat
  top : Nat
  start : Nat
  taken : Nat
  start_le : start ≤ top
  taken_pos : 0 < taken
  taken_le : taken ≤ top

/-- A resolved branch: the entry it uses in each level, and its outcome. -/
structure Event (β τ : Type*) where
  first : β
  second : τ
  dir : Bool

/-- The contents of both levels. -/
structure Tables (β τ : Type*) where
  history : β → Nat
  counter : τ → Nat → Nat

/-- A saturating counter moves towards the outcome. -/
def sat (top : Nat) (dir : Bool) (c : Nat) : Nat := if dir then min top (c + 1) else c - 1

/-- The number whose bits are the outcomes, the first one in bit zero. -/
def value : List Bool → Nat
  | [] => 0
  | dir :: outs => 2 * value outs + dir.toNat

/-! ### Numbers and counters -/

/-- The last outcomes are the low bits of the number that all of them form. -/
theorem value_take (m : Nat) (outs : List Bool) : value (outs.take m) = value outs % 2 ^ m := by
  induction m generalizing outs with
  | zero => rw [List.take_zero, Nat.pow_zero, Nat.mod_one, value]
  | succ m ih =>
      cases outs with
      | nil => rw [List.take_nil, value, Nat.zero_mod]
      | cons dir outs =>
          -- The newest outcome is the lowest bit, and the rest is shifted up by one.
          have hdir := Bool.toNat_lt dir
          rw [List.take_succ_cons, value, value, ih, Nat.pow_succ', Nat.mod_mul]
          have hlow : (2 * value outs + dir.toNat) % 2 = dir.toNat := by omega
          have hhigh : (2 * value outs + dir.toNat) / 2 = value outs := by omega
          rw [hlow, hhigh, Nat.add_comm]

/-- Outcomes can be read back off their number. -/
theorem value_injective {outs outs' : List Bool} (hlen : outs.length = outs'.length)
    (h : value outs = value outs') : outs = outs' := by
  induction outs generalizing outs' with
  | nil => exact (List.eq_nil_of_length_eq_zero hlen.symm).symm
  | cons dir outs ih =>
      cases outs' with
      | nil => exact absurd hlen (by simp only [List.length_cons, List.length_nil]; omega)
      | cons dir' outs' =>
          rw [value, value] at h
          have hdir := Bool.toNat_lt dir
          have hdir' := Bool.toNat_lt dir'
          -- The lowest bits agree and so do the rest, since a number has one parity.
          have htail := ih (Nat.succ.inj hlen) (by omega)
          have hbit : ∀ b b' : Bool, b.toNat = b'.toNat → b = b' := by decide
          have hhead := hbit dir dir' (by omega)
          rw [htail, hhead]

theorem sat_le {top c : Nat} (h : c ≤ top) (dir : Bool) : sat top dir c ≤ top := by
  cases dir with
  | false => exact (Nat.sub_le c 1).trans h
  | true => exact Nat.min_le_left _ _

/-- The value a counter gets to by its outcomes. -/
def Shape.count (S : Shape) : List Bool → Nat
  | [] => S.start
  | dir :: outs => sat S.top dir (count S outs)

theorem Shape.count_le {S : Shape} (outs : List Bool) : S.count outs ≤ S.top := by
  induction outs with
  | nil => exact S.start_le
  | cons dir outs ih => exact sat_le ih dir

/-! ### The tables -/

namespace Shape

variable [DecidableEq β] [DecidableEq τ] (S : Shape)

/-- Trains the counter that the old history selects, then appends the outcome
    to the history. -/
def record (s : Tables β τ) (e : Event β τ) : Tables β τ :=
  { history := Function.update s.history e.first
      ((2 * s.history e.first + e.dir.toNat) % 2 ^ S.bits)
    counter := Function.update s.counter e.second
      (Function.update (s.counter e.second) (s.history e.first)
        (sat S.top e.dir (s.counter e.second (s.history e.first)))) }

/-- The tables after a run. -/
def after : List (Event β τ) → Tables β τ
  | [] => { history := fun _ => 0, counter := fun _ _ => S.start }
  | e :: es => S.record (after es) e

/-- The direction that is predicted for the next branch of two entries. -/
def predict (s : Tables β τ) (b : β) (t : τ) : Bool :=
  decide (S.taken ≤ s.counter t (s.history b))

variable {S}

theorem record_history (s : Tables β τ) (e : Event β τ) (b : β) :
    (S.record s e).history b = if b = e.first
      then (2 * s.history e.first + e.dir.toNat) % 2 ^ S.bits else s.history b :=
  Function.update_apply _ _ _ _

theorem record_counter (s : Tables β τ) (e : Event β τ) (t : τ) (h : Nat) :
    (S.record s e).counter t h = if t = e.second ∧ h = s.history e.first
      then sat S.top e.dir (s.counter t h) else s.counter t h := by
  change Function.update s.counter e.second _ t h = _
  rw [Function.update_apply]
  by_cases ht : t = e.second
  · subst ht
    rw [if_pos rfl, Function.update_apply]
    -- In the table that is trained, only the counter of the old history changes.
    by_cases hh : h = s.history e.first
    · rw [if_pos hh, if_pos ⟨rfl, hh⟩, hh]
    · rw [if_neg hh, if_neg fun heq => hh heq.2]
  · rw [if_neg ht, if_neg fun heq => ht heq.1]

end Shape

/-! ### The reference -/

section Histories

variable [DecidableEq β]

/-- The outcomes of the branches that use an entry of the first level. -/
def outcomesAt (b : β) (es : List (Event β τ)) : List Bool :=
  (es.filter fun e => e.first = b).map fun e => e.dir

theorem outcomesAt_cons_self {b : β} {e : Event β τ} (es : List (Event β τ)) (h : e.first = b) :
    outcomesAt b (e :: es) = e.dir :: outcomesAt b es := by
  rw [outcomesAt, List.filter_cons_of_pos (by rw [decide_eq_true_eq]; exact h)]
  rfl

theorem outcomesAt_cons_of_ne {b : β} {e : Event β τ} (es : List (Event β τ)) (h : e.first ≠ b) :
    outcomesAt b (e :: es) = outcomesAt b es := by
  rw [outcomesAt, List.filter_cons_of_neg (by rw [decide_eq_true_eq]; exact h)]
  rfl

/-- The number that the last outcomes of an entry form. -/
def Shape.pattern (S : Shape) (b : β) (es : List (Event β τ)) : Nat :=
  value ((outcomesAt b es).take S.bits)

theorem Shape.pattern_lt (S : Shape) (b : β) (es : List (Event β τ)) :
    S.pattern b es < 2 ^ S.bits := by
  rw [pattern, value_take]
  exact Nat.mod_lt _ (Nat.two_pow_pos _)

end Histories

namespace Shape

variable [DecidableEq β] [DecidableEq τ] {S : Shape}

/-- The outcomes of those branches that use a table of the second level while
    their history is `h`. -/
def trained (S : Shape) (t : τ) (h : Nat) : List (Event β τ) → List Bool
  | [] => []
  | e :: es => if e.second = t ∧ S.pattern e.first es = h then e.dir :: trained S t h es
      else trained S t h es

/-- A history is the number its last outcomes form. -/
theorem after_history (b : β) (es : List (Event β τ)) :
    (S.after es).history b = S.pattern b es := by
  induction es with
  | nil => rw [after, pattern, outcomesAt, List.filter_nil, List.map_nil, List.take_nil, value]
  | cons e es ih =>
      rw [after, record_history]
      by_cases hb : b = e.first
      · subst hb
        rw [if_pos rfl, ih, pattern, pattern, outcomesAt_cons_self es rfl, value_take, value_take,
          value]
        -- The bits that are dropped before the shift are those it would drop.
        rw [Nat.add_mod, Nat.mul_mod, Nat.mod_mod, ← Nat.mul_mod, ← Nat.add_mod]
      · rw [if_neg hb, ih, pattern, pattern, outcomesAt_cons_of_ne es fun h => hb h.symm]

/-- A counter was trained by exactly the outcomes that met it. -/
theorem after_counter (t : τ) (h : Nat) (es : List (Event β τ)) :
    (S.after es).counter t h = S.count (S.trained t h es) := by
  induction es with
  | nil => rw [after, trained, count]
  | cons e es ih =>
      rw [after, record_counter, trained, after_history, ih]
      -- Since the histories are those of the reference, the same outcomes meet the counter.
      by_cases hmet : e.second = t ∧ S.pattern e.first es = h
      · rw [if_pos ⟨hmet.1.symm, hmet.2.symm⟩, if_pos hmet, count]
      · rw [if_neg fun heq => hmet ⟨heq.1.symm, heq.2.symm⟩, if_neg hmet]

theorem counter_le (t : τ) (h : Nat) (es : List (Event β τ)) :
    (S.after es).counter t h ≤ S.top := by
  rw [after_counter]
  exact count_le _

end Shape

/-! ### Learning -/

namespace Shape

variable [DecidableEq β] [DecidableEq τ] {S : Shape} {b : β} {t : τ} {es : List (Event β τ)}

/-- The mispredictions of the branch that uses the two entries. -/
def missed (S : Shape) (b : β) (t : τ) : List (Event β τ) → Nat
  | [] => 0
  | e :: es => missed S b t es +
      if e.first = b ∧ e.second = t ∧ S.predict (S.after es) b t ≠ e.dir then 1 else 0

/-- From full histories on, the branches of an entry have a pattern: their
    history is one of `W`, and decides the outcome. -/
def Follows (S : Shape) (b : β) (W : Finset Nat) (next : Nat → Bool) : List (Event β τ) → Prop
  | [] => True
  | e :: es => Follows S b W next es ∧
      (e.first = b → S.bits ≤ (outcomesAt b es).length →
        S.pattern b es ∈ W ∧ e.dir = next (S.pattern b es))

/-- Of the mispredictions of a counter that is only trained towards `dir`, how
    many are still to come. -/
def remaining (S : Shape) (dir : Bool) (c : Nat) : Nat :=
  if dir then S.taken - c else c + 1 - S.taken

theorem remaining_sat {c : Nat} (hc : c ≤ S.top) (dir : Bool) :
    S.remaining dir (sat S.top dir c) + (if decide (S.taken ≤ c) ≠ dir then 1 else 0)
      ≤ S.remaining dir c := by
  have htaken := S.taken_le
  have hpos := S.taken_pos
  cases dir with
  | false =>
      simp only [remaining, sat, Bool.false_eq_true, if_false, ne_eq, decide_eq_false_iff_not,
        not_not]
      split_ifs <;> omega
  | true =>
      simp only [remaining, sat, if_true, ne_eq, decide_eq_true_eq]
      split_ifs <;> omega

/-- The bound on the mispredictions of one counter. -/
def limit (S : Shape) : Nat := max S.taken (S.top + 1 - S.taken)

theorem remaining_le {c : Nat} (hc : c ≤ S.top) (dir : Bool) : S.remaining dir c ≤ S.limit := by
  cases dir with
  | false =>
      -- Towards not taken the counter has to fall below the threshold, from the top at most.
      refine le_trans ?_ (le_max_right _ _)
      exact Nat.sub_le_sub_right (Nat.succ_le_succ hc) _
  | true => exact (Nat.sub_le _ _).trans (le_max_left _ _)

/-- What is left of the bounds of the counters that the pattern uses. -/
def debt (S : Shape) (W : Finset Nat) (next : Nat → Bool) (t : τ) (es : List (Event β τ)) : Nat :=
  ∑ w ∈ W, S.remaining (next w) ((S.after es).counter t w)

theorem debt_le (W : Finset Nat) (next : Nat → Bool) (t : τ) (es : List (Event β τ)) :
    S.debt W next t es ≤ S.limit * W.card := by
  rw [Nat.mul_comm]
  exact Finset.sum_le_card_nsmul _ _ _ fun w _ => remaining_le (counter_le t w es) _

/-- A step that follows the pattern pays for its misprediction. -/
theorem debt_cons {W : Finset Nat} {next : Nat → Bool} {e : Event β τ} (ht : e.second = t)
    (hmem : S.pattern e.first es ∈ W) (hdir : e.dir = next (S.pattern e.first es)) :
    S.debt W next t (e :: es) +
        (if S.predict (S.after es) e.first t ≠ e.dir then 1 else 0) ≤ S.debt W next t es := by
  rw [debt, debt, ← Finset.add_sum_erase _ _ hmem, ← Finset.add_sum_erase _ _ hmem]
  -- The counters of the other histories keep what they have.
  have hother : ∀ w ∈ W.erase (S.pattern e.first es),
      S.remaining (next w) ((S.after (e :: es)).counter t w) =
        S.remaining (next w) ((S.after es).counter t w) := by
    intro w hw
    rw [after, record_counter, after_history, if_neg fun h => (Finset.mem_erase.mp hw).1 h.2]
  -- The one that was selected pays, since it is trained in its own direction.
  have hown := remaining_sat (counter_le (S := S) t (S.pattern e.first es) es) e.dir
  rw [Finset.sum_congr rfl hother, after, record_counter, after_history, if_pos ⟨ht.symm, rfl⟩,
    predict, after_history, ← hdir]
  omega

/-- The two entries are used by one branch only. -/
def Alone (b : β) (t : τ) (es : List (Event β τ)) : Prop :=
  ∀ e ∈ es, (e.first = b ∧ e.second = t) ∨ (e.first ≠ b ∧ e.second ≠ t)

theorem debt_cons_other {W : Finset Nat} {next : Nat → Bool} {e : Event β τ} (ht : e.second ≠ t) :
    S.debt W next t (e :: es) = S.debt W next t es := by
  refine Finset.sum_congr rfl fun w _ => ?_
  rw [after, record_counter, if_neg fun h => ht h.1.symm]

theorem missed_le_length (S : Shape) (b : β) (t : τ) (es : List (Event β τ)) :
    S.missed b t es ≤ (outcomesAt b es).length := by
  induction es with
  | nil => exact Nat.zero_le _
  | cons e es ih =>
      rw [missed]
      by_cases hb : e.first = b
      · rw [outcomesAt_cons_self es hb, List.length_cons]
        split_ifs <;> omega
      · rw [outcomesAt_cons_of_ne es hb, if_neg fun h => hb h.1]
        exact ih

/-- The mispredictions of a branch that follows a pattern, together with those
    that its counters still have in them, stay within the bounds of the
    counters and the outcomes it takes to fill the history. -/
theorem missed_add_debt_le {W : Finset Nat} {next : Nat → Bool} (halone : Alone b t es)
    (hfollows : S.Follows b W next es) :
    S.missed b t es + S.debt W next t es ≤ min S.bits (outcomesAt b es).length
      + S.limit * W.card := by
  induction es with
  | nil =>
      rw [missed, Nat.zero_add]
      exact (debt_le W next t []).trans (Nat.le_add_left _ _)
  | cons e es ih =>
      have ih := ih (fun e' he' => halone e' (List.mem_cons_of_mem _ he')) hfollows.1
      rcases halone e List.mem_cons_self with ⟨hb, ht⟩ | ⟨hb, ht⟩
      · by_cases hfull : S.bits ≤ (outcomesAt b es).length
        · rcases hfollows.2 hb hfull with ⟨hmem, hdir⟩
          rw [← hb] at hmem hdir
          -- With a full history the step pays for its own misprediction.
          have hpay := debt_cons ht hmem hdir
          rw [hb] at hpay
          have hmissed : S.missed b t (e :: es) = S.missed b t es +
              (if S.predict (S.after es) b t ≠ e.dir then 1 else 0) := by
            rw [missed]
            simp only [hb, ht, true_and]
          rw [outcomesAt_cons_self es hb, List.length_cons, hmissed]
          omega
        · -- While the history fills, every outcome may be mispredicted.
          have hlen := missed_le_length S b t (e :: es)
          have hdebt := debt_le (S := S) W next t (e :: es)
          rw [outcomesAt_cons_self es hb, List.length_cons] at hlen ⊢
          omega
      · -- Another branch uses neither of the two entries.
        rw [missed, if_neg fun h => hb h.1, debt_cons_other ht, outcomesAt_cons_of_ne es hb]
        exact ih

/-- A branch that follows a pattern is learned. -/
theorem missed_le {W : Finset Nat} {next : Nat → Bool} (halone : Alone b t es)
    (hfollows : S.Follows b W next es) : S.missed b t es ≤ S.bits + S.limit * W.card := by
  have hle := missed_add_debt_le halone hfollows
  omega

/-! ### Sequences of outcomes -/

/-- The outcomes of a sequence from a position on, as many as a history
    holds. -/
def window (S : Shape) (x : Nat → Bool) (i : Nat) : Fin S.bits → Bool := fun j => x (i + j)

/-- Equal histories are followed by equal outcomes. -/
def Fits (S : Shape) (x : Nat → Bool) : Prop :=
  ∀ i j, S.window x i = S.window x j → x (i + S.bits) = x (j + S.bits)

/-- The number of different histories in a sequence. -/
noncomputable def windows (S : Shape) (x : Nat → Bool) : Nat := (Set.range (S.window x)).ncard

/-- A sequence has as many histories as its period, or fewer. -/
theorem windows_le_of_periodic {x : Nat → Bool} {k : Nat} (hk : 0 < k)
    (h : Function.Periodic x k) : S.windows x ≤ k := by
  -- Each window is one of the windows of the first period.
  have hsame : ∀ i, S.window x i = S.window x (i % k) := by
    intro i
    funext j
    rw [window, window, ← h.map_mod_nat (i + j), ← h.map_mod_nat (i % k + j), Nat.mod_add_mod]
  have hsub : Set.range (S.window x) ⊆ ((Finset.range k).image (S.window x) : Finset _) := by
    rintro _ ⟨i, rfl⟩
    rw [hsame i]
    exact Finset.mem_coe.mpr (Finset.mem_image_of_mem _ (Finset.mem_range.mpr (Nat.mod_lt i hk)))
  have hle := Set.ncard_le_ncard hsub (Finset.finite_toSet _)
  rw [Set.ncard_coe_finset] at hle
  exact hle.trans (Finset.card_image_le.trans (Finset.card_range k).le)

/-- The number a history stands for. -/
def number (w : Fin S.bits → Bool) : Nat := value (List.ofFn w).reverse

theorem number_injective {w w' : Fin S.bits → Bool} (h : number w = number w') : w = w' := by
  have hlist := value_injective (by simp only [List.length_reverse, List.length_ofFn]) h
  exact List.ofFn_injective (List.reverse_injective hlist)

/-- The last outcomes of an initial segment are a window of the sequence. -/
theorem take_reverse_map_range (x : Nat → Bool) (i : Nat) :
    (((List.range (i + S.bits)).map x).reverse).take S.bits =
      (List.ofFn (S.window x i)).reverse := by
  have hlen : (((List.range S.bits).map fun j => i + j).map x).reverse.length = S.bits := by
    simp only [List.length_reverse, List.length_map, List.length_range]
  rw [List.range_add, List.map_append, List.reverse_append, List.take_left' hlen]
  refine congrArg List.reverse (List.ext_getElem ?_ fun j hj hj' => ?_)
  · simp only [List.length_map, List.length_range, List.length_ofFn]
  · simp only [List.getElem_map, List.getElem_range, List.getElem_ofFn, window]

/-- The numbers of the histories of a sequence. -/
noncomputable def numbers (S : Shape) (x : Nat → Bool) : Finset Nat :=
  (Set.toFinite (Set.range (S.window x))).toFinset.image number

open Classical in
/-- The outcome that follows a history. -/
noncomputable def successor (S : Shape) (x : Nat → Bool) (h : Nat) : Bool :=
  decide (∃ i, number (S.window x i) = h ∧ x (i + S.bits) = true)

open Classical in
theorem Fits.successor {x : Nat → Bool} (h : S.Fits x) (i : Nat) :
    S.successor x (number (S.window x i)) = x (i + S.bits) := by
  rw [Shape.successor]
  cases hx : x (i + S.bits) with
  | true => exact decide_eq_true ⟨i, rfl, hx⟩
  | false =>
      refine decide_eq_false fun hex => ?_
      rcases hex with ⟨j, hj, hxj⟩
      rw [h j i (number_injective hj), hx] at hxj
      exact absurd hxj (by simp only [reduceCtorEq, not_false_eq_true])

omit [DecidableEq τ] in
theorem follows_of_fits {x : Nat → Bool} (hfits : S.Fits x) {n : Nat}
    (hout : outcomesAt b es = ((List.range n).map x).reverse) :
    S.Follows b (S.numbers x) (S.successor x) es := by
  induction es generalizing n with
  | nil => exact trivial
  | cons e es ih =>
      by_cases hb : e.first = b
      · rw [outcomesAt_cons_self es hb] at hout
        cases n with
        | zero => exact absurd hout (by simp only [List.range_zero, List.map_nil,
            List.reverse_nil, reduceCtorEq, not_false_eq_true])
        | succ m =>
            rw [List.range_succ, List.map_append, List.map_singleton, List.reverse_append,
              List.reverse_singleton, List.singleton_append, List.cons.injEq] at hout
            refine ⟨ih hout.2, fun _ hfull => ?_⟩
            rw [hout.2, List.length_reverse, List.length_map, List.length_range] at hfull
            -- The history is the window that ends right before the outcome.
            have hm : m - S.bits + S.bits = m := Nat.sub_add_cancel hfull
            have hpattern : S.pattern b es = number (S.window x (m - S.bits)) := by
              rw [pattern, hout.2, number, ← take_reverse_map_range, hm]
            rw [hpattern, hfits.successor, hm]
            refine ⟨Finset.mem_image_of_mem _ ?_, hout.1⟩
            exact (Set.Finite.mem_toFinset _).mpr ⟨_, rfl⟩
      · rw [outcomesAt_cons_of_ne es hb] at hout
        exact ⟨ih hout, fun h => absurd h hb⟩

/-- A branch whose outcomes fit its history is learned. -/
theorem missed_le_of_fits {x : Nat → Bool} (hfits : S.Fits x) (halone : Alone b t es) {n : Nat}
    (hout : outcomesAt b es = ((List.range n).map x).reverse) :
    S.missed b t es ≤ S.bits + S.limit * S.windows x := by
  refine (missed_le halone (follows_of_fits hfits hout)).trans ?_
  refine Nat.add_le_add_left (Nat.mul_le_mul_left _ ?_) _
  rw [windows, Set.ncard_eq_toFinset_card]
  exact Finset.card_image_le

end Shape

end TwoLevel

end MicroArch
