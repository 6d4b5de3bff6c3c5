import Mathlib.Data.List.Nodup
import Mathlib.Logic.Function.Basic

/-!
# Chains of Pointers

Singly linked lists in a heap whose cells are the elements of a type. The
heap is a function `next` that gives the pointer stored in a cell, and `none`
is the null pointer. `Seg next p l q` says that following `next` from `p`
runs through the cells of `l`, in this order, and arrives at `q`; a chain is
a segment that ends in the null pointer.

Writing one cell changes a segment only if the cell is on it. So updates are
followed by splitting a segment at the cell that is written: the part before
it is kept by `Seg.update_of_notMem`, and what the cell points to is replaced
by `Seg.update_last`.

A loop along a chain runs until the null pointer. It is bounded here, and
without a result when the bound is not enough.

## Main definitions

* `Seg`, `Chain`: The cells a pointer leads through.
* `search`: The first cell along a chain with a property.
* `count`: How many cells there are.
* `locate`: A given cell, with its predecessor on the way.

## Theorems

* `seg_append`: Splitting a segment.
* `search_eq`: The search finds what the list of cells holds first.
* `count_eq`: The count is the length of the list.
* `locate_eq`: A cell that is on the chain is found.
-/

namespace MicroArch

namespace Pointer

variable {α : Type*}

/-- Following `next` from `p` runs through the cells of `l` to `q`. -/
def Seg (next : α → Option α) : Option α → List α → Option α → Prop
  | p, [], q => p = q
  | p, a :: l, q => p = some a ∧ Seg next (next a) l q

/-- Following `next` from `p` runs through the cells of `l` to the null
    pointer. -/
abbrev Chain (next : α → Option α) (p : Option α) (l : List α) : Prop := Seg next p l none

variable {next next' : α → Option α} {p q : Option α} {l l' : List α} {a : α}

@[simp] theorem seg_nil : Seg next p [] q ↔ p = q := Iff.rfl

@[simp] theorem seg_cons : Seg next p (a :: l) q ↔ p = some a ∧ Seg next (next a) l q := Iff.rfl

theorem seg_append : Seg next p (l ++ l') q ↔ ∃ r, Seg next p l r ∧ Seg next r l' q := by
  induction l generalizing p with
  | nil => simp only [List.nil_append, seg_nil, exists_eq_left']
  | cons b l ih =>
      rw [List.cons_append, seg_cons, ih]
      simp only [seg_cons, and_assoc, exists_and_left]

/-- The last cell of a segment points to its end. -/
theorem seg_concat : Seg next p (l ++ [a]) q ↔ Seg next p l (some a) ∧ next a = q := by
  rw [seg_append]
  simp only [seg_cons, seg_nil]
  constructor
  · intro h
    rcases h with ⟨r, hl, rfl, ha⟩
    exact ⟨hl, ha⟩
  · intro h
    exact ⟨some a, h.1, rfl, h.2⟩

/-- A segment through a cell, split there. -/
theorem seg_middle : Seg next p (l ++ a :: l') q ↔
    Seg next p l (some a) ∧ Seg next (next a) l' q := by
  rw [seg_append]
  simp only [seg_cons]
  constructor
  · intro h
    rcases h with ⟨r, hl, rfl, ha⟩
    exact ⟨hl, ha⟩
  · intro h
    exact ⟨some a, h.1, rfl, h.2⟩

/-- Only the cells of a segment matter to it. -/
theorem Seg.congr (h : Seg next p l q) (hnext : ∀ b ∈ l, next' b = next b) : Seg next' p l q := by
  induction l generalizing p with
  | nil => exact h
  | cons b l ih =>
      rw [seg_cons] at h ⊢
      rw [hnext b List.mem_cons_self]
      exact ⟨h.1, ih h.2 fun c hc => hnext c (List.mem_cons_of_mem b hc)⟩

/-- Where a segment starts. -/
theorem Seg.start (h : Seg next p l none) : p = l.head? := by
  cases l with
  | nil => exact h
  | cons b l => exact h.1

section Update

variable [DecidableEq α]

/-- Writing a cell that is not on the segment. -/
theorem Seg.update_of_notMem {r : Option α} (h : Seg next p l q) (ha : a ∉ l) :
    Seg (Function.update next a r) p l q :=
  h.congr fun _ hb => Function.update_of_ne (ne_of_mem_of_not_mem hb ha) _ _

/-- Writing the last cell of a segment moves its end. -/
theorem Seg.update_last {r : Option α} (h : Seg next p (l ++ [a]) q) (ha : a ∉ l) :
    Seg (Function.update next a r) p (l ++ [a]) r := by
  rw [seg_concat] at h ⊢
  exact ⟨h.1.update_of_notMem ha, Function.update_self _ _ _⟩

/-- A segment that is led past a cell. -/
theorem Seg.skip {r : Option α} {b : α} (h : Seg next p (l ++ [b]) (some a))
    (hl' : Chain next r l') (hb : b ∉ l) (hb' : b ∉ l') :
    Chain (Function.update next b r) p ((l ++ [b]) ++ l') :=
  seg_append.mpr ⟨r, h.update_last hb, hl'.update_of_notMem hb'⟩

end Update

/-! ### Loops along a chain -/

/-- The first cell along a chain that satisfies the test, looking at no more
    cells than the bound. -/
def search (next : α → Option α) (test : α → Bool) : Nat → Option α → Option (Option α)
  | _, none => some none
  | 0, some _ => none
  | n + 1, some a => if test a then some (some a) else search next test n (next a)

theorem search_eq {test : α → Bool} (h : Chain next p l) {n : Nat} (hn : l.length ≤ n) :
    search next test n p = some (l.find? test) := by
  induction l generalizing p n with
  | nil =>
      have hp : p = none := h
      subst hp
      cases n <;> rfl
  | cons b l ih =>
      -- The bound shrinks with the chain, so it is not used up before the end.
      rcases h with ⟨rfl, h⟩
      cases n with
      | zero => exact absurd hn (Nat.not_succ_le_zero _)
      | succ n =>
          rw [search, List.find?_cons]
          cases test b with
          | true => rfl
          | false => exact ih h (Nat.le_of_succ_le_succ hn)

/-- The number of cells along a chain, which the bound is meant to cover. -/
def count (next : α → Option α) : Nat → Option α → Nat
  | n + 1, some a => count next n (next a) + 1
  | _, _ => 0

theorem count_eq (h : Chain next p l) {n : Nat} (hn : l.length ≤ n) :
    count next n p = l.length := by
  induction l generalizing p n with
  | nil =>
      have hp : p = none := h
      subst hp
      cases n <;> rfl
  | cons b l ih =>
      rcases h with ⟨rfl, h⟩
      cases n with
      | zero => exact absurd hn (Nat.not_succ_le_zero _)
      | succ n => rw [count, ih h (Nat.le_of_succ_le_succ hn), List.length_cons]

/-- The given cell along a chain, after the cell before it. Ends with the
    null pointer when the cell is not on the chain. -/
def locate [DecidableEq α] (next : α → Option α) (target : α) :
    Nat → Option α → Option α → Option (Option α × Option α)
  | _, prev, none => some (prev, none)
  | 0, _, some _ => none
  | n + 1, prev, some a =>
      if a = target then some (prev, some a) else locate next target n (some a) (next a)

theorem locate_eq [DecidableEq α] {prev : Option α} (h : Chain next p (l ++ a :: l'))
    (ha : a ∉ l) {n : Nat} (hn : l.length < n) :
    locate next a n prev p = some (l.getLast?.or prev, some a) := by
  induction l generalizing p n prev with
  | nil =>
      rcases h with ⟨rfl, h⟩
      cases n with
      | zero => exact absurd hn (Nat.not_lt_zero _)
      | succ n =>
          rw [locate, if_pos rfl]
          rfl
  | cons b l ih =>
      rcases h with ⟨rfl, h⟩
      cases n with
      | zero => exact absurd hn (Nat.not_lt_zero _)
      | succ n =>
          -- The cells in front are others, and each is the predecessor of the next.
          have hne : b ≠ a := fun heq => ha (heq ▸ List.mem_cons_self)
          have hnot : a ∉ l := fun hmem => ha (List.mem_cons_of_mem b hmem)
          rw [locate, if_neg hne, ih h hnot (Nat.lt_of_succ_lt_succ hn)]
          cases l with
          | nil => rfl
          | cons c l => rfl

end Pointer

end MicroArch
