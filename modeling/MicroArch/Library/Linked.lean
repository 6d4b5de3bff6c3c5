import MicroArch.Library.Pointer

/-!
# Doubly Linked Lists

A list of cells that are linked in both directions, with pointers to its
first and its last cell. Forwards it is a chain from the head, and backwards
a chain from the tail through the reversed list.

Removing a cell and putting it at one end are the two halves of moving it.
The removal is not meant for the only cell of a list, which the pointers of
its neighbours do not record. Everything about the tail follows from the
head, since a list read backwards is a doubly linked list as well.

The order of the cells is a list of its own, `l`, and the pointers are said to
link it. An operation is described by what it does to `l`, so that a client
never looks at a pointer: it keeps the list beside the heap and changes both.

## Main definitions

* `Links`: The pointers of a doubly linked list.
* `Linked`: They link the cells of a list.
* `Links.unlink`: A cell is taken out.
* `Links.pushHead`, `Links.pushTail`: A cell is put at an end.

## Theorems

* `Linked.next_eq`, `Linked.prev_eq`: The neighbours of a cell.
* `Linked.unlink`: The list without the cell.
* `Linked.pushHead`, `Linked.pushTail`: The list with the cell at an end.
-/

namespace MicroArch

namespace Pointer

variable {α : Type*}

/-- The pointers of a doubly linked list. -/
structure Links (α : Type*) where
  next : α → Option α
  prev : α → Option α
  head : Option α
  tail : Option α

/-- The pointers link the cells of the list, each of which occurs once. -/
structure Linked (k : Links α) (l : List α) : Prop where
  forward : Chain k.next k.head l
  backward : Chain k.prev k.tail l.reverse
  nodup : l.Nodup

namespace Links

/-- The same list, read backwards. -/
def flip (k : Links α) : Links α :=
  { next := k.prev, prev := k.next, head := k.tail, tail := k.head }

variable [DecidableEq α]

/-- The neighbours of a cell are linked to each other. -/
def unlink (k : Links α) (a : α) : Links α :=
  match k.prev a, k.next a with
  | none, none => k
  | none, some n => { k with head := some n, prev := Function.update k.prev n none }
  | some p, none => { k with tail := some p, next := Function.update k.next p none }
  | some p, some n =>
      { k with
        next := Function.update k.next p (some n)
        prev := Function.update k.prev n (some p) }

/-- A cell is linked in front of the first one. -/
def pushHead (k : Links α) (a : α) : Links α :=
  match k.head with
  | none => k
  | some h =>
      { k with
        next := Function.update k.next a (some h)
        prev := Function.update (Function.update k.prev a none) h (some a)
        head := some a }

/-- A cell is linked behind the last one. -/
def pushTail (k : Links α) (a : α) : Links α := (k.flip.pushHead a).flip

end Links

namespace Linked

variable {k : Links α} {l l' : List α} {a : α}

theorem flip (h : Linked k l) : Linked k.flip l.reverse where
  forward := h.backward
  backward := by
    rw [List.reverse_reverse]
    exact h.forward
  nodup := List.nodup_reverse.mpr h.nodup

theorem head_eq (h : Linked k l) : k.head = l.head? := h.forward.start

theorem tail_eq (h : Linked k l) : k.tail = l.getLast? := by
  rw [← List.head?_reverse]
  exact h.flip.head_eq

/-- What a cell points to. -/
theorem next_eq (h : Linked k (l ++ a :: l')) : k.next a = l'.head? :=
  (seg_middle.mp h.forward).2.start

theorem reverse_middle (l l' : List α) (a : α) :
    (l ++ a :: l').reverse = l'.reverse ++ a :: l.reverse := by
  rw [List.reverse_append, List.reverse_cons, List.append_assoc]
  rfl

theorem prev_eq (h : Linked k (l ++ a :: l')) : k.prev a = l.getLast? := by
  have hflip := h.flip
  rw [reverse_middle] at hflip
  rw [← List.head?_reverse]
  exact hflip.next_eq

/-- A cell of the list is at one place in it. -/
theorem notMem_of_middle (h : Linked k (l ++ a :: l')) : a ∉ l ∧ a ∉ l' := by
  have hnodup := h.nodup
  rw [List.nodup_middle, List.nodup_cons, List.mem_append, not_or] at hnodup
  exact hnodup.1

theorem nodup_of_middle (h : Linked k (l ++ a :: l')) : (l ++ l').Nodup := by
  have hnodup := h.nodup
  rw [List.nodup_middle, List.nodup_cons] at hnodup
  exact hnodup.2

theorem head_eq_some_iff (h : Linked k (l ++ a :: l')) : k.head = some a ↔ l = [] := by
  rw [h.head_eq]
  cases l with
  | nil => exact ⟨fun _ => rfl, fun _ => rfl⟩
  | cons b l =>
      -- The first cell is another one, since no cell occurs twice.
      have hne : b ≠ a := fun heq => h.notMem_of_middle.1 (heq ▸ List.mem_cons_self)
      simp only [List.cons_append, List.head?_cons, Option.some.injEq, hne, reduceCtorEq]

theorem tail_eq_some_iff (h : Linked k (l ++ a :: l')) : k.tail = some a ↔ l' = [] := by
  have hflip := h.flip
  rw [reverse_middle] at hflip
  rw [← List.reverse_eq_nil_iff]
  exact hflip.head_eq_some_iff

section Update

variable [DecidableEq α]

/-- Taking out a cell that is not the first one leaves a chain forwards. -/
theorem unlink_forward {b : α} (h : Linked k ((l ++ [b]) ++ a :: l')) :
    Chain (Function.update k.next b l'.head?) k.head ((l ++ [b]) ++ l') := by
  rcases seg_middle.mp h.forward with ⟨hl, hl'⟩
  rw [h.next_eq] at hl'
  have hnodup := h.nodup_of_middle
  rw [List.append_assoc] at hnodup
  have hb := (List.nodup_middle.mp hnodup)
  rw [List.nodup_cons, List.mem_append, not_or] at hb
  exact hl.skip hl' hb.1.1 hb.1.2

theorem unlink (h : Linked k (l ++ a :: l')) (hne : l ++ l' ≠ []) :
    Linked (k.unlink a) (l ++ l') := by
  have hprev := h.prev_eq
  have hnext := h.next_eq
  have hflip := h.flip
  rw [reverse_middle] at hflip
  -- The cases are those of the neighbours; each direction has one lemma.
  rcases List.eq_nil_or_concat' l with rfl | ⟨l₁, p, rfl⟩
  · cases l' with
    | nil => exact absurd rfl hne
    | cons n l' =>
        rw [List.getLast?_nil] at hprev
        rw [List.head?_cons] at hnext
        rw [List.reverse_cons] at hflip
        -- The first cell goes: the head moves, and backwards the second one is last.
        have hback := hflip.unlink_forward
        rw [Links.unlink, hprev, hnext]
        refine ⟨?_, ?_, h.nodup_of_middle⟩
        · have hforward := (seg_middle.mp h.forward).2
          rwa [hnext] at hforward
        · rw [List.reverse_nil, List.append_nil] at hback
          rw [List.nil_append, List.reverse_cons]
          exact hback
  · rw [List.getLast?_concat] at hprev
    cases l' with
    | nil =>
        rw [List.head?_nil] at hnext
        -- The last cell goes: forwards its predecessor is last, and the tail moves.
        have hforward := h.unlink_forward
        rw [Links.unlink, hprev, hnext]
        refine ⟨hforward, ?_, h.nodup_of_middle⟩
        have hback := (seg_middle.mp hflip.forward).2
        rw [hflip.next_eq, List.head?_reverse, List.getLast?_concat] at hback
        rw [List.append_nil]
        exact hback
    | cons n l' =>
        rw [List.head?_cons] at hnext
        rw [List.reverse_cons] at hflip
        -- A cell between two others: its neighbours are linked in both directions.
        have hforward := h.unlink_forward
        have hback := hflip.unlink_forward
        rw [List.head?_reverse, List.getLast?_concat] at hback
        rw [Links.unlink, hprev, hnext]
        refine ⟨hforward, ?_, h.nodup_of_middle⟩
        rw [List.reverse_append, List.reverse_cons]
        exact hback

theorem pushHead (h : Linked k l) (hne : l ≠ []) (ha : a ∉ l) : Linked (k.pushHead a) (a :: l) := by
  cases l with
  | nil => exact absurd rfl hne
  | cons b l =>
      have hhead : k.head = some b := h.head_eq
      have hba : a ≠ b := fun heq => ha (heq ▸ List.mem_cons_self)
      have hb := (List.nodup_cons.mp h.nodup).1
      rw [Links.pushHead, hhead]
      refine ⟨?_, ?_, List.nodup_cons.mpr ⟨ha, h.nodup⟩⟩
      · -- Forwards the new cell points to the old list, which does not contain it.
        have hforward := h.forward.update_of_notMem (r := some b) ha
        rw [hhead] at hforward
        refine ⟨rfl, ?_⟩
        change Seg (Function.update k.next a (some b)) (Function.update k.next a (some b) a) _ _
        rw [Function.update_self]
        exact hforward
      · -- Backwards the old first cell now points to the new one, which is last.
        have hback := h.backward
        rw [List.reverse_cons] at hback
        have hrev : a ∉ l.reverse ++ [b] := by
          rw [← List.reverse_cons, List.mem_reverse]
          exact ha
        rw [List.reverse_cons, List.reverse_cons]
        refine seg_concat.mpr ⟨?_, ?_⟩
        · exact (hback.update_of_notMem hrev).update_last fun hmem => hb (List.mem_reverse.mp hmem)
        · change Function.update (Function.update k.prev a none) b (some a) a = none
          rw [Function.update_of_ne hba, Function.update_self]

theorem pushTail (h : Linked k l) (hne : l ≠ []) (ha : a ∉ l) :
    Linked (k.pushTail a) (l ++ [a]) := by
  have hne' : l.reverse ≠ [] := fun heq => hne (List.reverse_eq_nil_iff.mp heq)
  have ha' : a ∉ l.reverse := fun hmem => ha (List.mem_reverse.mp hmem)
  -- The tail is the head of the list read backwards.
  have hpush := (h.flip.pushHead hne' ha').flip
  rwa [List.reverse_cons, List.reverse_reverse] at hpush

end Update

end Linked

end Pointer

end MicroArch
