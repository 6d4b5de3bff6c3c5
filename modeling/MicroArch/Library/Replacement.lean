import Mathlib.Data.List.Nodup
import Mathlib.Data.List.Perm.Basic
import Mathlib.Tactic.Common

/-!
# Replacement Lists

A cache of bounded size as the list of its keys, the next one to be replaced
last. A miss puts its key in front; a hit moves its key there or leaves the
list alone, which makes the difference between replacing the least recently
used key and the one that came first.

An implementation keeps all its slots in one order, whether they are occupied
or not. It represents such a list when the occupied ones are in front, and
`Front` says so. Moving a slot to an end of the order is then an operation on
the list, which operation depends on the slot.

A miss always takes the last slot. It is free if any slot is, since the free
ones are behind, so that whether a key is dropped can be told from the length of
the list, and which one from its end. The implementation does not look for a
free slot, and that it need not is the content of `Front.insert`.

## Main definitions

* `touch`, `insert`, `victim`: A hit, a miss, and the key it drops.
* `access`: The one or the other.
* `Front`: The occupied slots are in front, with these keys.

## Theorems

* `Front.touch`: A slot with a key of the list moves to the front.
* `Front.insert`: The last slot moves to the front with a new key.
* `Front.remove`: A slot moves to the back and is no longer occupied.
* `toFront_of_mem`, `last_toFront`: What a slot has behind it when another one
  moves to the front.
-/

namespace MicroArch

namespace Replacement

variable {κ α : Type*}

section Lists

variable [DecidableEq κ]

/-- A hit. -/
def touch (toFront : Bool) (k : κ) (l : List κ) : List κ := if toFront then k :: l.erase k else l

/-- The key a miss drops, which it does only when the list is full. -/
def victim (capacity : Nat) (l : List κ) : Option κ :=
  if l.length < capacity then none else l.getLast?

/-- A miss. -/
def insert (capacity : Nat) (k : κ) (l : List κ) : List κ :=
  k :: if l.length < capacity then l else l.dropLast

/-- An access. -/
def access (toFront : Bool) (capacity : Nat) (k : κ) (l : List κ) : List κ :=
  if k ∈ l then touch toFront k l else insert capacity k l

end Lists

/-- The slots of an order that are occupied are in front, and these are their
    keys. -/
def Front (occupied : α → Prop) (key : α → κ) (ord : List α) (keys : List κ) : Prop :=
  ∃ v u, ord = v ++ u ∧ (∀ a ∈ v, occupied a) ∧ (∀ a ∈ u, ¬ occupied a) ∧ keys = v.map key

variable {occupied occupied' : α → Prop} {key key' : α → κ} {ord : List α} {keys : List κ} {a : α}

/-- Only the occupied slots and their keys matter. -/
theorem Front.congr (h : Front occupied key ord keys)
    (hocc : ∀ a ∈ ord, occupied' a ↔ occupied a) (hkey : ∀ a ∈ ord, occupied a → key' a = key a) :
    Front occupied' key' ord keys := by
  rcases h with ⟨v, u, rfl, hv, hu, rfl⟩
  refine ⟨v, u, rfl, fun a ha => ?_, fun a ha => ?_, List.map_congr_left fun a ha => ?_⟩
  · exact (hocc a (List.mem_append_left u ha)).mpr (hv a ha)
  · rw [hocc a (List.mem_append_right v ha)]
    exact hu a ha
  · exact (hkey a (List.mem_append_left u ha) (hv a ha)).symm

/-- The keys of the list. -/
theorem Front.mem_keys (h : Front occupied key ord keys) {k : κ} :
    k ∈ keys ↔ ∃ a ∈ ord, occupied a ∧ key a = k := by
  rcases h with ⟨v, u, rfl, hv, hu, rfl⟩
  rw [List.mem_map]
  constructor
  · intro hk
    rcases hk with ⟨a, ha, hak⟩
    exact ⟨a, List.mem_append_left u ha, hv a ha, hak⟩
  · intro hk
    rcases hk with ⟨a, ha, hocc, hak⟩
    rcases List.mem_append.mp ha with ha | ha
    · exact ⟨a, ha, hak⟩
    · exact absurd hocc (hu a ha)

theorem Front.length_le (h : Front occupied key ord keys) : keys.length ≤ ord.length := by
  rcases h with ⟨v, u, rfl, -, -, rfl⟩
  rw [List.length_map, List.length_append]
  exact Nat.le_add_right _ _

theorem Front.nodup (h : Front occupied key ord keys) (hord : ord.Nodup)
    (hinj : ∀ a b, occupied a → occupied b → key a = key b → a = b) : keys.Nodup := by
  rcases h with ⟨v, u, rfl, hv, -, rfl⟩
  refine List.Nodup.map_on (fun a ha b hb => hinj a b (hv a ha) (hv b hb)) ?_
  exact (List.nodup_append.mp hord).1

/-- When the last slot is occupied, all are. -/
theorem Front.all_of_last (h : Front occupied key ord keys) (hlast : ord.getLast? = some a)
    (ha : occupied a) : ∀ b ∈ ord, occupied b := by
  rcases h with ⟨v, u, rfl, hv, hu, -⟩
  rcases List.eq_nil_or_concat' u with rfl | ⟨u, b, rfl⟩
  · rw [List.append_nil]
    exact hv
  · rw [← List.append_assoc, List.getLast?_concat, Option.some.injEq] at hlast
    subst hlast
    exact absurd ha (hu b (List.mem_append_right u (List.mem_singleton_self b)))

/-- The key that is dropped when the last slot is used for another one. -/
theorem Front.victim (h : Front occupied key ord keys) (hlast : ord.getLast? = some a) :
    (occupied a → Replacement.victim ord.length keys = some (key a)) ∧
    (¬ occupied a → Replacement.victim ord.length keys = none) := by
  constructor
  · intro ha
    -- An occupied last slot means that no slot is free, so the list is full.
    have hall := h.all_of_last hlast ha
    rcases h with ⟨v, u, rfl, hv, hu, rfl⟩
    have hnil : u = [] := List.eq_nil_iff_forall_not_mem.mpr fun b hb =>
      hu b hb (hall b (List.mem_append_right v hb))
    subst hnil
    rw [List.append_nil] at hlast ⊢
    rw [Replacement.victim, List.length_map, if_neg (Nat.lt_irrefl _), List.getLast?_map, hlast]
    rfl
  · intro ha
    rcases h with ⟨v, u, rfl, hv, hu, rfl⟩
    rcases List.eq_nil_or_concat' u with rfl | ⟨u, b, rfl⟩
    · rw [List.append_nil] at hlast
      -- Without a free slot the last one would be occupied.
      exact absurd (hv a (List.mem_of_getLast? hlast)) ha
    · rw [Replacement.victim, if_pos]
      rw [List.length_map, List.length_append, List.length_append, List.length_singleton]
      omega

section Move

variable [DecidableEq α]

theorem erase_concat {l : List α} (ha : a ∉ l) : (l ++ [a]).erase a = l := by
  rw [List.erase_append_right _ ha, List.erase_cons_head, List.append_nil]

/-! ### A slot among the others -/

/-- A slot in front of another one moves to the front. -/
theorem toFront_of_mem {front back : List α} {b : α} (hb : b ∈ front) :
    b :: (front ++ a :: back).erase b = (b :: front.erase b) ++ a :: back := by
  rw [List.erase_append_left _ hb, List.cons_append]

omit [DecidableEq α] in
/-- The last slot has no others behind it. -/
theorem back_eq_nil {front back : List α} (hnodup : (front ++ a :: back).Nodup)
    (hlast : (front ++ a :: back).getLast? = some a) : back = [] := by
  rcases List.eq_nil_or_concat' back with rfl | ⟨back, b, rfl⟩
  · rfl
  · rw [← List.cons_append, ← List.append_assoc, List.getLast?_concat, Option.some.injEq] at hlast
    subst hlast
    have hnot : b ∉ b :: back := by
      rw [← List.cons_append] at hnodup
      exact fun hb => (List.nodup_append.mp (List.nodup_append.mp hnodup).2.1).2.2 b hb b
        (List.mem_singleton_self b) rfl
    exact absurd List.mem_cons_self hnot

/-- The last slot moves to the front, past another one. -/
theorem last_toFront {front back : List α} {b : α} (hnodup : (front ++ a :: back).Nodup)
    (hlast : (front ++ a :: back).getLast? = some b) (hne : b ≠ a) : ∃ back', back = back' ++ [b] ∧
      b :: (front ++ a :: back).erase b = (b :: front) ++ a :: back' := by
  rcases List.eq_nil_or_concat' back with rfl | ⟨back', c, rfl⟩
  · rw [List.getLast?_concat, Option.some.injEq] at hlast
    exact absurd hlast.symm hne
  · have hsplit : front ++ a :: (back' ++ [c]) = (front ++ a :: back') ++ [c] := by
      rw [← List.cons_append, ← List.append_assoc]
    rw [hsplit] at hnodup hlast ⊢
    rw [List.getLast?_concat, Option.some.injEq] at hlast
    subst hlast
    have hnot : c ∉ front ++ a :: back' := fun hc =>
      (List.nodup_append.mp hnodup).2.2 c hc c (List.mem_singleton_self c) rfl
    exact ⟨back', rfl, by rw [erase_concat hnot, List.cons_append]⟩

/-- The last slot moves to the front with a new key. -/
theorem Front.insert (h : Front occupied key ord keys) (hord : ord.Nodup)
    (hlast : ord.getLast? = some a) (hocc : ∀ b, occupied' b ↔ b = a ∨ occupied b)
    (hkey : ∀ b ≠ a, key' b = key b) :
    Front occupied' key' (a :: ord.erase a) (Replacement.insert ord.length (key' a) keys) := by
  rcases h with ⟨v, u, rfl, hv, hu, rfl⟩
  -- The occupied slots that stay have their keys.
  have hstay : ∀ l : List α, a ∉ l → l.map key' = l.map key := fun l ha =>
    List.map_congr_left fun b hb => hkey b fun heq => ha (heq ▸ hb)
  rcases List.eq_nil_or_concat' u with rfl | ⟨u, b, rfl⟩
  · -- The list is full, and the last slot has its last key.
    rw [List.append_nil] at hord hlast ⊢
    rcases List.eq_nil_or_concat' v with rfl | ⟨v, b, rfl⟩
    · exact absurd hlast (by simp only [List.getLast?_nil, reduceCtorEq, not_false_eq_true])
    · rw [List.getLast?_concat, Option.some.injEq] at hlast
      subst hlast
      have ha : b ∉ v := fun hb =>
        (List.nodup_append.mp hord).2.2 b hb b (List.mem_singleton_self b) rfl
      refine ⟨b :: v, [], ?_, fun c hc => ?_, fun c hc => absurd hc List.not_mem_nil, ?_⟩
      · rw [erase_concat ha, List.append_nil]
      · rcases List.mem_cons.mp hc with rfl | hc
        · exact (hocc c).mpr (Or.inl rfl)
        · exact (hocc c).mpr (Or.inr (hv c (List.mem_append_left _ hc)))
      · rw [Replacement.insert, List.length_map, if_neg (Nat.lt_irrefl _), List.map_append,
          List.map_singleton, List.dropLast_concat, List.map_cons, hstay v ha]
  · -- The last slot was free, so the list is not full and keeps its keys.
    rw [← List.append_assoc] at hord hlast ⊢
    rw [List.getLast?_concat, Option.some.injEq] at hlast
    subst hlast
    have ha : b ∉ v ++ u := fun hb =>
      (List.nodup_append.mp hord).2.2 b hb b (List.mem_singleton_self b) rfl
    have hav : b ∉ v := fun hb => ha (List.mem_append_left u hb)
    refine ⟨b :: v, u, ?_, fun c hc => ?_, fun c hc hocc' => ?_, ?_⟩
    · rw [erase_concat ha, List.cons_append]
    · rcases List.mem_cons.mp hc with rfl | hc
      · exact (hocc c).mpr (Or.inl rfl)
      · exact (hocc c).mpr (Or.inr (hv c hc))
    · rcases (hocc c).mp hocc' with rfl | hocc'
      · exact ha (List.mem_append_right v hc)
      · exact hu c (List.mem_append_left _ hc) hocc'
    · have hlt : (v.map key).length < (v ++ u ++ [b]).length := by
        rw [List.length_map, List.length_append, List.length_append, List.length_singleton]
        omega
      rw [Replacement.insert, if_pos hlt, List.map_cons, hstay v hav]

variable [DecidableEq κ]

theorem map_erase_of_inj {v : List α} (hinj : ∀ b ∈ v, key b = key a → b = a) :
    (v.map key).erase (key a) = (v.erase a).map key := by
  induction v with
  | nil => rfl
  | cons b v ih =>
      rw [List.map_cons]
      by_cases heq : b = a
      · rw [heq, List.erase_cons_head, List.erase_cons_head]
      · have hne : key b ≠ key a := fun hkey => heq (hinj b List.mem_cons_self hkey)
        rw [List.erase_cons_tail (by rwa [beq_iff_eq]), List.erase_cons_tail (by rwa [beq_iff_eq]),
          List.map_cons, ih fun c hc => hinj c (List.mem_cons_of_mem b hc)]

/-- A slot with a key of the list moves to the front. -/
theorem Front.touch (h : Front occupied key ord keys) (ha : occupied a) (hmem : a ∈ ord)
    (hinj : ∀ b, occupied b → key b = key a → b = a) :
    Front occupied key (a :: ord.erase a) (Replacement.touch true (key a) keys) := by
  rcases h with ⟨v, u, rfl, hv, hu, rfl⟩
  -- The slot is in front, since it is occupied.
  have hav : a ∈ v := (List.mem_append.mp hmem).resolve_right fun hau => hu a hau ha
  refine ⟨a :: v.erase a, u, ?_, fun b hb => ?_, hu, ?_⟩
  · rw [List.erase_append_left u hav, List.cons_append]
  · rcases List.mem_cons.mp hb with rfl | hb
    · exact ha
    · exact hv b (List.mem_of_mem_erase hb)
  · rw [Replacement.touch, if_pos rfl, map_erase_of_inj fun b hb => hinj b (hv b hb), List.map_cons]

/-- A slot moves to the back and is no longer occupied. -/
theorem Front.remove (h : Front occupied key ord keys) (hord : ord.Nodup) (ha : occupied a)
    (hmem : a ∈ ord) (hinj : ∀ b, occupied b → key b = key a → b = a)
    (hocc : ∀ b, occupied' b ↔ occupied b ∧ b ≠ a) :
    Front occupied' key (ord.erase a ++ [a]) (keys.erase (key a)) := by
  rcases h with ⟨v, u, rfl, hv, hu, rfl⟩
  have hav : a ∈ v := (List.mem_append.mp hmem).resolve_right fun hau => hu a hau ha
  have hnodup : v.Nodup := (List.nodup_append.mp hord).1
  refine ⟨v.erase a, u ++ [a], ?_, fun b hb => ?_, fun b hb hocc' => ?_, ?_⟩
  · rw [List.erase_append_left u hav, List.append_assoc]
  · have hb' := (hnodup.mem_erase_iff).mp hb
    exact (hocc b).mpr ⟨hv b hb'.2, hb'.1⟩
  · rcases List.mem_append.mp hb with hb | hb
    · exact hu b hb ((hocc b).mp hocc').1
    · exact ((hocc b).mp hocc').2 (List.mem_singleton.mp hb)
  · exact map_erase_of_inj fun b hb => hinj b (hv b hb)

end Move

end Replacement

end MicroArch
