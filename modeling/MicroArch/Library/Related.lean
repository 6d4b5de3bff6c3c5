import MicroArch.Library.Watched

/-!
# Programs Side by Side

Two programs that are run from two states.

When the states are related, both runs end, with related results in related
states, or both have the same error. The rules follow the text of the programs,
like those for one program. Since the programs are usually one and the same,
what they say is that it cannot tell related states apart.

A program may be unable to do so only as long as it refers to certain things.
Then the watcher that stops it at all other references, `guard`, makes it a
program to which the rules apply. A run that is never stopped is a run of the
program itself.

## Main definitions

* `Both`: Two runs end alike.
* `Related`: Two programs end alike from related states.
* `guard`: The watcher that stops a program.

## Theorems

* `Related.pure`, `Related.bind`, `Related.throw`, `Related.ite`: The rules.
* `Related.lift`, `Related.tell_bind`: Under the guard.
* `Related.unguarded`: A run that the guard does not stop.
-/

namespace MicroArch

variable {σ ε ρ α β α' β' : Type}

/-- Two runs end alike. -/
def Both (V : α → β → Prop) (R : σ → σ → Prop) :
    Except ε (α × σ) → Except ε (β × σ) → Prop
  | .ok (a, s), .ok (b, t) => V a b ∧ R s t
  | .error e, .error f => e = f
  | _, _ => False

/-- Two programs end alike from related states. -/
def Related (R : σ → σ → Prop) (V : α → β → Prop) (x : StateT σ (Except ε) α)
    (y : StateT σ (Except ε) β) : Prop :=
  ∀ s t, R s t → Both V R (x s) (y t)

theorem Both.of_ok {V : α → β → Prop} {R : σ → σ → Prop} {x : Except ε (α × σ)}
    {y : Except ε (β × σ)} {a : α} {s : σ} (h : Both V R x y) (hx : x = .ok (a, s)) :
    ∃ b t, y = .ok (b, t) ∧ V a b ∧ R s t := by
  subst hx
  rcases y with f | ⟨b, t⟩
  · exact h.elim
  · exact ⟨b, t, rfl, h⟩

/-- One after the other, from these states. -/
theorem Both.bind {R : σ → σ → Prop} {V : α → β → Prop} {W : α' → β' → Prop}
    {x : StateT σ (Except ε) α} {y : StateT σ (Except ε) β} {f : α → StateT σ (Except ε) α'}
    {g : β → StateT σ (Except ε) β'} {s t : σ} (hx : Both V R (x s) (y t))
    (hf : ∀ a b, V a b → Related R W (f a) (g b)) : Both W R ((x >>= f) s) ((y >>= g) t) := by
  simp only [Bind.bind, StateT.bind, Except.bind]
  revert hx
  -- If only one of the two stops, they do not end alike.
  rcases x s with e | ⟨a, s'⟩ <;> rcases y t with e' | ⟨b, t'⟩ <;> intro hx
  · exact hx
  · exact hx.elim
  · exact hx.elim
  · exact hf a b hx.1 s' t' hx.2

namespace Related

variable {R : σ → σ → Prop} {V : α → β → Prop} {W : α' → β' → Prop}
  {x : StateT σ (Except ε) α} {y : StateT σ (Except ε) β}

theorem pure {a : α} {b : β} (h : V a b) :
    Related R V (Pure.pure a : StateT σ (Except ε) α) (Pure.pure b) :=
  fun _ _ hst => ⟨h, hst⟩

theorem throw (e : ε) :
    Related R V (fun _ => .error e : StateT σ (Except ε) α) fun _ => .error e :=
  fun _ _ _ => rfl

/-- One after the other. -/
theorem bind {f : α → StateT σ (Except ε) α'} {g : β → StateT σ (Except ε) β'}
    (hx : Related R V x y) (hf : ∀ a b, V a b → Related R W (f a) (g b)) :
    Related R W (x >>= f) (y >>= g) := fun s t h => (hx s t h).bind hf

/-- One after the other, with equal results of the first. -/
theorem bind_eq {x y : StateT σ (Except ε) α} {f : α → StateT σ (Except ε) α'}
    {g : α → StateT σ (Except ε) β'} (hx : Related R Eq x y)
    (hf : ∀ a, Related R W (f a) (g a)) : Related R W (x >>= f) (y >>= g) := by
  refine hx.bind fun a b hab => ?_
  subst hab
  exact hf a

/-- The same choice. -/
theorem ite {c : Prop} [Decidable c] {x' : StateT σ (Except ε) α} {y' : StateT σ (Except ε) β}
    (hx : c → Related R V x y) (hy : ¬ c → Related R V x' y') :
    Related R V (if c then x else x') (if c then y else y') := by
  by_cases h : c
  · rw [if_pos h, if_pos h]
    exact hx h
  · rw [if_neg h, if_neg h]
    exact hy h

end Related

/-! ### Under a guard -/

namespace Watched

variable (p : ρ → Prop) [DecidablePred p]

/-- The watcher that notes every reference and stops at one without the
    property. -/
def guard : Watcher ρ Unit (List ρ) := fun l r => if p r then .ok (l ++ [r]) else .error ()

variable {p}

theorem guard_of_pos {l : List ρ} {r : ρ} (h : p r) : guard p l r = .ok (l ++ [r]) := if_pos h

theorem guard_of_neg {l : List ρ} {r : ρ} (h : ¬ p r) : guard p l r = .error () := if_neg h

theorem foldlM_guard {l l' : List ρ} (h : ∀ r ∈ l', p r) :
    l'.foldlM (guard p) l = .ok (l ++ l') := by
  induction l' generalizing l with
  | nil =>
      rw [List.append_nil, List.foldlM_nil]
      rfl
  | cons r l' ih =>
      rw [List.foldlM_cons, guard_of_pos (h r (List.mem_cons_self ..))]
      change l'.foldlM (guard p) (l ++ [r]) = _
      rw [ih fun q hq => h q (List.mem_cons_of_mem _ hq), List.append_assoc,
        List.singleton_append]

theorem of_foldlM_guard {l l' w : List ρ} (h : l'.foldlM (guard p) l = .ok w) : w = l ++ l' := by
  induction l' generalizing l with
  | nil =>
      rw [List.foldlM_nil] at h
      cases h
      rw [List.append_nil]
  | cons r l' ih =>
      rw [List.foldlM_cons] at h
      by_cases hr : p r
      · rw [guard_of_pos hr] at h
        rw [ih h, List.append_assoc, List.singleton_append]
      · rw [guard_of_neg hr] at h
        cases h

/-- The states are related and the same references were made. -/
def Noted (R : σ → σ → Prop) (s t : σ × List ρ) : Prop := R s.1 t.1 ∧ s.2 = t.2

end Watched

open Watched (guard Noted)

theorem Both.lift {R : σ → σ → Prop} {V : α → β → Prop} {x : StateT σ (Except ε) α}
    {y : StateT σ (Except ε) β} {s t : σ} (h : Both V R (x s) (y t)) (l : List ρ) :
    Both V (Noted R) ((Watched.lift x : WithWatcher σ ε Unit (List ρ) α) (s, l))
      ((Watched.lift y : WithWatcher σ ε Unit (List ρ) β) (t, l)) := by
  simp only [Watched.lift]
  revert h
  rcases x s with e | ⟨a, s'⟩ <;> rcases y t with e' | ⟨b, t'⟩ <;> intro h
  · exact congrArg Sum.inl h
  · exact h.elim
  · exact h.elim
  · exact ⟨h.1, h.2, rfl⟩

namespace Related

variable {R : σ → σ → Prop} {V : α → β → Prop} {p : ρ → Prop} [DecidablePred p]

/-- A part that refers to nothing. -/
theorem lift {x : StateT σ (Except ε) α} {y : StateT σ (Except ε) β} (h : Related R V x y) :
    Related (Noted R) V (Watched.lift x : WithWatcher σ ε Unit (List ρ) α) (Watched.lift y) := by
  rintro ⟨s, l⟩ ⟨t, l'⟩ ⟨hst, hl⟩
  cases hl
  exact (h s t hst).lift l

/-- What comes after a reference may rely on its property. -/
theorem tell_bind {r : σ → ρ} {f : WithWatcher σ ε Unit (List ρ) α}
    {g : WithWatcher σ ε Unit (List ρ) β} (hp : ∀ s t, R s t → (p (r s) ↔ p (r t)))
    (hf : ∀ s t, R s t → p (r s) → r s = r t ∧ ∀ l, Both V (Noted R) (f (s, l)) (g (t, l))) :
    Related (Noted R) V (Watched.tell r (guard p) >>= fun _ => f)
      (Watched.tell r (guard p) >>= fun _ => g) := by
  rintro ⟨s, l⟩ ⟨t, l'⟩ ⟨hst, hl⟩
  cases hl
  simp only [Bind.bind, StateT.bind, Except.bind, Watched.tell]
  by_cases hr : p (r s)
  · rcases hf s t hst hr with ⟨heq, hfg⟩
    rw [Watched.guard_of_pos hr, Watched.guard_of_pos ((hp s t hst).mp hr), ← heq]
    exact hfg _
  · rw [Watched.guard_of_neg hr, Watched.guard_of_neg fun h => hr ((hp s t hst).mpr h)]
    rfl

/-- A run that the guard does not stop is related to one that makes the same
    references. -/
theorem unguarded {x : Watched σ ε ρ α} {y : StateT σ (Except ε) α} {P Q : α → List ρ → Prop}
    {V : α → α → Prop} {s t s' : σ} {a : α}
    (h : Related (Noted R) V (x Unit (List ρ) (guard p)) (x Unit (List ρ) (guard p)))
    (hs : Follows s x y P) (ht : Follows t x y Q) (hst : R s t) (hy : y s = .ok (a, s'))
    (hp : ∀ r ∈ Watched.logged x s, p r) :
    ∃ b t', y t = .ok (b, t') ∧ V a b ∧ R s' t' ∧
      Watched.logged x t = Watched.logged x s := by
  -- The guard lets the first run through and notes its references.
  have hx : x Unit (List ρ) (guard p) (s, []) = .ok (a, (s', Watched.logged x s)) := by
    rw [(hs.logged hy).2, Watched.seen, Watched.foldlM_guard hp]
    rfl
  rcases (h (s, []) (t, []) ⟨hst, rfl⟩).of_ok hx with ⟨b, ⟨t', l⟩, hxt, hab, hst', hl⟩
  -- The other one ended under the guard, so it was let through as well.
  rcases ht.of_eq_ok hxt with ⟨hyt, hlog⟩
  refine ⟨b, t', hyt, hab, hst', ?_⟩
  have hrefs := Watched.of_foldlM_guard hlog
  rw [List.nil_append] at hrefs
  exact hrefs.symm.trans hl.symm

end Related

end MicroArch
