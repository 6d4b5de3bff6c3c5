import Mathlib.Data.List.Basic
import Mathlib.Tactic.Common

/-!
# Watched Programs

A program that refers to things, and a watcher that is told of every reference.
The watcher has a state of its own and may stop the program, but it has no
other influence. Such a program is written once for all watchers, and tells
them of a reference at the place where it makes it.

A watched program follows the same program without a watcher. From a state in
which that one has a result, the references are the same for all watchers. So
what a watcher sees, and whether it stops the program, can be computed from the
references alone, once the program is done. A state in which the program has no
result has none with a watcher either.

## Main definitions

* `Watched`: A program, for all watchers.
* `seen`: What a watcher makes of the references of a program.
* `Follows`: A watched program follows one without a watcher.
* `logged`: The references, as seen by the watcher that notes them all.

## Theorems

* `Follows.lift`, `Follows.tell`: A program that refers to nothing, and one
  reference.
* `Follows.bind`, `Follows.tell_bind`: The references of a composition.
* `Follows.of_eq_ok`, `Follows.eq_logged`: A watched program, from the other
  one and the references.
-/

namespace MicroArch

variable {σ ε ρ φ α β τ : Type}

/-- A watcher is told of a reference. -/
abbrev Watcher (ρ φ τ : Type) := τ → ρ → Except φ τ

/-- A program with the state of a watcher. It has a fault of its own or one of
    the watcher. -/
abbrev WithWatcher (σ ε φ τ α : Type) := StateT (σ × τ) (Except (ε ⊕ φ)) α

/-- A program, for all watchers. -/
abbrev Watched (σ ε ρ α : Type) := ∀ φ τ : Type, Watcher ρ φ τ → WithWatcher σ ε φ τ α

namespace Watched

/-- A program that does not look at the watcher. -/
def lift (y : StateT σ (Except ε) α) : WithWatcher σ ε φ τ α := fun (s, w) =>
  match y s with
  | .ok (a, s') => .ok (a, (s', w))
  | .error e => .error (.inl e)

/-- A reference. -/
def tell (r : σ → ρ) (see : Watcher ρ φ τ) : WithWatcher σ ε φ τ Unit := fun (s, w) =>
  match see w (r s) with
  | .ok w' => .ok ((), (s, w'))
  | .error f => .error (.inr f)

/-- What a watcher makes of the references of a program with this result. -/
def seen (see : Watcher ρ φ τ) (refs : List ρ) (w : τ) (r : α × σ) :
    Except (ε ⊕ φ) (α × (σ × τ)) :=
  match refs.foldlM see w with
  | .ok w' => .ok (r.1, (r.2, w'))
  | .error f => .error (.inr f)

/-- The watcher that notes everything. -/
def note : Watcher ρ φ (List ρ) := fun l r => .ok (l ++ [r])

/-- The references that a program makes, if it has a result. -/
def logged (x : Watched σ ε ρ α) (s : σ) : List ρ :=
  match x Empty (List ρ) note (s, []) with
  | .ok r => r.2.2
  | .error _ => []

theorem seen_append (see : Watcher ρ φ τ) (l₁ l₂ : List ρ) (w : τ) (r : α × σ) (q : β × σ) :
    (match (seen see l₁ w r : Except (ε ⊕ φ) _) with
      | .ok b => seen see l₂ b.2.2 q
      | .error e => .error e) = seen see (l₁ ++ l₂) w q := by
  unfold seen
  rw [List.foldlM_append]
  rcases l₁.foldlM see w with f | w' <;> rfl

theorem foldlM_note (l l' : List ρ) : l'.foldlM (note : Watcher ρ φ _) l = .ok (l ++ l') := by
  induction l' generalizing l with
  | nil =>
      rw [List.append_nil, List.foldlM_nil]
      rfl
  | cons r l' ih =>
      rw [List.foldlM_cons]
      change l'.foldlM note (l ++ [r]) = _
      rw [ih, List.append_assoc, List.singleton_append]

end Watched

open Watched (seen logged)

/-- A watched program follows one without a watcher, with references that have
    a property. -/
def Follows (s : σ) (x : Watched σ ε ρ α) (y : StateT σ (Except ε) α)
    (P : α → List ρ → Prop) : Prop :=
  match y s with
  | .error _ => ∀ φ τ (see : Watcher ρ φ τ) w, ∃ e, x φ τ see (s, w) = .error e
  | .ok r => ∃ refs, P r.1 refs ∧
      ∀ φ τ (see : Watcher ρ φ τ) w, x φ τ see (s, w) = seen see refs w r

namespace Follows

variable {s : σ} {x : Watched σ ε ρ α} {y : StateT σ (Except ε) α} {P : α → List ρ → Prop}

theorem of_ok {r : α × σ} (h : Follows s x y P) (hy : y s = .ok r) :
    ∃ refs, P r.1 refs ∧ ∀ φ τ (see : Watcher ρ φ τ) w, x φ τ see (s, w) = seen see refs w r := by
  unfold Follows at h
  rw [hy] at h
  exact h

theorem of_error {e : ε} (h : Follows s x y P) (hy : y s = .error e) (φ τ : Type)
    (see : Watcher ρ φ τ) (w : τ) : ∃ e', x φ τ see (s, w) = .error e' := by
  unfold Follows at h
  rw [hy] at h
  exact h φ τ see w

theorem ok {r : α × σ} {refs : List ρ} (hy : y s = .ok r) (hP : P r.1 refs)
    (h : ∀ φ τ (see : Watcher ρ φ τ) w, x φ τ see (s, w) = seen see refs w r) :
    Follows s x y P := by
  unfold Follows
  rw [hy]
  exact ⟨refs, hP, h⟩

theorem error {e : ε} (hy : y s = .error e)
    (h : ∀ φ τ (see : Watcher ρ φ τ) w, ∃ e', x φ τ see (s, w) = .error e') : Follows s x y P := by
  unfold Follows
  rw [hy]
  exact h

theorem mono {Q : α → List ρ → Prop} (h : Follows s x y P) (hPQ : ∀ a l, P a l → Q a l) :
    Follows s x y Q := by
  rcases hy : y s with e | r
  · exact .error hy (h.of_error hy)
  · rcases h.of_ok hy with ⟨refs, hP, hx⟩
    exact .ok hy (hPQ _ _ hP) hx

/-- A program that refers to nothing. -/
theorem lift (y : StateT σ (Except ε) α) (s : σ) :
    Follows s (fun _ _ _ => Watched.lift y : Watched σ ε ρ α) y fun _ l => l = [] := by
  rcases hy : y s with e | r
  · refine .error hy fun φ τ see w => ⟨.inl e, ?_⟩
    simp only [Watched.lift, hy]
  · refine .ok hy rfl fun φ τ see w => ?_
    simp only [Watched.lift, hy]
    rfl

theorem pure (a : α) (s : σ) :
    Follows s (fun _ _ _ => Pure.pure a : Watched σ ε ρ α) (Pure.pure a)
      fun b l => b = a ∧ l = [] :=
  .ok (r := (a, s)) rfl ⟨rfl, rfl⟩ fun _ _ _ _ => rfl

theorem tell (r : σ → ρ) (s : σ) :
    Follows s (fun _ _ see => Watched.tell r see : Watched σ ε ρ Unit) (Pure.pure ())
      fun _ l => l = [r s] := by
  refine .ok (y := Pure.pure ()) (r := ((), s)) rfl rfl fun φ τ see w => ?_
  simp only [Watched.tell, seen, List.foldlM_cons, List.foldlM_nil]
  rcases see w (r s) with f | w' <;> rfl

/-- The references of a composition are those of its parts. -/
theorem bind {f : α → Watched σ ε ρ β} {g : α → StateT σ (Except ε) β}
    {Q : α → β → List ρ → Prop} {R : β → List ρ → Prop} (hx : Follows s x y P)
    (hf : ∀ a s', y s = .ok (a, s') → Follows s' (f a) (g a) (Q a))
    (hR : ∀ a b l₁ l₂, P a l₁ → Q a b l₂ → R b (l₁ ++ l₂)) :
    Follows s (fun φ τ see => x φ τ see >>= fun a => f a φ τ see) (y >>= g) R := by
  rcases hy : y s with e | r
  · -- The first part has no result, with or without a watcher.
    refine .error (e := e) ?_ fun φ τ see w => ?_
    · simp only [Bind.bind, StateT.bind, Except.bind, hy]
    · rcases hx.of_error hy φ τ see w with ⟨e', he'⟩
      refine ⟨e', ?_⟩
      simp only [Bind.bind, StateT.bind, Except.bind, he']
  · rcases hx.of_ok hy with ⟨l₁, hP, hx'⟩
    have hbind : (y >>= g) s = g r.1 r.2 := by
      simp only [Bind.bind, StateT.bind, Except.bind, hy]
    -- The watcher goes through the references of the first part, then on.
    have hrun : ∀ φ τ (see : Watcher ρ φ τ) w,
        (x φ τ see >>= fun a => f a φ τ see) (s, w) =
          match (seen see l₁ w r : Except (ε ⊕ φ) _) with
          | .ok b => f b.1 φ τ see b.2
          | .error e => .error e := by
      intro φ τ see w
      simp only [Bind.bind, StateT.bind, Except.bind, hx' φ τ see w]
      rcases (seen see l₁ w r : Except (ε ⊕ φ) _) with e | b <;> rfl
    have hf' := hf r.1 r.2 hy
    rcases hg : g r.1 r.2 with e | q
    · -- The second part has none, unless the watcher has stopped the program before.
      refine .error (hbind.trans hg) fun φ τ see w => ?_
      rw [hrun, seen]
      rcases l₁.foldlM see w with f | w'
      · exact ⟨_, rfl⟩
      · exact hf'.of_error hg φ τ see w'
    · rcases hf'.of_ok hg with ⟨l₂, hQ, hfq⟩
      refine .ok (hbind.trans hg) (hR _ _ _ _ hP hQ) fun φ τ see w => ?_
      rw [hrun, ← Watched.seen_append see l₁ l₂ w r q, seen]
      rcases l₁.foldlM see w with f | w'
      · rfl
      · exact hfq φ τ see w'

/-- A reference is made first. -/
theorem tell_bind {f : Watched σ ε ρ α} {R : α → List ρ → Prop} (r : σ → ρ)
    (hf : Follows s f y P) (hR : ∀ a l, P a l → R a (r s :: l)) :
    Follows s (fun φ τ see => Watched.tell r see >>= fun _ => f φ τ see) y R := by
  refine (bind (g := fun _ => y) (Q := fun _ => P) (tell r s) (fun _ s' hs => ?_) ?_ :
    Follows s _ (Pure.pure () >>= fun _ => y) R)
  · cases hs
    exact hf
  · rintro _ a l₁ l₂ rfl hl₂
    exact hR a l₂ hl₂

theorem logged {r : α × σ} (h : Follows s x y P) (hy : y s = .ok r) :
    P r.1 (logged x s) ∧
      ∀ φ τ (see : Watcher ρ φ τ) w, x φ τ see (s, w) = seen see (logged x s) w r := by
  rcases h.of_ok hy with ⟨refs, hP, hx⟩
  -- The watcher that notes everything sees the references themselves.
  have hnote : Watched.logged x s = refs := by
    unfold Watched.logged
    rw [hx, seen, Watched.foldlM_note, List.nil_append]
  rw [hnote]
  exact ⟨hP, hx⟩

/-- What there was without the watcher, and what the watcher has made of the
    references. -/
theorem of_eq_ok {see : Watcher ρ φ τ} {w : τ} {r : α × (σ × τ)} (h : Follows s x y P)
    (hx : x φ τ see (s, w) = .ok r) :
    y s = .ok (r.1, r.2.1) ∧ (Watched.logged x s).foldlM see w = .ok r.2.2 := by
  rcases hy : y s with e | q
  · rcases h.of_error hy φ τ see w with ⟨e', he'⟩
    rw [hx] at he'
    cases he'
  · rw [(h.logged hy).2, seen] at hx
    rcases hw : (Watched.logged x s).foldlM see w with f | w'
    · rw [hw] at hx
      cases hx
    · rw [hw] at hx
      cases hx
      exact ⟨rfl, rfl⟩

/-- Whether a watched program has a result, and which, by the program without
    a watcher and by what the watcher makes of its references. -/
theorem eq_logged (h : Follows s x y P) (see : Watcher ρ φ τ) (w : τ) :
    (x φ τ see (s, w)).toOption =
      (y s).toOption.bind fun r =>
        ((Watched.logged x s).foldlM see w).toOption.map fun w' => (r.1, (r.2, w')) := by
  rcases hy : y s with e | r
  · rcases h.of_error hy φ τ see w with ⟨e', he'⟩
    rw [he']
    rfl
  · rw [(h.logged hy).2, seen]
    rcases (Watched.logged x s).foldlM see w with f | w' <;> rfl

end Follows

end MicroArch
