import MicroArch.Cache.Blocks

/-!
# The Representation of a Set

What the pointers of a set mean. The way list runs through all blocks of the
set in some order, in both directions. Each bucket chain runs through the
blocks whose tag is hashed to the bucket. Between the unlinking of a block and
its return to a chain it is on none, so the chains are stated for a part of
the blocks.

An operation on one of the two structures leaves the other one alone, and
both leave the tags, the status and the ready times alone. The lemmas below
come in pairs, one for each structure.

The order is not stored anywhere, so it is an argument of `SetRep`, and so are
the blocks that are on a chain. The bucket of a tag comes from the geometry of
the cache; here it is any function, which may give no bucket at all, as in a
cache of low associativity, where the search goes along the way list instead.

## Main definitions

* `CacheSet.links`: The pointers of the way list.
* `CacheSet.Chained`: The bucket chains hold some of the blocks.
* `SetRep`: The representation of a set whose blocks are in a given order.

## Theorems

* `CacheSet.updateWayList_eq`: A block is moved to an end of the way list.
* `CacheSet.unlinkHtabEnt_eq`, `Chained.linkHtabEnt`: A block leaves its chain
  and returns to one.
* `SetRep.create`: The set as it is created.
-/

namespace MicroArch

namespace Cache

open Pointer

variable {n h : Nat}

/-- What a block holds, apart from its pointers. -/
def Blk.data (b : Blk n) : Addr × BitVec 32 × Tick := (b.tag, b.status, b.ready)

theorem Blk.tag_of_data {b b' : Blk n} (hdata : b.data = b'.data) : b.tag = b'.tag :=
  congrArg Prod.fst hdata

theorem Blk.status_of_data {b b' : Blk n} (hdata : b.data = b'.data) : b.status = b'.status :=
  congrArg (fun d => d.2.1) hdata

theorem Blk.valid_of_data {b b' : Blk n} (hdata : b.data = b'.data) : b.valid = b'.valid := by
  rw [Blk.valid, Blk.status_of_data hdata, ← Blk.valid]

namespace CacheSet

variable {s s' : CacheSet n h}

theorem modifyBlk_self (s : CacheSet n h) (b : Fin n) (f : Blk n → Blk n) :
    (s.modifyBlk b f).blks b = f (s.blks b) :=
  Function.update_self _ _ _

theorem modifyBlk_of_ne (s : CacheSet n h) {b b' : Fin n} (f : Blk n → Blk n) (hne : b' ≠ b) :
    (s.modifyBlk b f).blks b' = s.blks b' :=
  Function.update_of_ne hne _ _

/-- A field that is not changed. -/
theorem modifyBlk_field {β : Type} (π : Blk n → β) (s : CacheSet n h) (b : Fin n)
    {f : Blk n → Blk n} (hf : ∀ x, π (f x) = π x) (b' : Fin n) :
    π ((s.modifyBlk b f).blks b') = π (s.blks b') := by
  by_cases heq : b' = b
  · subst heq
    rw [modifyBlk_self, hf]
  · rw [modifyBlk_of_ne _ _ heq]

/-- A field that is changed. -/
theorem modifyBlk_update {β : Type} (π : Blk n → β) (s : CacheSet n h) (b : Fin n)
    (f : Blk n → Blk n) :
    (fun b' => π ((s.modifyBlk b f).blks b'))
      = Function.update (fun b' => π (s.blks b')) b (π (f (s.blks b))) := by
  funext b'
  by_cases heq : b' = b
  · subst heq
    rw [modifyBlk_self, Function.update_self]
  · rw [modifyBlk_of_ne _ _ heq, Function.update_of_ne heq]

/-! ### The way list -/

/-- The pointers of the way list. -/
def links (s : CacheSet n h) : Links (Fin n) :=
  { next := fun b => (s.blks b).wayNext, prev := fun b => (s.blks b).wayPrev
    head := s.wayHead, tail := s.wayTail }

theorem links_modifyBlk (s : CacheSet n h) (b : Fin n) (f : Blk n → Blk n) :
    (s.modifyBlk b f).links =
      { s.links with
        next := Function.update s.links.next b (f (s.blks b)).wayNext
        prev := Function.update s.links.prev b (f (s.blks b)).wayPrev } := by
  rw [links, modifyBlk_update Blk.wayNext, modifyBlk_update Blk.wayPrev]
  rfl

theorem links_setPrev (s : CacheSet n h) (b : Fin n) (p : Option (Fin n)) :
    (s.modifyBlk b fun x => { x with wayPrev := p }).links =
      { s.links with prev := Function.update s.links.prev b p } := by
  have hnext : Function.update s.links.next b (s.blks b).wayNext = s.links.next :=
    Function.update_eq_self b s.links.next
  simp only [links_modifyBlk, hnext]

theorem links_setNext (s : CacheSet n h) (b : Fin n) (p : Option (Fin n)) :
    (s.modifyBlk b fun x => { x with wayNext := p }).links =
      { s.links with next := Function.update s.links.next b p } := by
  have hprev : Function.update s.links.prev b (s.blks b).wayPrev = s.links.prev :=
    Function.update_eq_self b s.links.prev
  simp only [links_modifyBlk, hprev]

theorem links_setHead (s : CacheSet n h) (p : Option (Fin n)) :
    ({ s with wayHead := p } : CacheSet n h).links = { s.links with head := p } := rfl

theorem links_setTail (s : CacheSet n h) (p : Option (Fin n)) :
    ({ s with wayTail := p } : CacheSet n h).links = { s.links with tail := p } := rfl

theorem links_setEnds (s : CacheSet n h) (p q : Option (Fin n)) :
    ({ s with wayHead := p, wayTail := q } : CacheSet n h).links
      = { s.links with head := p, tail := q } := rfl

/-- An operation on the way list leaves the rest alone. -/
structure WayFrame (s s' : CacheSet n h) : Prop where
  hash : s'.hash = s.hash
  hashNext : ∀ b, (s'.blks b).hashNext = (s.blks b).hashNext
  data : ∀ b, (s'.blks b).data = (s.blks b).data

theorem WayFrame.refl (s : CacheSet n h) : WayFrame s s := ⟨rfl, fun _ => rfl, fun _ => rfl⟩

theorem WayFrame.trans {s₁ s₂ s₃ : CacheSet n h} (h₁ : WayFrame s₁ s₂) (h₂ : WayFrame s₂ s₃) :
    WayFrame s₁ s₃ where
  hash := h₂.hash.trans h₁.hash
  hashNext b := (h₂.hashNext b).trans (h₁.hashNext b)
  data b := (h₂.data b).trans (h₁.data b)

theorem WayFrame.modifyBlk (s : CacheSet n h) (b : Fin n) {f : Blk n → Blk n}
    (hnext : ∀ x, (f x).hashNext = x.hashNext) (hdata : ∀ x, (f x).data = x.data) :
    WayFrame s (s.modifyBlk b f) :=
  ⟨rfl, modifyBlk_field Blk.hashNext s b hnext, modifyBlk_field Blk.data s b hdata⟩

theorem WayFrame.setHead (s : CacheSet n h) (p : Option (Fin n)) :
    WayFrame s { s with wayHead := p } :=
  ⟨rfl, fun _ => rfl, fun _ => rfl⟩

theorem WayFrame.setTail (s : CacheSet n h) (p : Option (Fin n)) :
    WayFrame s { s with wayTail := p } :=
  ⟨rfl, fun _ => rfl, fun _ => rfl⟩

/-- The order of the blocks after one of them was put at an end. -/
def placed (loc : ListLoc) (b : Fin n) (l : List (Fin n)) : List (Fin n) :=
  match loc with
  | .Head => b :: l
  | .Tail => l ++ [b]

/-- Two changes of way pointers. -/
theorem WayFrame.modifyBlk₂ (s : CacheSet n h) (x y : Fin n) (p q r : Option (Fin n)) :
    WayFrame s ((s.modifyBlk x fun b => { b with wayNext := p, wayPrev := q }).modifyBlk y
      fun b => { b with wayPrev := r }) ∧
    WayFrame s ((s.modifyBlk x fun b => { b with wayNext := p, wayPrev := q }).modifyBlk y
      fun b => { b with wayNext := r }) := by
  have hfirst := WayFrame.modifyBlk s x (f := fun b => { b with wayNext := p, wayPrev := q })
    (fun _ => rfl) fun _ => rfl
  exact ⟨hfirst.trans (.modifyBlk _ y (fun _ => rfl) fun _ => rfl),
    hfirst.trans (.modifyBlk _ y (fun _ => rfl) fun _ => rfl)⟩

theorem linkWay_eq {l : List (Fin n)} {b : Fin n} (hk : Linked s.links l) (hne : l ≠ [])
    (hb : b ∉ l) (loc : ListLoc) : ∃ s', s.linkWay b loc = .ok s' ∧
      Linked s'.links (placed loc b l) ∧ WayFrame s s' := by
  -- The source follows the pointer to the old head, which exists when the list is not empty.
  cases loc with
  | Head =>
      have hpush := hk.pushHead hne hb
      rcases hhead : s.wayHead with _ | first
      · refine absurd (hk.head_eq.symm.trans hhead) fun hnil => ?_
        exact hne (List.head?_eq_none_iff.mp hnil)
      have hframe := (WayFrame.modifyBlk₂ s b first (some first) none (some b)).1
      rw [linkWay, hhead]
      refine ⟨_, rfl, ?_, ⟨hframe.hash, hframe.hashNext, hframe.data⟩⟩
      rw [Links.pushHead, show s.links.head = some first from hhead] at hpush
      rw [links_setHead, links_setPrev, links_modifyBlk]
      exact hpush
  | Tail =>
      have hpush := hk.pushTail hne hb
      rcases htail : s.wayTail with _ | last
      · refine absurd (hk.tail_eq.symm.trans htail) fun hnil => ?_
        exact hne (List.getLast?_eq_none_iff.mp hnil)
      have hframe := (WayFrame.modifyBlk₂ s b last none (some last) (some b)).2
      rw [linkWay, htail]
      refine ⟨_, rfl, ?_, ⟨hframe.hash, hframe.hashNext, hframe.data⟩⟩
      rw [Links.pushTail, Links.pushHead, show s.links.flip.head = some last from htail] at hpush
      rw [links_setTail, links_setNext, links_modifyBlk]
      exact hpush

/-- A block is moved to an end of the way list. None of the assertions
    fails. -/
theorem updateWayList_eq {l l' : List (Fin n)} {b : Fin n} (hk : Linked s.links (l ++ b :: l'))
    (loc : ListLoc) : ∃ s', s.updateWayList b loc = .ok s' ∧
      Linked s'.links (placed loc b (l ++ l')) ∧ WayFrame s s' := by
  have hprev : (s.blks b).wayPrev = l.getLast? := hk.prev_eq
  have hnext : (s.blks b).wayNext = l'.head? := hk.next_eq
  have hhead : s.wayHead = some b ↔ l = [] := hk.head_eq_some_iff
  have htail : s.wayTail = some b ↔ l' = [] := hk.tail_eq_some_iff
  have hnot : b ∉ l ++ l' := by
    rw [List.mem_append, not_or]
    exact hk.notMem_of_middle
  -- The block was unlinked, and is linked again.
  have hlink : ∀ s₁ : CacheSet n h, s₁.links = s.links.unlink b → l ++ l' ≠ [] → WayFrame s s₁ →
      ∃ s', s₁.linkWay b loc = .ok s' ∧ Linked s'.links (placed loc b (l ++ l')) ∧
        WayFrame s s' := by
    intro s₁ hlinks hne hframe
    have hk₁ := hk.unlink hne
    rw [← hlinks] at hk₁
    rcases linkWay_eq hk₁ hne hnot loc with ⟨s', heq, hk', hframe'⟩
    exact ⟨s', heq, hk', hframe.trans hframe'⟩
  rw [updateWayList, hprev, hnext]
  -- The cases of the source: which neighbours the block has.
  rcases List.eq_nil_or_concat' l with rfl | ⟨l₁, p, rfl⟩ <;> rcases l' with _ | ⟨q, l'⟩
  · refine ⟨s, if_pos ⟨hhead.mpr rfl, htail.mpr rfl⟩, ?_, .refl s⟩
    cases loc <;> exact hk
  · have hne : s.wayTail ≠ some b := fun heq => List.cons_ne_nil _ _ (htail.mp heq)
    simp only [List.getLast?_nil, List.head?_cons, if_pos (And.intro (hhead.mpr rfl) hne)]
    cases loc with
    | Head => exact ⟨s, if_pos rfl, hk, .refl s⟩
    | Tail =>
        rw [if_neg ListLoc.noConfusion]
        refine hlink _ ?_ (List.cons_ne_nil _ _) ((WayFrame.setHead s _).trans
          (.modifyBlk _ q (fun _ => rfl) fun _ => rfl))
        rw [links_setPrev, links_setHead, Links.unlink, show s.links.prev b = none from hprev,
          show s.links.next b = some q from hnext]
  · have hne : s.wayHead ≠ some b := fun heq => List.append_ne_nil_of_right_ne_nil _
      (List.cons_ne_nil _ _) (hhead.mp heq)
    simp only [List.getLast?_concat, List.head?_nil, if_pos (And.intro hne (htail.mpr rfl))]
    cases loc with
    | Head =>
        rw [if_neg ListLoc.noConfusion]
        refine hlink _ ?_ (by simp) ((WayFrame.setTail s _).trans
          (.modifyBlk _ p (fun _ => rfl) fun _ => rfl))
        rw [links_setNext, links_setTail, Links.unlink,
          show s.links.prev b = some p from hprev.trans List.getLast?_concat,
          show s.links.next b = none from hnext]
    | Tail =>
        refine ⟨s, if_pos rfl, ?_, .refl s⟩
        rw [placed, List.append_nil]
        exact hk
  · have hne : s.wayHead ≠ some b := fun heq => List.append_ne_nil_of_right_ne_nil _
      (List.cons_ne_nil _ _) (hhead.mp heq)
    have hne' : s.wayTail ≠ some b := fun heq => List.cons_ne_nil _ _ (htail.mp heq)
    simp only [List.getLast?_concat, List.head?_cons, if_pos (And.intro hne hne')]
    have hfirst := WayFrame.modifyBlk s p (f := fun b => { b with wayNext := some q })
      (fun _ => rfl) fun _ => rfl
    refine hlink _ ?_ (by simp) (hfirst.trans (.modifyBlk _ q (fun _ => rfl) fun _ => rfl))
    rw [links_setPrev, links_setNext, Links.unlink,
      show s.links.prev b = some p from hprev.trans List.getLast?_concat,
      show s.links.next b = some q from hnext]

/-! ### Bucket chains -/

/-- An operation on the bucket chains leaves the rest alone. -/
structure HashFrame (s s' : CacheSet n h) : Prop where
  links : s'.links = s.links
  data : ∀ b, (s'.blks b).data = (s.blks b).data

/-- The pointers along the bucket chains. -/
def hashLinks (s : CacheSet n h) : Fin n → Option (Fin n) := fun b => (s.blks b).hashNext

theorem hashLinks_setHashNext (s : CacheSet n h) (b : Fin n) (p : Option (Fin n)) :
    (s.modifyBlk b fun x => { x with hashNext := p }).hashLinks
      = Function.update s.hashLinks b p :=
  modifyBlk_update Blk.hashNext s b _

theorem HashFrame.setHashNext (s : CacheSet n h) (b : Fin n) (p : Option (Fin n)) :
    HashFrame s (s.modifyBlk b fun x => { x with hashNext := p }) where
  links := by
    have hnext : Function.update s.links.next b (s.blks b).wayNext = s.links.next :=
      Function.update_eq_self b s.links.next
    have hprev : Function.update s.links.prev b (s.blks b).wayPrev = s.links.prev :=
      Function.update_eq_self b s.links.prev
    simp only [links_modifyBlk, hnext, hprev]
  data := modifyBlk_field Blk.data s b fun _ => rfl

/-- The blocks of `S` are on the chains of their buckets, each once, and no
    other blocks are. -/
def Chained (bucket : Addr → Option (Fin h)) (s : CacheSet n h) (S : Fin n → Prop) : Prop :=
  ∀ index, ∃ l, Chain s.hashLinks (s.hash index) l ∧ l.Nodup ∧
    ∀ b, b ∈ l ↔ S b ∧ bucket (s.blks b).tag = some index

variable {bucket : Addr → Option (Fin h)} {S : Fin n → Prop}

/-- Only the pointers of the chains and the tags of their blocks matter. -/
theorem Chained.congr (hs : Chained bucket s S) (hhash : s'.hash = s.hash)
    (hnext : s'.hashLinks = s.hashLinks) (htag : ∀ b, S b → (s'.blks b).tag = (s.blks b).tag) :
    Chained bucket s' S := by
  intro index
  rcases hs index with ⟨l, hl, hnodup, hmem⟩
  refine ⟨l, by rwa [hnext, hhash], hnodup, fun b => (hmem b).trans ?_⟩
  exact and_congr_right fun hb => by rw [htag b hb]

/-- A block on its chain is found there. -/
theorem Chained.locate {b : Fin n} {index : Fin h} (hs : Chained bucket s S) (hb : S b)
    (hindex : bucket (s.blks b).tag = some index) : ∃ l l',
      Chain s.hashLinks (s.hash index) (l ++ b :: l') ∧ (l ++ b :: l').Nodup ∧
      (∀ x, x ∈ l ++ b :: l' ↔ S x ∧ bucket (s.blks x).tag = some index) ∧
      Pointer.locate s.hashLinks b n none (s.hash index) = some (l.getLast?, some b) := by
  rcases hs index with ⟨cells, hcells, hnodup, hmem⟩
  rcases List.append_of_mem ((hmem b).mpr ⟨hb, hindex⟩) with ⟨l, l', rfl⟩
  have hnot := (List.nodup_cons.mp (List.nodup_middle.mp hnodup)).1
  -- The cells before it are others, so the loop does not stop too early.
  rw [List.mem_append, not_or] at hnot
  have hlength := hnodup.length_le_card
  rw [Fintype.card_fin, List.length_append, List.length_cons] at hlength
  refine ⟨l, l', hcells, hnodup, hmem, ?_⟩
  rw [locate_eq hcells hnot.1 (by omega), Option.or_none]

/-- What has to be shown of the pointers once a cell was taken from its
    chain. -/
theorem Chained.unlinked {b : Fin n} {index : Fin h} {l l' : List (Fin n)}
    (hs : Chained bucket s S) (hnodup : (l ++ b :: l').Nodup)
    (hmem : ∀ x, x ∈ l ++ b :: l' ↔ S x ∧ bucket (s.blks x).tag = some index)
    (hframe : HashFrame s s') (hchain : Chain s'.hashLinks (s'.hash index) (l ++ l'))
    (hhash : ∀ index' ≠ index, s'.hash index' = s.hash index')
    (hlinks : ∀ x ∉ l ++ b :: l', s'.hashLinks x = s.hashLinks x) :
    Chained bucket s' fun x => S x ∧ x ≠ b := by
  have hnot := List.nodup_cons.mp (List.nodup_middle.mp hnodup)
  rw [List.mem_append, not_or] at hnot
  have hmem' : ∀ x, x ∈ l ++ l' ↔ (S x ∧ x ≠ b) ∧ bucket (s.blks x).tag = some index := by
    intro x
    have hx := hmem x
    rw [List.mem_append, List.mem_cons] at hx
    rw [List.mem_append, and_right_comm, ← hx]
    constructor
    · intro hin
      refine ⟨hin.imp_right Or.inr, ?_⟩
      rintro rfl
      exact hin.elim hnot.1.1 hnot.1.2
    · intro hin
      rcases hin with ⟨hin | rfl | hin, hne⟩
      · exact Or.inl hin
      · exact absurd rfl hne
      · exact Or.inr hin
  have htag : ∀ x, (s'.blks x).tag = (s.blks x).tag := fun x => Blk.tag_of_data (hframe.data x)
  intro index'
  by_cases heq : index' = index
  · subst heq
    refine ⟨l ++ l', hchain, hnot.2, fun x => ?_⟩
    rw [hmem' x, htag]
  · rcases hs index' with ⟨cells, hc, hc', hin⟩
    -- No cell of this chain is on another one.
    have hother : ∀ x ∈ l ++ b :: l', x ∉ cells := by
      intro x hx hx'
      have hsame := ((hmem x).mp hx).2.symm.trans ((hin x).mp hx').2
      exact heq (Option.some.inj hsame).symm
    refine ⟨cells, ?_, hc', fun x => ?_⟩
    · rw [hhash index' heq]
      exact hc.congr fun x hx => hlinks x fun hx' => hother x hx' hx
    · rw [hin x, htag, and_right_comm]
      refine ⟨fun hx => ⟨hx, ?_⟩, fun hx => hx.1⟩
      rintro rfl
      exact hother x (List.mem_append_right _ List.mem_cons_self) ((hin x).mpr hx)

/-- A block leaves its chain. The assertion does not fail. -/
theorem unlinkHtabEnt_eq {b : Fin n} {index : Fin h} (hs : Chained bucket s S) (hb : S b)
    (hindex : bucket (s.blks b).tag = some index) : ∃ s', s.unlinkHtabEnt index b = .ok s' ∧
      Chained bucket s' (fun x => S x ∧ x ≠ b) ∧ HashFrame s s' := by
  rcases hs.locate hb hindex with ⟨l, l', hcells, hnodup, hmem, hlocate⟩
  have hnot := List.nodup_cons.mp (List.nodup_middle.mp hnodup)
  rw [List.mem_append, not_or] at hnot
  -- What both cases have in common: the chain has lost the block, and nothing else moved.
  have hrest : ∀ s' : CacheSet n h, HashFrame s s' →
      Chain s'.hashLinks (s'.hash index) (l ++ l') →
      (∀ index' ≠ index, s'.hash index' = s.hash index') →
      (∀ x ∉ l ++ b :: l', s'.hashLinks x = s.hashLinks x) →
      Chained bucket s' (fun x => S x ∧ x ≠ b) ∧ HashFrame s s' :=
    fun s' hframe hchain hhash hlinks =>
      ⟨hs.unlinked hnodup hmem hframe hchain hhash hlinks, hframe⟩
  have hlocate' : Pointer.locate (fun x => (s.blks x).hashNext) b n none (s.hash index) = _ :=
    hlocate
  rw [unlinkHtabEnt, hlocate']
  rcases List.eq_nil_or_concat' l with rfl | ⟨l₁, p, rfl⟩
  · -- head of hash bucket list
    have hb' : b ∉ l' := hnot.1.2
    refine ⟨_, rfl, hrest _ ?_ ?_ ?_ ?_⟩
    · have hframe := HashFrame.setHashNext
        { s with hash := Function.update s.hash index (s.blks b).hashNext } b none
      exact ⟨hframe.links, hframe.data⟩
    · rw [hashLinks_setHashNext]
      change Chain _ (Function.update s.hash index _ index) _
      rw [Function.update_self]
      exact (seg_middle.mp hcells).2.update_of_notMem hb'
    · intro index' hne
      exact Function.update_of_ne hne _ _
    · intro x hx
      rw [hashLinks_setHashNext]
      refine Function.update_of_ne (fun heq => hx ?_) _ _
      rw [heq]
      exact List.mem_cons_self
  · -- middle or end of hash bucket list
    rw [List.getLast?_concat]
    refine ⟨_, rfl, hrest _ ?_ ?_ ?_ ?_⟩
    · have hfirst := HashFrame.setHashNext s p (s.blks b).hashNext
      have hsecond := HashFrame.setHashNext
        (s.modifyBlk p fun x => { x with hashNext := (s.blks b).hashNext }) b none
      exact ⟨hsecond.links.trans hfirst.links, fun x => (hsecond.data x).trans (hfirst.data x)⟩
    · -- The write to the block itself comes after it has been skipped.
      rw [hashLinks_setHashNext, hashLinks_setHashNext]
      have hsplit := seg_middle.mp hcells
      have hp := hnot.2
      rw [List.append_assoc] at hp
      have hp' := (List.nodup_cons.mp (List.nodup_middle.mp hp)).1
      rw [List.mem_append, not_or] at hp'
      refine (hsplit.1.skip hsplit.2 hp'.1 hp'.2).update_of_notMem ?_
      rw [List.mem_append, not_or]
      exact hnot.1
    · intro index' hne
      rfl
    · intro x hx
      rw [List.mem_append, List.mem_append, List.mem_singleton, List.mem_cons] at hx
      rw [hashLinks_setHashNext, hashLinks_setHashNext,
        Function.update_of_ne fun heq => hx (Or.inr (Or.inl heq)),
        Function.update_of_ne fun heq => hx (Or.inl (Or.inr heq))]

/-- A block is put on the chain of its bucket. -/
theorem Chained.linkHtabEnt {b : Fin n} {index : Fin h} (hs : Chained bucket s S) (hb : ¬ S b)
    (hindex : bucket (s.blks b).tag = some index) :
    Chained bucket (s.linkHtabEnt index b) (fun x => S x ∨ x = b) ∧
      HashFrame s (s.linkHtabEnt index b) := by
  have hframe := HashFrame.setHashNext s b (s.hash index)
  have htag : ∀ x, ((s.linkHtabEnt index b).blks x).tag = (s.blks x).tag :=
    fun x => Blk.tag_of_data (hframe.data x)
  have hlinks : (s.linkHtabEnt index b).hashLinks
      = Function.update s.hashLinks b (s.hash index) := hashLinks_setHashNext s b _
  refine ⟨fun index' => ?_, hframe.links, hframe.data⟩
  rcases hs index' with ⟨cells, hcells, hnodup, hmem⟩
  have hnot : b ∉ cells := fun hin => hb ((hmem b).mp hin).1
  have hcells' := hcells.update_of_notMem (r := s.hash index) hnot
  rw [← hlinks] at hcells'
  -- The chain of its bucket gets the block in front, and no other chain has it.
  by_cases heq : index' = index
  · subst heq
    refine ⟨b :: cells, ⟨Function.update_self _ _ _, ?_⟩, List.nodup_cons.mpr ⟨hnot, hnodup⟩,
      fun x => ?_⟩
    · rw [hlinks, Function.update_self, ← hlinks]
      exact hcells'
    · rw [List.mem_cons, hmem x, htag]
      constructor
      · intro hx
        rcases hx with rfl | hx
        · exact ⟨Or.inr rfl, hindex⟩
        · exact ⟨Or.inl hx.1, hx.2⟩
      · intro hx
        exact hx.1.elim (fun hS => Or.inr ⟨hS, hx.2⟩) Or.inl
  · refine ⟨cells, ?_, hnodup, fun x => ?_⟩
    · have hhash : (s.linkHtabEnt index b).hash index' = s.hash index' :=
        Function.update_of_ne heq _ _
      rwa [hhash]
    · rw [hmem x, htag]
      refine and_congr_left fun hx => ⟨Or.inl, fun hS => hS.resolve_right ?_⟩
      rintro rfl
      exact heq (Option.some.inj (hx.symm.trans hindex))

end CacheSet

/-! ### Sets -/

open CacheSet

/-- The pointers of a set represent its blocks in the given order. The blocks
    of `S` are on the chains of their buckets, and no two of them are valid
    and have the same tag. -/
structure SetRep (bucket : Addr → Option (Fin h)) (S : Fin n → Prop) (s : CacheSet n h)
    (ord : List (Fin n)) : Prop where
  linked : Linked s.links ord
  complete : ∀ b, b ∈ ord
  chained : Chained bucket s S
  unique : ∀ b b', S b → S b' → (s.blks b).valid → (s.blks b').valid →
    (s.blks b).tag = (s.blks b').tag → b = b'

/-- A set during its creation, when some of the blocks are linked. -/
structure SliceRep (bucket : Addr → Option (Fin h)) (s : CacheSet n h) (l : List (Fin n)) :
    Prop where
  linked : Linked s.links l
  chained : Chained bucket s (· ∈ l)
  data : ∀ b, (s.blks b).data = (0, 0, 0)

variable {bucket : Addr → Option (Fin h)} {s : CacheSet n h} {l : List (Fin n)} {b : Fin n}

/-- The chains of a set in which one more block has been linked. -/
theorem SliceRep.chain {s' : CacheSet n h} (hs : SliceRep bucket s l) (hb : b ∉ l)
    (hs' : s' = match bucket 0 with
      | some index => s.linkHtabEnt index b
      | none => s) : Chained bucket s' (· ∈ b :: l) ∧ HashFrame s s' := by
  have htag : ∀ x, (s.blks x).tag = 0 := fun x => congrArg Prod.fst (hs.data x)
  have hor : (fun x => x ∈ l ∨ x = b) = (· ∈ b :: l) := by
    funext x
    rw [List.mem_cons, or_comm]
  subst hs'
  -- A cache that searches its ways has no chains to build.
  rcases hbucket : bucket 0 with _ | index
  · refine ⟨fun index => ?_, rfl, fun _ => rfl⟩
    rcases hs.chained index with ⟨cells, hcells, hnodup, hmem⟩
    refine ⟨cells, hcells, hnodup, fun x => (hmem x).trans ?_⟩
    rw [htag, hbucket]
    simp only [reduceCtorEq, and_false]
  · have hlink := hs.chained.linkHtabEnt hb ((congrArg bucket (htag b)).trans hbucket)
    rw [hor] at hlink
    exact hlink

/-- The way list of a set in which one more block has been linked. -/
theorem linked_slice {s' : CacheSet n h} (hk : Linked s.links l) (hb : b ∉ l)
    (hs' : s' = match s.wayHead with
      | some head =>
          (s.modifyBlk b fun x => { x with wayNext := s.wayHead, wayPrev := none }).modifyBlk
            head fun x => { x with wayPrev := some b }
      | none => s.modifyBlk b fun x => { x with wayNext := s.wayHead, wayPrev := none }) :
    Linked ({ s' with wayHead := some b, wayTail := s'.wayTail.or (some b) } : CacheSet n h).links
      (b :: l) ∧ WayFrame s s' := by
  subst hs'
  have hframe := WayFrame.modifyBlk s b
    (f := fun x => { x with wayNext := s.wayHead, wayPrev := none }) (fun _ => rfl) fun _ => rfl
  rcases l with _ | ⟨first, l⟩
  · -- The list was empty: the block is its head and its tail.
    have hhead : s.wayHead = none := hk.head_eq
    have htail : s.wayTail = none := hk.tail_eq
    rw [hhead] at hframe ⊢
    refine ⟨⟨⟨rfl, ?_⟩, ⟨?_, ?_⟩, List.nodup_singleton b⟩, hframe⟩
    · change (Blk.wayNext _) = none
      rw [modifyBlk_self]
    · change s.wayTail.or (some b) = some b
      rw [htail, Option.none_or]
    · change (Blk.wayPrev _) = none
      rw [modifyBlk_self]
  · -- The old head gets a predecessor, and the tail stays.
    have hhead : s.wayHead = some first := hk.head_eq
    have hpush := hk.pushHead (List.cons_ne_nil _ _) hb
    rcases htail : s.wayTail with _ | last
    · exact absurd (hk.tail_eq.symm.trans htail) (by simp)
    rw [hhead] at hframe ⊢
    refine ⟨?_, hframe.trans (.modifyBlk _ first (fun _ => rfl) fun _ => rfl)⟩
    rw [Links.pushHead, show s.links.head = some first from hhead] at hpush
    rw [links_setEnds]
    dsimp only
    rw [links_setPrev, links_modifyBlk]
    have htail' : s.wayTail.or (some b) = s.links.tail := by
      rw [htail]
      exact htail.symm
    change Linked ({ tail := s.wayTail.or (some b), .. } : Links _) _
    rw [htail']
    exact hpush

theorem SliceRep.slice (hs : SliceRep bucket s l) (hb : b ∉ l) :
    SliceRep bucket (s.slice (bucket 0) b) (b :: l) := by
  have hchain := hs.chain hb rfl
  rcases hchain with ⟨hchained, hframe⟩
  have hk := hs.linked
  rw [← hframe.links] at hk
  have hway := linked_slice hk hb rfl
  refine ⟨hway.1, ?_, ?_⟩
  · exact hchained.congr hway.2.hash (funext hway.2.hashNext) fun x _ =>
      Blk.tag_of_data (hway.2.data x)
  · exact fun x => (hway.2.data x).trans ((hframe.data x).trans (hs.data x))

theorem SliceRep.foldl (blks : List (Fin n)) (hs : SliceRep bucket s l)
    (hnodup : (blks.reverse ++ l).Nodup) :
    SliceRep bucket (blks.foldl (CacheSet.slice (bucket 0)) s) (blks.reverse ++ l) := by
  induction blks generalizing s l with
  | nil => exact hs
  | cons b blks ih =>
      rw [List.reverse_cons, List.append_assoc] at hnodup ⊢
      have hb : b ∉ l := (List.nodup_cons.mp (List.nodup_append.mp hnodup).2.1).1
      exact ih (hs.slice hb) hnodup

/-- The set as it is created. -/
theorem SliceRep.create (n : Nat) (bucket : Addr → Option (Fin h)) :
    SliceRep bucket ((List.finRange n).foldl (CacheSet.slice (bucket 0)) (CacheSet.empty n h))
      (List.finRange n).reverse := by
  have hempty : SliceRep bucket (CacheSet.empty n h) [] :=
    ⟨⟨rfl, rfl, List.nodup_nil⟩,
      fun _ => ⟨[], rfl, List.nodup_nil, fun _ => by simp only [List.not_mem_nil, false_and]⟩,
      fun _ => rfl⟩
  have hnodup : ((List.finRange n).reverse ++ []).Nodup := by
    rw [List.append_nil, List.nodup_reverse]
    exact List.nodup_finRange n
  -- All ways are linked in the order of their numbers, each in front of those before.
  have hfold := hempty.foldl (List.finRange n) hnodup
  rwa [List.append_nil] at hfold

theorem Blk.valid_of_status {b : Blk n} (hstatus : b.status = 0) : b.valid = false := by
  rw [Blk.valid, hstatus]
  rfl

theorem SliceRep.setRep (hs : SliceRep bucket s l) (hall : ∀ b, b ∈ l) :
    SetRep bucket (fun _ => True) s l where
  linked := hs.linked
  complete := hall
  chained := by
    have htrue : (· ∈ l) = fun _ : Fin n => True := funext fun b => eq_true (hall b)
    rw [← htrue]
    exact hs.chained
  unique b _ _ _ hvalid := by
    rw [Blk.valid_of_status (congrArg (fun d => d.2.1) (hs.data b))] at hvalid
    exact absurd hvalid Bool.false_ne_true

namespace SetRep

variable {S : Fin n → Prop} {ord : List (Fin n)}

/-- Where a block is in the order. -/
theorem split (hs : SetRep bucket S s ord) (b : Fin n) :
    ∃ l l', ord = l ++ b :: l' ∧ ord.erase b = l ++ l' := by
  rcases List.append_of_mem (hs.complete b) with ⟨l, l', rfl⟩
  have hnot := hs.linked.notMem_of_middle.1
  refine ⟨l, l', rfl, ?_⟩
  rw [List.erase_append_right _ hnot, List.erase_cons_head]

theorem move (hs : SetRep bucket S s ord) (b : Fin n) (loc : ListLoc) :
    ∃ s', s.updateWayList b loc = .ok s' ∧ SetRep bucket S s' (placed loc b (ord.erase b)) ∧
      ∀ x, (s'.blks x).data = (s.blks x).data := by
  rcases hs.split b with ⟨l, l', hord, herase⟩
  have hlinked := hs.linked
  rw [hord] at hlinked
  rcases updateWayList_eq hlinked loc with ⟨s', heq, hlinked', hframe⟩
  refine ⟨s', heq, ⟨?_, fun x => ?_, ?_, fun x y hx hy hvx hvy htag => ?_⟩, hframe.data⟩
  · -- Only the pointers of the way list were written, so everything else is kept.
    rwa [herase]
  · have hx := hs.complete x
    rw [hord, List.mem_append, List.mem_cons] at hx
    rw [herase]
    cases loc <;> simp only [placed, List.mem_cons, List.mem_append, List.mem_nil_iff] <;> tauto
  · exact hs.chained.congr hframe.hash (funext hframe.hashNext) fun x _ =>
      Blk.tag_of_data (hframe.data x)
  · rw [Blk.valid_of_data (hframe.data x)] at hvx
    rw [Blk.valid_of_data (hframe.data y)] at hvy
    rw [Blk.tag_of_data (hframe.data x), Blk.tag_of_data (hframe.data y)] at htag
    exact hs.unique x y hx hy hvx hvy htag

/-- A change of the data of a block that keeps its pointers. -/
theorem modifyBlk (hs : SetRep bucket S s ord) (b : Fin n) {f : Blk n → Blk n}
    (hnext : ∀ x, (f x).wayNext = x.wayNext) (hprev : ∀ x, (f x).wayPrev = x.wayPrev)
    (hhash : ∀ x, (f x).hashNext = x.hashNext)
    (htag : S b → ∀ x, (f x).tag = x.tag ∧ ((f x).valid → x.valid)) :
    SetRep bucket S (s.modifyBlk b f) ord := by
  -- The pointers are written back as they were.
  have hlinks : (s.modifyBlk b f).links = s.links := by
    have hn : Function.update s.links.next b (s.blks b).wayNext = s.links.next :=
      Function.update_eq_self b s.links.next
    have hp : Function.update s.links.prev b (s.blks b).wayPrev = s.links.prev :=
      Function.update_eq_self b s.links.prev
    simp only [links_modifyBlk, hnext, hprev, hn, hp]
  have hkeep : ∀ x, S x → ((s.modifyBlk b f).blks x).tag = (s.blks x).tag ∧
      (((s.modifyBlk b f).blks x).valid → (s.blks x).valid) := by
    intro x hx
    by_cases heq : x = b
    · subst heq
      rw [modifyBlk_self]
      exact htag hx _
    · rw [modifyBlk_of_ne _ _ heq]
      exact ⟨rfl, id⟩
  refine ⟨?_, hs.complete, ?_, fun x y hx hy hvx hvy heq => ?_⟩
  · rw [hlinks]
    exact hs.linked
  · exact hs.chained.congr rfl (funext (modifyBlk_field Blk.hashNext s b hhash))
      fun x hx => (hkeep x hx).1
  · rw [(hkeep x hx).1, (hkeep y hy).1] at heq
    exact hs.unique x y hx hy ((hkeep x hx).2 hvx) ((hkeep y hy).2 hvy) heq

/-- A change that nothing but the chains notice. -/
theorem of_hashFrame {S' : Fin n → Prop} {s' : CacheSet n h} (hs : SetRep bucket S s ord)
    (hframe : HashFrame s s') (hchained : Chained bucket s' S')
    (hunique : ∀ b b', S' b → S' b' → (s.blks b).valid → (s.blks b').valid →
      (s.blks b).tag = (s.blks b').tag → b = b') : SetRep bucket S' s' ord := by
  refine ⟨?_, hs.complete, hchained, fun x y hx hy hvx hvy htag => ?_⟩
  · rw [hframe.links]
    exact hs.linked
  · rw [Blk.valid_of_data (hframe.data x)] at hvx
    rw [Blk.valid_of_data (hframe.data y)] at hvy
    rw [Blk.tag_of_data (hframe.data x), Blk.tag_of_data (hframe.data y)] at htag
    exact hunique x y hx hy hvx hvy htag

end SetRep

end Cache

end MicroArch
