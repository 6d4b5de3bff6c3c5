import MicroArch.Tomasulo.Effect

/-!
# The Fetch Queue

The queue and its separate size counter against what they are for: a list
that grows at the tail as instructions are fetched and shrinks at the head as
they are dispatched.

`QueueRep` ties the array and the counter to the list. The invariant of a run
is `Fifo`: what was dispatched so far, followed by what is queued, is the
sequence of fetched instructions that are not traps. It does not mention how
the run got there, so it is proved from one stage to the next, and
`fifo_runTomasulo` puts the dispatched instructions of the actual run in.

`State.front` is the position up to which instructions have been dispatched:
the head of the queue, or everything fetched when the queue is empty. The
other invariants speak of dispatched instructions through it, and need to
know only how it moves: `fetch_front` and `dispatch_front`.

## Main definitions

* `QueueRep`: The queue array and its size hold the list.
* `fetchedSoFar`, `removedSoFar`: What a run has fetched and dispatched.
* `queued`: The fetched instructions that are not traps.
* `Fifo`: Dispatched then queued is fetched.
* `State.front`: The position up to which instructions are dispatched.

## Theorems

* `fifo_fetch`, `fifo_dispatch`: The two stages keep the queue a queue.
* `fifo_runTomasulo`: The queue of every configuration of a run.
* `fetchQueue_lossless_fifo`: The contents, size and history of the queue in
  every configuration.
* `fetch_front`: Fetching dispatches nothing.
* `dispatch_front`: Dispatching adds the head.
-/

namespace MicroArch

namespace Tomasulo

variable {trace : Trace} {cc simInsn : Nat} {s s' : State}

/-- The queue array holds the list, and the counter its length. -/
structure QueueRep (s : State) (l : List Nat) : Prop where
  size : s.instrQueueSize = l.length
  cells : Slots.Packed s.instrQueue l

theorem queueRep_initial : QueueRep State.initial [] where
  size := rfl
  cells := ⟨Nat.zero_le _, fun _ => rfl⟩

theorem QueueRep.append {l : List Nat} (h : QueueRep s l)
    (hsize : s.instrQueueSize ≠ INSTR_QUEUE_SIZE) (p : Nat) :
    QueueRep (appendQueue s p) (l ++ [p]) where
  size := by
    simp only [appendQueue, h.size, List.length_append, List.length_singleton]
    omega
  cells := by
    -- The size test of the source keeps the write inside the array.
    have hlt : l.length < INSTR_QUEUE_SIZE := by
      have hb := h.cells.bound
      rw [h.size] at hsize
      omega
    have hcells : (appendQueue s p).instrQueue
        = fun j => if j.val = l.length then some p else s.instrQueue j := by
      funext j
      simp only [appendQueue, h.size, Int.natCast_inj]
    rw [hcells]
    exact h.cells.append hlt p

theorem QueueRep.shift {head : Nat} {l : List Nat} (h : QueueRep s (head :: l)) :
    QueueRep (shiftQueue s) l where
  size := by
    simp only [shiftQueue, h.size, List.length_cons]
    omega
  cells := h.cells.shift

/-- The first cell of the array is the head of the list. -/
theorem QueueRep.head {l : List Nat} (h : QueueRep s l) : s.instrQueue 0 = l.head? := by
  rw [h.cells.cells 0, List.head?_eq_getElem?]
  rfl

/-- A nonempty queue has its head in the first cell. -/
theorem QueueRep.eq_cons {head : Nat} {l : List Nat} (h : QueueRep s l)
    (hq : s.instrQueue 0 = some head) : ∃ l', l = head :: l' := by
  rw [h.head] at hq
  cases l with
  | nil => exact absurd hq (by simp only [List.head?_nil, reduceCtorEq, not_false_eq_true])
  | cons x l =>
      simp only [List.head?_cons, Option.some.injEq] at hq
      exact ⟨l, by rw [hq]⟩

/-- The entries read before position `n` that are put in the queue. -/
def queued (trace : Trace) (n : Nat) : List Nat :=
  (List.range n).filter fun p => isTrap (trace.instr p).op = false

theorem queued_succ_trap {n : Nat} (h : isTrap (trace.instr n).op = true) :
    queued trace (n + 1) = queued trace n := by
  simp only [queued, List.range_succ, List.filter_append, List.filter_cons, h, List.filter_nil,
    Bool.true_eq_false, decide_false, Bool.false_eq_true, if_false, List.append_nil]

theorem queued_succ {n : Nat} (h : isTrap (trace.instr n).op = false) :
    queued trace (n + 1) = queued trace n ++ [n] := by
  simp only [queued, List.range_succ, List.filter_append, List.filter_cons, h, List.filter_nil,
    decide_true, if_true]

theorem mem_queued {n p : Nat} :
    p ∈ queued trace n ↔ p < n ∧ isTrap (trace.instr p).op = false := by
  simp only [queued, List.mem_filter, List.mem_range, decide_eq_true_eq]

theorem queued_sorted (trace : Trace) (n : Nat) : (queued trace n).Pairwise (· < ·) :=
  List.Pairwise.filter _ List.pairwise_lt_range

/-- What was dispatched, followed by the queue, is what was fetched. -/
def Fifo (trace : Trace) (s : State) (removed : List Nat) : Prop :=
  ∃ l, QueueRep s l ∧ queued trace s.fetchIndex = removed ++ l

theorem fifo_initial (trace : Trace) : Fifo trace State.initial [] :=
  ⟨[], queueRep_initial, rfl⟩

/-- A stage that leaves the queue and the fetch position alone. -/
theorem Fifo.congr {removed : List Nat} (h : Fifo trace s removed)
    (hq : s'.instrQueue = s.instrQueue) (hn : s'.instrQueueSize = s.instrQueueSize)
    (hf : s'.fetchIndex = s.fetchIndex) : Fifo trace s' removed := by
  rcases h with ⟨l, hrep, heq⟩
  refine ⟨l, ⟨?_, ?_⟩, ?_⟩
  · rw [hn, hrep.size]
  · rw [hq]
    exact hrep.cells
  · rw [hf, heq]

theorem fifo_fetch {removed : List Nat} (heff : FetchEffect trace cc s s')
    (h : Fifo trace s removed) : Fifo trace s' removed := by
  rcases h with ⟨l, hrep, heq⟩
  -- The position moves in both cases, and `queued` skips the traps as the stage does.
  cases heff with
  | idle => exact ⟨l, hrep, heq⟩
  | trap hsize hfetch htrap =>
      refine ⟨l, ⟨hrep.size, hrep.cells⟩, ?_⟩
      simp only [queued_succ_trap htrap, heq]
  | queue hsize hfetch htrap =>
      have happ := hrep.append hsize s.fetchIndex
      refine ⟨l ++ [s.fetchIndex], ⟨happ.size, happ.cells⟩, ?_⟩
      simp only [queued_succ htrap, heq, List.append_assoc]

/-- What a stage removed from the queue: its head, if the queue got shorter. -/
def removedBy (s s' : State) : List Nat :=
  if s'.instrQueueSize < s.instrQueueSize then (s.instrQueue 0).toList else []

/-- Taking the head off a queue. The new state only has to agree with `s` on
    what `shiftQueue` reads. -/
theorem fifo_shift {removed : List Nat} {t : State} {head : Nat} (h : Fifo trace s removed)
    (hq : s.instrQueue 0 = some head) (hcells : t.instrQueue = s.instrQueue)
    (hsize : t.instrQueueSize = s.instrQueueSize) (hf : t.fetchIndex = s.fetchIndex) :
    Fifo trace (shiftQueue t) (removed ++ [head]) := by
  rcases h with ⟨l, hrep, heq⟩
  rcases hrep.eq_cons hq with ⟨l', rfl⟩
  have ht : QueueRep t (head :: l') := ⟨hsize.trans hrep.size, by rw [hcells]; exact hrep.cells⟩
  refine ⟨l', ht.shift, ?_⟩
  rw [show (shiftQueue t).fetchIndex = t.fetchIndex from rfl, hf, heq, List.append_assoc]
  rfl

/-- What `dispatchToIssue` removes, and that it removes it from the head. -/
theorem fifo_dispatch {removed : List Nat} (heff : DispatchEffect trace cc s s')
    (h : Fifo trace s removed) : Fifo trace s' (removed ++ removedBy s s') := by
  have hsame : removedBy s s = [] := by
    rw [removedBy, if_neg (by omega)]
  -- The size drops exactly when the head is taken, which is how a removal is seen.
  have hshift : ∀ t : State, t.instrQueueSize = s.instrQueueSize → ∀ head,
      s.instrQueue 0 = some head → removedBy s (shiftQueue t) = [head] := by
    intro t ht head hq
    rw [removedBy, if_pos (by simp only [shiftQueue, ht]; omega), hq]
    rfl
  cases heff with
  | empty hq => rwa [hsame, List.append_nil]
  | full head hq hfull => rwa [hsame, List.append_nil]
  | enter head t hq ht =>
      rw [hshift _ (by rw [rename_frame, entered_frame ht]) head hq]
      exact fifo_shift h hq (by rw [rename_frame, entered_frame ht])
        (by rw [rename_frame, entered_frame ht]) (by rw [rename_frame, entered_frame ht])
  | evict head hq hint hfp =>
      rw [hshift s rfl head hq]
      exact fifo_shift h hq rfl rfl rfl

/-- The trace positions a run has read, in the order it read them. -/
def fetchedSoFar (trace : Trace) (simInsn : Nat) : Nat → List Nat
  | 0 => []
  | n + 1 =>
    let c := runTomasulo trace simInsn n
    fetchedSoFar trace simInsn n ++
      (if c.state.fetchIndex < (runTomasulo trace simInsn (n + 1)).state.fetchIndex then
        [c.state.fetchIndex] else [])

/-- The instructions a run has removed from the queue with `dispatchToIssue`,
    in the order it removed them. -/
def removedSoFar (trace : Trace) (simInsn : Nat) : Nat → List Nat
  | 0 => []
  | n + 1 =>
    let c := runTomasulo trace simInsn n
    removedSoFar trace simInsn n ++
      (if c.stage = .dispatchToIssue then
        removedBy c.state (runTomasulo trace simInsn (n + 1)).state else [])

/-- The stages other than the two that work on the queue leave it alone. -/
theorem step_queue (trace : Trace) (simInsn : Nat) (c : Config)
    (hf : c.stage ≠ .fetchToDispatch) (hd : c.stage ≠ .dispatchToIssue) :
    (step trace simInsn c).state.instrQueue = c.state.instrQueue ∧
      (step trace simInsn c).state.instrQueueSize = c.state.instrQueueSize ∧
      (step trace simInsn c).state.fetchIndex = c.state.fetchIndex := by
  unfold step
  cases hs : c.stage with
  | cdbToRetire =>
      simp only
      rw [cdbToRetire_frame]
      exact ⟨rfl, rfl, rfl⟩
  | executeToCDB =>
      rcases executeToCDB_effect trace c.cycle c.state with ⟨w, heff⟩
      simp only
      rw [heff.frame]
      exact ⟨rfl, rfl, rfl⟩
  | issueToExecute =>
      simp only
      rw [issueToExecute_frame]
      exact ⟨rfl, rfl, rfl⟩
  | fetchToDispatch => exact absurd hs hf
  | dispatchToIssue => exact absurd hs hd
  | isSimulationDone =>
      simp only [isSimulationDone]
      by_cases hn : c.state.fetchIndex ≥ simInsn
      · simp only [hn, if_true, and_self]
      · simp only [hn, if_false, and_self]
  | returned => exact ⟨rfl, rfl, rfl⟩

/-- Only `fetchToDispatch` moves the fetch position, and by one. -/
theorem step_fetchIndex (trace : Trace) (simInsn : Nat) (c : Config) :
    (step trace simInsn c).state.fetchIndex = c.state.fetchIndex ∨
      (c.stage = .fetchToDispatch ∧
        (step trace simInsn c).state.fetchIndex = c.state.fetchIndex + 1) := by
  by_cases hf : c.stage = .fetchToDispatch
  · have heff := fetchToDispatch_effect trace c.cycle c.state
    rw [show (step trace simInsn c).state = fetchToDispatch trace c.cycle c.state by
      rw [step, hf]]
    -- The stage is forgotten, and its description kept.
    generalize fetchToDispatch trace c.cycle c.state = s' at heff
    cases heff with
    | idle => exact Or.inl rfl
    | trap => exact Or.inr ⟨hf, rfl⟩
    | queue => exact Or.inr ⟨hf, rfl⟩
  · by_cases hd : c.stage = .dispatchToIssue
    · have heff := dispatchToIssue_effect trace c.cycle c.state
      rw [show (step trace simInsn c).state = dispatchToIssue trace c.cycle c.state by
        rw [step, hd]]
      generalize dispatchToIssue trace c.cycle c.state = s' at heff
      cases heff with
      | empty => exact Or.inl rfl
      | full => exact Or.inl rfl
      | enter head t hq ht =>
          left
          rw [shiftQueue_frame, rename_frame, entered_frame ht]
      | evict => exact Or.inl rfl
    · exact Or.inl (step_queue trace simInsn c hf hd).2.2

/-- The positions read are those below the fetch position, in order. -/
theorem fetchedSoFar_eq (trace : Trace) (simInsn n : Nat) :
    fetchedSoFar trace simInsn n
      = List.range (runTomasulo trace simInsn n).state.fetchIndex := by
  -- Each step appends the position it moves past, so the list is a range.
  induction n with
  | zero => rfl
  | succ n ih =>
      simp only [fetchedSoFar, ih]
      rw [runTomasulo_succ]
      rcases step_fetchIndex trace simInsn (runTomasulo trace simInsn n) with h | ⟨-, h⟩
      · rw [h, if_neg (by omega), List.append_nil]
      · rw [h, if_pos (by omega), List.range_succ]

/-- The invariant along a run, with what the run itself has dispatched. -/
theorem fifo_runTomasulo (trace : Trace) (simInsn n : Nat) :
    Fifo trace (runTomasulo trace simInsn n).state (removedSoFar trace simInsn n) := by
  induction n with
  | zero => exact fifo_initial trace
  | succ n ih =>
      rw [runTomasulo_succ, removedSoFar, runTomasulo_succ]
      generalize runTomasulo trace simInsn n = c at ih
      -- Two stages work on the queue, the others leave it alone.
      by_cases hf : c.stage = .fetchToDispatch
      · rw [if_neg (by rw [hf]; simp only [reduceCtorEq, not_false_eq_true]), List.append_nil,
          show (step trace simInsn c).state = fetchToDispatch trace c.cycle c.state by
            rw [step, hf]]
        exact fifo_fetch (fetchToDispatch_effect trace c.cycle c.state) ih
      · by_cases hd : c.stage = .dispatchToIssue
        · rw [if_pos hd, show (step trace simInsn c).state
            = dispatchToIssue trace c.cycle c.state by rw [step, hd]]
          exact fifo_dispatch (dispatchToIssue_effect trace c.cycle c.state) ih
        · rw [if_neg hd, List.append_nil]
          rcases step_queue trace simInsn c hf hd with ⟨hq, hn, hfi⟩
          exact ih.congr hq hn hfi

/-- The fetch queue is a lossless first-in first-out queue in every
    configuration of a run: its size is in range, the cells below it are
    occupied and the others are not, and the instructions fetched so far that
    are not traps are those dispatched so far followed by the contents. With
    no station free for its head, it does not move. -/
theorem fetchQueue_lossless_fifo (trace : Trace) (simInsn n : Nat) :
    let s := (runTomasulo trace simInsn n).state
    (0 ≤ s.instrQueueSize ∧ s.instrQueueSize ≤ INSTR_QUEUE_SIZE) ∧
    (∀ j, (j.val : Int) < s.instrQueueSize → s.instrQueue j ≠ none) ∧
    (∀ j, s.instrQueueSize ≤ (j.val : Int) → s.instrQueue j = none) ∧
    (fetchedSoFar trace simInsn n).filter (fun p => isTrap (trace.instr p).op = false)
      = removedSoFar trace simInsn n ++ Slots.contents s.instrQueue ∧
    ∀ cycle head, s.instrQueue 0 = some head → StationsFull trace head s →
      dispatchToIssue trace cycle s = s := by
  intro s
  rcases fifo_runTomasulo trace simInsn n with ⟨l, hrep, heq⟩
  have hsize : s.instrQueueSize = l.length := hrep.size
  have hbound := hrep.cells.bound
  refine ⟨⟨?_, ?_⟩, fun j hj => ?_, fun j hj => ?_, ?_, fun cycle head hq hfull => ?_⟩
  · omega
  · rw [hsize]
    exact_mod_cast hbound
  · rw [hrep.cells.cells j, List.getElem?_eq_getElem (by omega)]
    simp only [ne_eq, reduceCtorEq, not_false_eq_true]
  · rw [hrep.cells.cells j, List.getElem?_eq_none_iff.mpr (by omega)]
  -- The list of the representation is the contents of the array.
  · rw [fetchedSoFar_eq, hrep.cells.contents_eq, ← heq]
    rfl
  · exact dispatchToIssue_full hq hfull

/-! ### The dispatch front -/

/-- The position up to which instructions have been dispatched. -/
def State.front (s : State) : Nat := (s.instrQueue 0).getD s.fetchIndex

/-- The queue is a queue, whatever it has held before. -/
def QueueInv (trace : Trace) (s : State) : Prop := ∃ removed, Fifo trace s removed

/-- Of the instructions that are queued at all, those before the front are
    the ones already dispatched. -/
theorem mem_removed_iff {removed : List Nat} (h : Fifo trace s removed) {p : Nat}
    (hp : isTrap (trace.instr p).op = false) : p ∈ removed ↔ p < s.front := by
  rcases h with ⟨l, hrep, heq⟩
  unfold State.front
  rw [hrep.head]
  -- With an empty queue the front is the fetch position, otherwise the head.
  cases l with
  | nil =>
      rw [List.append_nil] at heq
      rw [← heq, mem_queued]
      simp only [List.head?_nil, Option.getD_none, hp, and_true]
  | cons head l =>
      simp only [List.head?_cons, Option.getD_some]
      -- The queue is in program order, so the head separates the two parts.
      have hsorted := queued_sorted trace s.fetchIndex
      rw [heq, List.pairwise_append] at hsorted
      have hhead : head < s.fetchIndex := by
        have hmem : head ∈ queued trace s.fetchIndex := by
          rw [heq]
          exact List.mem_append_right _ List.mem_cons_self
        exact (mem_queued.mp hmem).1
      constructor
      · intro hmem
        exact hsorted.2.2 p hmem head List.mem_cons_self
      · intro hlt
        -- a queued instruction before the head is not in the rest of the queue
        have hmem : p ∈ queued trace s.fetchIndex := mem_queued.mpr ⟨by omega, hp⟩
        rw [heq, List.mem_append] at hmem
        rcases hmem with hmem | hmem
        · exact hmem
        · rcases List.mem_cons.mp hmem with rfl | hmem
          · omega
          · have hgt := (List.pairwise_cons.mp hsorted.2.1).1 p hmem
            omega

/-- The head of the queue was fetched, is not a trap, and is the front. -/
theorem head_facts {head : Nat} (h : QueueInv trace s) (hq : s.instrQueue 0 = some head) :
    s.front = head ∧ head < s.fetchIndex ∧ isTrap (trace.instr head).op = false := by
  rcases h with ⟨removed, l, hrep, heq⟩
  rcases hrep.eq_cons hq with ⟨l', rfl⟩
  have hmem : head ∈ queued trace s.fetchIndex := by
    rw [heq]
    exact List.mem_append_right _ List.mem_cons_self
  refine ⟨?_, mem_queued.mp hmem⟩
  rw [State.front, hq, Option.getD_some]

theorem front_le_fetchIndex (h : QueueInv trace s) : s.front ≤ s.fetchIndex := by
  rcases hq : s.instrQueue 0 with _ | head
  · rw [State.front, hq, Option.getD_none]
  · rcases head_facts h hq with ⟨hfront, hlt, -⟩
    omega

theorem fetch_front (h : QueueInv trace s) (heff : FetchEffect trace cc s s') {p : Nat}
    (hp : isTrap (trace.instr p).op = false) : p < s'.front ↔ p < s.front := by
  rcases h with ⟨removed, hfifo⟩
  rw [← mem_removed_iff hfifo hp, ← mem_removed_iff (fifo_fetch heff hfifo) hp]

/-- Taking the head out of the queue moves the front past it. -/
theorem dispatch_front {t : State} {head : Nat} (h : QueueInv trace s)
    (hq : s.instrQueue 0 = some head) (hcells : t.instrQueue = s.instrQueue)
    (hsize : t.instrQueueSize = s.instrQueueSize) (hf : t.fetchIndex = s.fetchIndex) {p : Nat}
    (hp : isTrap (trace.instr p).op = false) :
    p < (shiftQueue t).front ↔ p < s.front ∨ p = head := by
  rcases h with ⟨removed, hfifo⟩
  -- The front is read off the removed instructions, before and after.
  rw [← mem_removed_iff hfifo hp,
    ← mem_removed_iff (fifo_shift hfifo hq hcells hsize hf) hp, List.mem_append,
    List.mem_singleton]

end Tomasulo

end MicroArch
