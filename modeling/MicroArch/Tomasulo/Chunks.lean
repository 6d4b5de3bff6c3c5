import MicroArch.Library.CArray
import MicroArch.Tomasulo.Instr

/-!
# The Chunked Trace

The linked chunks that `instr.c` stores the trace in, and the three walks
over them: `put_instr` appends, `get_instr` skips whole chunks until the
index falls into one, and `print_all_instr` goes through the entries one by
one with an index of its own.

Everywhere else a trace is a table. Here is why: `Represents` ties the chunks
to the list of their entries, each walk is described by that list, and the
trace that `sim_main` builds holds the table of `simMain`.

A pointer to a chunk is the chunk itself or null, so a chunk owns the rest of
the list. Reading through null has no result, which is also what becomes of a
failed assertion. The chunk size is a parameter, `INSTR_TRACE_SIZE` in the
source. The entries are of any type, since none of the walks looks at them.

## Main definitions

* `Chunks`: A pointer to the first chunk.
* `putInstr`, `getInstr`, `printAllInstr`: The three walks.
* `instructionTrace`: The trace before the first instruction.
* `Represents`: The chunks hold a list of entries.

## Theorems

* `Represents.putInstr`: Appending appends to the list.
* `Represents.getInstr`: Random access is indexing of the list.
* `Represents.printFrom`: Printing goes through the list in order.
* `trace_is_sequence`: What was appended is what is found and printed.
* `simMain_chunks`: The chunks of `sim_main` hold the table of `simMain`.
-/

namespace MicroArch

namespace Tomasulo

universe u

variable {n : Nat} {α : Type u}

/-- The number of entries of a chunk. -/
def INSTR_TRACE_SIZE : Nat := 16384

/-- A pointer to a chunk of `n` entries, with the number of entries written
    so far and the pointer to the next chunk. -/
inductive Chunks (n : Nat) (α : Type u) where
  | null
  | chunk (table : CArray n α) (size : Nat) (next : Chunks n α)

namespace Chunks

def isNull : Chunks n α → Bool
  | null => true
  | chunk _ _ _ => false

/-- Appends an entry. `zero` is an entry of a zeroed chunk. -/
def putInstr (zero instr : α) : Chunks n α → Option (Chunks n α)
  | null => none
  | chunk table size next =>
    if size = n ∧ next.isNull = false then do
      let next ← next.putInstr zero instr
      return chunk table size next
    else if size = n then do
      -- The last chunk is full, so a new one is linked to it.
      let fresh ← (CArray.replicate n zero).set (0 : Nat) instr
      return chunk table size (chunk fresh 1 null)
    else do
      let table ← table.set size instr
      return chunk table (size + 1) next

/-- The entry at an index. -/
def getInstr : Chunks n α → Int → Option α
  | null, _ => none
  | chunk table _ next, index =>
    if index ≥ n then next.getInstr (index - n) else table.get index

/-- The number of chunks, by which the walk of `printFrom` ends. -/
def length : Chunks n α → Nat
  | null => 0
  | chunk _ _ next => next.length + 1

/-- The entries printed from an index on, when `count` have been printed. -/
def printFrom (numInsn : Int) : Chunks n α → Nat → Int → Option (List α)
  | null, _, _ => none
  | chunk table size next, index, count =>
    if h : index < n then
      let instr := table.cell ⟨index, h⟩
      if count + 1 = numInsn then some [instr]
      else if index + 1 = n then
        if next.isNull then some [instr]
        else (next.printFrom numInsn 0 (count + 1)).map (instr :: ·)
      else ((chunk table size next).printFrom numInsn (index + 1) (count + 1)).map (instr :: ·)
    else none
termination_by trace index => (trace.length, n - index)
decreasing_by
  · exact Prod.Lex.left _ _ (Nat.lt_succ_self _)
  · exact Prod.Lex.right _ (by omega)

/-- The entries printed. The first entry of the trace is skipped. -/
def printAllInstr (trace : Chunks n α) (numInsn : Int) : Option (List α) :=
  trace.printFrom numInsn 1 0

/-- The trace before the first instruction: a zeroed chunk whose first entry
    is skipped. -/
def instructionTrace (n : Nat) (zero : α) : Chunks n α := chunk (CArray.replicate n zero) 1 null

/-! ### The entries as a list -/

/-- The chunks hold the list: every chunk but the last is full, and no chunk
    is empty behind a full one. -/
def Represents : Chunks n α → List α → Prop
  | null, _ => False
  | chunk table size next, l =>
    (∀ (i : Fin n) (x : α), l[i.val]? = some x → table.cell i = x) ∧ size = min n l.length ∧
      if l.length ≤ n then next = null else next.Represents (l.drop n)

theorem isNull_of_represents {t : Chunks n α} {l : List α} (h : t.Represents l) :
    t.isNull = false := by
  cases t with
  | null => exact absurd h (by simp only [Represents, not_false_eq_true])
  | chunk => rfl

/-- Every cell of a fresh chunk but the first is behind the end of its list. -/
theorem represents_fresh (hn : 0 < n) {instr : α} {table : CArray n α}
    (h : table.cell ⟨0, hn⟩ = instr) : (chunk table 1 null).Represents [instr] := by
  refine ⟨fun i x hx => ?_, ?_, ?_⟩
  · rcases List.getElem?_eq_some_iff.mp hx with ⟨hi, hx⟩
    have hi : i = ⟨0, hn⟩ := Fin.ext (Nat.lt_one_iff.mp hi)
    subst hi
    exact h.trans hx
  · exact (Nat.min_eq_right hn).symm
  · rw [if_pos (show [instr].length ≤ n from hn)]

/-- Writing the cell behind the last entry of a table appends. -/
theorem update_cells {table : CArray n α} {l : List α} (hlt : l.length < n) (instr : α)
    (h : ∀ (i : Fin n) (x : α), l[i.val]? = some x → table.cell i = x) (i : Fin n) (x : α)
    (hx : (l ++ [instr])[i.val]? = some x) :
    (table.update ⟨l.length, hlt⟩ instr).cell i = x := by
  rw [CArray.update_cell]
  by_cases hi : i = ⟨l.length, hlt⟩
  · rw [if_pos hi]
    rw [hi, List.getElem?_concat_length] at hx
    exact Option.some.inj hx
  · rw [if_neg hi]
    refine h i x ?_
    have hne : i.val ≠ l.length := fun heq => hi (Fin.ext heq)
    rw [List.getElem?_append] at hx
    by_cases hlen : i.val < l.length
    · rwa [if_pos hlen] at hx
    · rw [if_neg hlen, List.getElem?_eq_none (by simp only [List.length_singleton]; omega)] at hx
      exact absurd hx (by simp only [reduceCtorEq, not_false_eq_true])

/-- Appending appends to the list. -/
theorem Represents.putInstr (hn : 0 < n) (zero instr : α) {t : Chunks n α} {l : List α}
    (h : t.Represents l) :
    Yields (t.putInstr zero instr) fun t' => t'.Represents (l ++ [instr]) := by
  induction t generalizing l with
  | null => exact absurd h (by simp only [Represents, not_false_eq_true])
  | chunk table size next ih =>
      rcases h with ⟨htable, hsize, hnext⟩
      have hlen : (l ++ [instr]).length = l.length + 1 := List.length_append
      -- A chunk that is full keeps its cells.
      have hfull : n ≤ l.length → ∀ (i : Fin n) (x : α), (l ++ [instr])[i.val]? = some x →
          table.cell i = x := by
        intro hle i x hx
        rw [List.getElem?_append_left (i.isLt.trans_le hle)] at hx
        exact htable i x hx
      rw [Chunks.putInstr]
      rcases Nat.lt_trichotomy l.length n with hlt | heq | hgt
      · -- There is room in this chunk.
        rw [if_neg (by omega), if_neg (by omega), hsize, Nat.min_eq_right hlt.le]
        refine (table.yields_set l.length instr hlt).bind fun table' htable' => .ret ?_
        subst htable'
        rw [if_pos hlt.le] at hnext
        refine ⟨update_cells hlt instr htable, ?_, ?_⟩
        · rw [hlen, Nat.min_eq_right hlt]
        · rw [hlen, if_pos (Nat.succ_le_of_lt hlt)]
          exact hnext
      · -- It has just become full, and the entry opens the next one.
        rw [if_pos heq.le] at hnext
        subst hnext
        rw [if_neg (fun hnull => Bool.noConfusion hnull.2), if_pos (by omega)]
        refine ((CArray.replicate n zero).yields_set 0 instr hn).bind fun fresh hfresh => .ret ?_
        refine ⟨hfull heq.ge, ?_, ?_⟩
        · rw [hlen, hsize]
          omega
        · rw [hlen, if_neg (by omega), List.drop_left' heq]
          refine represents_fresh hn ?_
          rw [hfresh, CArray.update_self]
      · -- The end is further on.
        rw [if_neg (by omega)] at hnext
        rw [if_pos ⟨by omega, isNull_of_represents hnext⟩]
        refine (ih hnext).bind fun next' hnext' => .ret ?_
        refine ⟨hfull hgt.le, ?_, ?_⟩
        · rw [hlen, hsize]
          omega
        · rw [hlen, if_neg (by omega), List.drop_append_of_le_length hgt.le]
          exact hnext'

/-- Random access is indexing of the list. -/
theorem Represents.getInstr {t : Chunks n α} {l : List α} (h : t.Represents l) (k : Nat)
    (hk : k < l.length) : t.getInstr k = some l[k] := by
  induction t generalizing l k with
  | null => exact absurd h (by simp only [Represents, not_false_eq_true])
  | chunk table size next ih =>
      rcases h with ⟨htable, -, hnext⟩
      rw [Chunks.getInstr]
      by_cases hkn : k < n
      · rw [if_neg (by omega), table.get_natCast k hkn]
        exact congrArg some (htable ⟨k, hkn⟩ _ (List.getElem?_eq_getElem hk))
      · rw [if_neg (by omega)] at hnext
        rw [if_pos (by omega), ← Int.ofNat_sub (Nat.le_of_not_lt hkn)]
        have hk' : k - n < (l.drop n).length := by
          rw [List.length_drop]
          omega
        rw [ih hnext (k - n) hk', List.getElem_drop]
        simp only [Nat.add_sub_cancel' (Nat.le_of_not_lt hkn)]

/-- Printing goes through the list in order, from the index on, until the
    given number of entries has been printed. -/
theorem Represents.printFrom {t : Chunks n α} {l : List α} (h : t.Represents l) {index m : Nat}
    {count : Int} (hindex : index < n) (hm : index + m < l.length) :
    t.printFrom (count + (m + 1 : Nat)) index count = some ((l.drop index).take (m + 1)) := by
  induction m generalizing t l index count with
  | zero =>
      cases t with
      | null => exact absurd h (by simp only [Represents, not_false_eq_true])
      | chunk table size next =>
          have hlt : index < l.length := hm
          have hcell := h.1 ⟨index, hindex⟩ _ (List.getElem?_eq_getElem hlt)
          rw [Chunks.printFrom, dif_pos hindex, hcell, if_pos (by omega),
            List.drop_eq_getElem_cons hlt, List.take_succ_cons, List.take_zero]
  | succ m ih =>
      cases t with
      | null => exact absurd h (by simp only [Represents, not_false_eq_true])
      | chunk table size next =>
          have hlt : index < l.length := by omega
          have hcell := h.1 ⟨index, hindex⟩ _ (List.getElem?_eq_getElem hlt)
          have hcount : count + (m + 1 + 1 : Nat) = count + 1 + (m + 1 : Nat) := by omega
          rw [Chunks.printFrom, dif_pos hindex, hcell, if_neg (by omega),
            List.drop_eq_getElem_cons hlt, List.take_succ_cons, hcount]
          -- The walk goes on in the next chunk, or at the next index of this one.
          by_cases hend : index + 1 = n
          · have hnext := h.2.2
            rw [if_neg (by omega)] at hnext
            have hm' : 0 + m < (l.drop n).length := by
              rw [List.length_drop]
              omega
            rw [if_pos hend, if_neg (by rw [isNull_of_represents hnext]; exact Bool.false_ne_true),
              ih hnext (by omega) hm', List.drop_zero, hend]
            rfl
          · rw [if_neg hend, ih h (by omega) (by omega)]
            rfl

/-! ### The trace of a run -/

/-- What has been appended to the trace one by one. -/
theorem Represents.append (hn : 0 < n) (zero : α) {t : Chunks n α} {l : List α}
    (h : t.Represents l) (insns : List α) :
    Yields (insns.foldlM (fun t instr => t.putInstr zero instr) t) fun t' =>
      t'.Represents (l ++ insns) := by
  refine Yields.foldlM (fun pre (t' : Chunks n α) => t'.Represents (l ++ pre)) insns ?_
    fun pre instr t' ht' => ?_
  · rw [List.append_nil]
    exact h
  · rw [← List.append_assoc]
    exact ht'.putInstr hn zero instr

/-- The trace after a list of instructions. -/
def recorded (n : Nat) (zero : α) (insns : List α) : Option (Chunks n α) :=
  insns.foldlM (fun t instr => t.putInstr zero instr) (instructionTrace n zero)

theorem yields_recorded (hn : 0 < n) (zero : α) (insns : List α) :
    Yields (recorded n zero insns) fun t => t.Represents (zero :: insns) :=
  (represents_fresh hn rfl).append hn zero insns

/-- Whatever is appended to the zeroed trace is found at its position, counted
    from one, stays there when more is appended, and is printed in order. -/
theorem trace_is_sequence (zero : α) (insns : List α) :
    ∃ t, recorded INSTR_TRACE_SIZE zero insns = some t ∧
      (∀ (k : Nat) (hk : k < insns.length), t.getInstr (k + 1 : Nat) = some insns[k]) ∧
      (∀ more : List α, ∃ t', more.foldlM (fun t instr => t.putInstr zero instr) t = some t' ∧
        ∀ k : Nat, k ≤ insns.length → t'.getInstr k = t.getInstr k) ∧
      (insns ≠ [] → ∃ visited, t.printAllInstr insns.length = some visited ∧
        visited.length = insns.length ∧
        ∀ k : Nat, k < insns.length → visited[k]? = t.getInstr (k + 1 : Nat)) := by
  have hn : 1 < INSTR_TRACE_SIZE := by decide
  have hpos : 0 < INSTR_TRACE_SIZE := Nat.lt_of_succ_lt hn
  rcases yields_recorded hpos zero insns with ⟨t, ht, hrep⟩
  have hget : ∀ (k : Nat) (hk : k < insns.length), t.getInstr (k + 1 : Nat) = some insns[k] :=
    fun k hk => hrep.getInstr (k + 1) (Nat.succ_lt_succ hk)
  refine ⟨t, ht, hget, fun more => ?_, fun hne => ?_⟩
  · rcases hrep.append hpos zero more with ⟨t', ht', hrep'⟩
    refine ⟨t', ht', fun k hk => ?_⟩
    have hk : k < (zero :: insns).length := Nat.lt_succ_of_le hk
    have hk' : k < ((zero :: insns) ++ more).length := by
      rw [List.length_append]
      omega
    rw [hrep.getInstr k hk, hrep'.getInstr k hk', List.getElem_append_left hk]
  · have hlen := List.length_pos_iff.mpr hne
    have hm : 1 + (insns.length - 1) < (zero :: insns).length := by
      rw [List.length_cons]
      omega
    have hprint : t.printFrom (0 + (insns.length - 1 + 1 : Nat)) 1 0 = _ := hrep.printFrom hn hm
    rw [Nat.sub_add_cancel hlen, Int.zero_add, List.drop_one, List.tail_cons,
      List.take_length] at hprint
    refine ⟨insns, hprint, rfl, fun k hk => ?_⟩
    rw [hget k hk, List.getElem?_eq_getElem hk]

/-- The chunks that the functional simulator fills hold the table that the
    pipeline model reads. -/
theorem simMain_chunks (insns : List Executed) :
    Yields (recorded INSTR_TRACE_SIZE Instruction.zeroed
      (insns.mapIdx fun k e => e.entry (k + 1))) fun t =>
      ∀ k, k ≤ insns.length → t.getInstr k = some ((simMain insns).instr k) := by
  refine (yields_recorded (by decide) _ _).mono fun t ht k hk => ?_
  have hlen : k < (simMain insns).table.length := by
    simp only [simMain, List.length_cons, List.length_mapIdx]
    omega
  rw [Trace.instr, List.getD_eq_getElem _ _ hlen]
  exact Represents.getInstr ht k hlen

end Chunks

end Tomasulo

end MicroArch
