import Mathlib.Tactic.FinCases
import MicroArch.Pisa.Simulator
import MicroArch.Tomasulo.Values

/-!
# Replay

The pipeline executes what the functional simulator has executed.

The two halves of the simulator share nothing but the trace, whose entries
have register numbers and no values. Here the values come back: an instruction
means what its definition in the table computes, from the operands its station
has received, with the memory and the program counter of the turn that
recorded it. All other registers are taken to be zero.

If a program uses no opcode that hides a dependence, nothing is missing. The
register file is then what the functional simulator had in its registers
before the last instruction, which the pipeline never fetches. Register zero
is the exception: the simulator clears it, and the pipeline does not know it.

The jumps that link are hidden as well. They go through no station, so the
value they write never reaches the register file.

## Main definitions

* `held`: What a register number stands for.
* `received`: The registers that an instruction sees in its station.
* `meaning`: What the instructions of a run compute.
* `plain`: The opcodes that hide nothing.

## Theorems

* `simMain_writersBroadcast`: Every recorded trace lets the pipeline finish.
* `impl_received`: An instruction does not miss what it has not received.
* `regs_turns`: Execution in order of the trace is functional execution.
* `pipeline_computes`: So is execution by the pipeline.
* `simMain_returns`: The pipeline finishes on the trace of every program.
-/

namespace MicroArch

namespace Pisa

open Tomasulo (Executed MD_TOTAL_REGS Meaning Returned runValues writesCDB isTrap usesIntFU
  usesFPFU Trace)

variable {ω : Type}

/-- What a register number stands for. -/
def held (r : Regs) (n : Fin MD_TOTAL_REGS) : Loc → Word :=
  fun l => if l.number = n then r.get l else 0

/-- The registers that an instruction sees in its station. -/
def received (ins : Fin 3 → Option Nat) (ops : Fin 3 → Option (Loc → Word)) (l : Loc) : Word :=
  if l.number = 0 then 0
  else (((List.finRange 3).find? fun j => ins j == some l.number).bind
    fun j => (ops j).map fun v => v l).getD 0

/-- Registers with other words. -/
def Regs.plant (r : Regs) (g : Loc → Word) : Regs :=
  { r with
    R := fun n => g (.gpr n), F := fun n => g (.fpr n), hi := g .hi, lo := g .lo, fcc := g .fcc }

@[simp] theorem Regs.get_plant (r : Regs) (g : Loc → Word) : (r.plant g).get = g := by
  funext l
  cases l <;> rfl

section Meanings

variable (host : Host ω)

/-- What an instruction computes from what it has received. -/
def Step.compute (e : Step ω) (ops : Fin 3 → Option (Loc → Word)) :
    Fin MD_TOTAL_REGS → Loc → Word :=
  let d := definst host e.inst e.op
  match d.impl (e.before.setRegs (e.before.regs.plant (received d.ins ops))) with
  | .error _ => fun _ _ => 0
  | .ok (_, s) => held s.regs

/-- What the instructions of a run compute. Entry zero of a trace is none. -/
def meaning (steps : List (Step ω)) : Meaning (Loc → Word)
  | 0, _ => fun _ _ => 0
  | p + 1, ops => (steps[p]?.map fun e => e.compute host ops).getD fun _ _ => 0

end Meanings

/-- The opcodes that hide no dependence from the pipeline. -/
def plain (op : Op) : Bool := !leaky op && op != .SYSCALL && op != .JAL && op != .JALR

/-! ### The table -/

/-- Whether an opcode declares an output. -/
def declares (op : Op) (j : Fin 2) : Bool := ((definst bareHost ⟨0, 0⟩ op).outs j).isSome

theorem isSome_outs (host : Host ω) (i : Inst) (op : Op) (j : Fin 2) :
    ((definst host i op).outs j).isSome = declares op j := by
  cases op <;> fin_cases j <;> rfl

/-- An instruction that goes through a station and declares an output writes
    the bus. -/
theorem writesCDB_of_declares {op : Op} {j : Fin 2} (hj : declares op j = true)
    (hs : usesIntFU (MD_OP_FLAGS op) = true ∨ usesFPFU (MD_OP_FLAGS op) = true) :
    writesCDB (MD_OP_FLAGS op) = true := by
  have htable : ∀ op ∈ opcodes, ∀ j, declares op j = true →
      usesIntFU (MD_OP_FLAGS op) = true ∨ usesFPFU (MD_OP_FLAGS op) = true →
      writesCDB (MD_OP_FLAGS op) = true := by decide +kernel
  exact htable op (mem_opcodes op) j hj hs

/-- An output of a plain instruction is written through a station. -/
theorem station_of_plain {op : Op} (hp : plain op = true) {j : Fin 2}
    (hj : declares op j = true) :
    isTrap (MD_OP_FLAGS op) = false ∧
      (usesIntFU (MD_OP_FLAGS op) = true ∨ usesFPFU (MD_OP_FLAGS op) = true) := by
  have htable : ∀ op ∈ opcodes, plain op = true → ∀ j, declares op j = true →
      isTrap (MD_OP_FLAGS op) = false ∧
        (usesIntFU (MD_OP_FLAGS op) = true ∨ usesFPFU (MD_OP_FLAGS op) = true) := by
    decide +kernel
  exact htable op (mem_opcodes op) hp j hj

/-! ### One instruction -/

section Instructions

variable {host : Host ω} {steps : List (Step ω)}

theorem instr_recorded {k : Nat} (hk : k < steps.length) :
    (Tomasulo.simMain (steps.map (Step.executed host))).instr (k + 1)
      = ((steps[k].executed host).entry (k + 1)) := by
  rw [Tomasulo.simMain_instr _ k (by rwa [List.length_map]), List.getElem_map]

theorem instr_zero : (Tomasulo.simMain (steps.map (Step.executed host))).instr 0 = .zeroed := rfl

theorem declares_of_rOut {i : Inst} {op : Op} {j : Fin 2} {r : Fin MD_TOTAL_REGS}
    (h : (reg ((definst host i op).outs j)).getD none = some r) : declares op j = true := by
  rw [← isSome_outs host i]
  cases ho : (definst host i op).outs j with
  | none => exact absurd h (by simp [ho, reg])
  | some n => rfl

/-- The trace of the functional simulator keeps the rule of its table: what
    writes a register from a station writes the bus. -/
theorem simMain_writersBroadcast (steps : List (Step ω)) :
    (Tomasulo.simMain (steps.map (Step.executed host))).WritersBroadcast := by
  intro p hs hw
  -- An instruction in a station has an opcode, so it is a recorded entry and not the zeroed
  -- one at the start.
  have hlt := Tomasulo.lt_length_of_op _ p (Tomasulo.op_ne_zero_of_inStation hs)
  rcases hs with ⟨-, hs⟩
  rcases hw with ⟨r, j, hj⟩
  cases p with
  | zero => exact absurd (instr_zero.symm ▸ hs) (by decide)
  | succ k =>
      have hk : k < steps.length := by simpa [Tomasulo.simMain] using hlt
      rw [instr_recorded hk] at hs hj ⊢
      simp only [Step.executed, Executed.entry, flags_definst] at hs hj ⊢
      exact writesCDB_of_declares (declares_of_rOut hj) hs

/-- A word that an instruction declares is there in its station. -/
theorem received_eq {ins : Fin 3 → Option Nat} {ops : Fin 3 → Option (Loc → Word)} {r : Regs}
    (hzero : r.R 0 = 0)
    (hops : ∀ j n, ins j = some n → n ≠ 0 → ∃ v, ops j = some v ∧ ∀ l, l.number = n → v l = r.get l)
    {l : Loc} (hl : l ∈ inputs ins) : received ins ops l = r.get l := by
  rw [received]
  by_cases h0 : l.number = 0
  · -- Register zero is read as zero, whether or not a station holds it.
    obtain rfl : l = .gpr 0 := (l.number_lt_iff 0 (by decide)).mp h0
    exact hzero.symm
  · have hne : l ≠ .gpr 0 := fun heq => h0 (by rw [heq]; rfl)
    rcases hl.resolve_left hne with ⟨j, hj⟩
    rw [if_neg h0]
    -- Some input declares the location. The first one that does is as good as any other, since
    -- all of them hold the same register.
    cases hfind : (List.finRange 3).find? fun j => ins j == some l.number with
    | none => exact absurd hj (by simpa using List.find?_eq_none.mp hfind j (by simp))
    | some k =>
        have hk : ins k = some l.number := by simpa using List.find?_some hfind
        rcases hops k _ hk h0 with ⟨v, hv, hget⟩
        rw [Option.bind_some, hv, Option.map_some, Option.getD_some, hget l rfl]

/-- An instruction of a sound entry does not miss what it has not received. -/
theorem impl_received {d : Definst ω} (hd : d.Sound) {t s : State ω} (hzero : t.regs.R 0 = 0)
    (hrun : d.impl t = .ok ((), s)) {ops : Fin 3 → Option (Loc → Word)}
    (hops : ∀ j n, d.ins j = some n → n ≠ 0 →
      ∃ v, ops j = some v ∧ ∀ l, l.number = n → v l = t.regs.get l) :
    ∃ s', d.impl (t.setRegs (t.regs.plant (received d.ins ops))) = .ok ((), s') ∧
      ∀ l ∈ outputs d.outs, s'.regs.get l = s.regs.get l := by
  have hagree : Agree view (inputs d.ins) t
      (t.setRegs (t.regs.plant (received d.ins ops))) := by
    refine ⟨rfl, fun l hl => ?_⟩
    change t.regs.get l = (t.regs.plant _).get l
    rw [Regs.get_plant, received_eq hzero hops hl]
  have halike := hd.related _ _ hagree
  -- Being sound, the definition cannot tell the received registers from all of them.
  rw [hrun] at halike
  cases hrun' : d.impl (t.setRegs (t.regs.plant (received d.ins ops))) with
  | error e =>
      rw [hrun'] at halike
      exact halike.elim
  | ok q =>
      rw [hrun'] at halike
      exact ⟨q.2, rfl, fun l hl => (halike.2.get l hl).symm⟩

end Instructions

/-! ### Runs -/

section Runs

variable {host : Host ω} {steps : List (Step ω)}

/-- The trace of a run. -/
abbrev traceOf (host : Host ω) (steps : List (Step ω)) : Trace :=
  Tomasulo.simMain (steps.map (Step.executed host))

/-- A run passes through the states of its shorter runs. -/
theorem simRun_take {n k : Nat} (hk : k ≤ n) : ∀ {s s' : State ω} {steps : List (Step ω)},
    simRun host n s = .ok (steps, s') → ∃ s₁, simRun host k s = .ok (steps.take k, s₁) := by
  induction n with
  | zero =>
      intro s s' steps h
      -- A shorter run is one of the turns before the last.
      obtain rfl : k = 0 := by omega
      cases h
      exact ⟨s, rfl⟩
  | succ n ih =>
      intro s s' steps h
      by_cases hlast : k = n + 1
      · subst hlast
        exact ⟨s', by rw [List.take_of_length_le (length_simRun _ h).le, h]⟩
      · rcases simRun_succ h with ⟨pre, e, s₁, hpre, -, rfl⟩
        rcases ih (by omega) hpre with ⟨s₂, hs₂⟩
        refine ⟨s₂, ?_⟩
        rw [hs₂, List.take_append_of_le_length]
        rw [length_simRun n hpre]
        omega

theorem reg_eq_some_iff {o : Option Nat} {r : Fin MD_TOTAL_REGS} :
    (reg o).getD none = some r ↔ o = some r.val := by
  cases o with
  | none => simp [reg]
  | some n =>
      by_cases hn : n < MD_TOTAL_REGS
      · simp [reg, hn, Fin.ext_iff]
      · have hr := r.isLt
        simp only [reg, hn, dif_neg, not_false_eq_true, Option.getD_none, reduceCtorEq,
          Option.some.injEq, false_iff]
        -- A number past the last register is recorded as none, as no register of a trace has it.
        omega

/-- The entries of a trace that write a register are those that declare it. -/
theorem stationWriter_iff {k : Nat} (hk : k < steps.length) (hp : plain steps[k].op = true)
    (r : Fin MD_TOTAL_REGS) :
    (traceOf host steps).StationWriter r (k + 1) ↔
      ∃ j, (definst host steps[k].inst steps[k].op).outs j = some r.val := by
  have hinstr : (traceOf host steps).instr (k + 1) = (steps[k].executed host).entry (k + 1) :=
    instr_recorded hk
  simp only [Trace.StationWriter, Trace.InStation, Trace.Writes, hinstr, Executed.entry,
    Step.executed, flags_definst, reg_eq_some_iff]
  -- Going through a station is no condition: whatever a plain opcode declares, it does there.
  refine ⟨And.right, fun h => ⟨?_, h⟩⟩
  rcases h with ⟨j, hj⟩
  exact station_of_plain hp (by rw [← isSome_outs host steps[k].inst, hj]; rfl)

theorem get_setR_zero {r : Regs} {l : Loc} (hl : l.number ≠ 0) :
    (r.setR 0 0).get l = r.get l := by
  cases l with
  | gpr n =>
      have hn : n ≠ 0 := fun h => hl (by rw [h]; rfl)
      simp [Regs.get, Regs.setR, hn]
  | _ => rfl

section Induction

variable {s s₁ s₂ : State ω} {k : Nat}

/-- What a station receives for an entry, if the registers are right so far. -/
theorem operands_turned (hk : k < steps.length) (ht : Turned host s₁ steps[k] s₂)
    (ih : ∀ r : Fin MD_TOTAL_REGS, r.val ≠ 0 →
      ((traceOf host steps).code (meaning host steps)).regs (held s.regs) (k + 1) r
        = held s₁.regs r) {j : Fin 3} {n : Nat}
    (hj : (definst host steps[k].inst steps[k].op).ins j = some n) (hn : n ≠ 0) :
    ∃ v, ((traceOf host steps).code (meaning host steps)).operands (held s.regs) (k + 1) j = some v
      ∧ ∀ l, l.number = n → v l = steps[k].before.regs.get l := by
  have hinstr : (traceOf host steps).instr (k + 1) = (steps[k].executed host).entry (k + 1) :=
    instr_recorded hk
  have hlt : n < MD_TOTAL_REGS := by
    have hroom := ht.recorded.2 j
    rw [hj] at hroom
    by_contra hge
    simp [reg, hge] at hroom
  have hreads : ((traceOf host steps).code (meaning host steps)).reads (k + 1) j
      = some ⟨n, hlt⟩ := by
    change ((traceOf host steps).instr (k + 1)).rIn j = _
    rw [hinstr]
    exact reg_eq_some_iff.mpr hj
  refine ⟨held s₁.regs ⟨n, hlt⟩, ?_, fun l hl => ?_⟩
  · rw [InOrder.Code.operands, hreads, Option.map_some, ih _ hn]
  · -- Only register zero changed between the state before the entry and the one it saw.
    rw [held, if_pos hl, ht.before, get_setR_zero (hl ▸ hn)]

/-- One entry: what is declared has the computed value, and the rest keeps
    what it had. -/
theorem regs_turned (hk : k < steps.length) (hp : plain steps[k].op = true)
    (ht : Turned host s₁ steps[k] s₂)
    (ih : ∀ r : Fin MD_TOTAL_REGS, r.val ≠ 0 →
      ((traceOf host steps).code (meaning host steps)).regs (held s.regs) (k + 1) r
        = held s₁.regs r) (r : Fin MD_TOTAL_REGS) (hr : r.val ≠ 0) :
    ((traceOf host steps).code (meaning host steps)).regs (held s.regs) (k + 2) r
      = held s₂.regs r := by
  rcases ht.after with ⟨s₃, himpl, hget⟩
  have hsound : (definst host steps[k].inst steps[k].op).Sound := by
    simp only [plain, Bool.and_eq_true, Bool.not_eq_true', bne_iff_ne] at hp
    exact sound_of_not_leaky host _ hp.1.1.1 hp.1.1.2
  have hzero : steps[k].before.regs.R 0 = 0 := by rw [ht.before]; rfl
  rw [InOrder.Code.regs_succ]
  -- Either the entry declares the register, and then its station computed the value, or the
  -- value is the one before it, which the frame of a sound definition keeps.
  by_cases hw : (traceOf host steps).StationWriter r (k + 1)
  · rw [if_pos (show ((traceOf host steps).code (meaning host steps)).writes r (k + 1) from hw)]
    rcases (stationWriter_iff hk hp r).mp hw with ⟨j, hj⟩
    rcases impl_received hsound hzero himpl
      (fun j n hj hn => operands_turned hk ht ih hj hn) with ⟨s₄, hrun, hout⟩
    have hvalue : ((traceOf host steps).code (meaning host steps)).value (held s.regs) (k + 1) r
        = held s₄.regs r := by
      change meaning host steps (k + 1) _ r = _
      rw [meaning, List.getElem?_eq_getElem hk, Option.map_some, Option.getD_some, Step.compute,
        hrun]
    rw [hvalue]
    funext l
    simp only [held, hget]
    split
    · next hl => exact hout l ⟨j, by rw [hj, hl]⟩
    · rfl
  · rw [if_neg (show ¬((traceOf host steps).code (meaning host steps)).writes r (k + 1) from hw),
      ih r hr]
    have hno := mt (stationWriter_iff hk hp r).mpr hw
    funext l
    simp only [held, hget]
    split
    · next hl =>
        have hframe := hsound.frame _ _ _ himpl l fun hmem => hno (hl ▸ hmem)
        change s₃.regs.get l = steps[k].before.regs.get l at hframe
        rw [hframe, ht.before, get_setR_zero (hl ▸ hr)]
    · rfl

end Induction

/-- After as many entries as turns, a register number stands for what the
    functional simulator has in its registers. -/
theorem regs_turns {n : Nat} {s s' : State ω} (hrun : simRun host n s = .ok (steps, s'))
    (hplain : ∀ e ∈ steps, plain e.op = true) (k : Nat) (hk : k ≤ n) :
    ∀ s₁, simRun host k s = .ok (steps.take k, s₁) → ∀ r : Fin MD_TOTAL_REGS, r.val ≠ 0 →
      ((traceOf host steps).code (meaning host steps)).regs (held s.regs) (k + 1) r
        = held s₁.regs r := by
  have hlen := length_simRun n hrun
  -- By induction on the turns. The trace has one entry more, the zeroed one, which writes
  -- nothing.
  induction k with
  | zero =>
      intro s₁ hs₁ r hr
      cases hs₁
      have hno : ¬((traceOf host steps).code (meaning host steps)).writes r 0 :=
        fun hw => Tomasulo.op_ne_zero_of_inStation hw.1 rfl
      rw [InOrder.Code.regs_succ, if_neg hno]
      rfl
  | succ k ih =>
      intro s₂ hs₂ r hr
      have hlt : k < steps.length := by omega
      rcases simRun_succ hs₂ with ⟨pre, e, s₁, hpre, he, heq⟩
      rw [List.take_succ_eq_append_getElem hlt] at heq
      -- The run splits before its last turn, whose entry is the next of the trace.
      rcases List.append_inj' heq rfl with ⟨rfl, hlast⟩
      obtain rfl : steps[k] = e := by simpa using hlast
      exact regs_turned hlt (hplain _ (List.getElem_mem hlt)) (simStep_turned he)
        (ih (by omega) s₁ hpre) r hr

/-- When the pipeline has executed the trace of a program, its register file
    is what the functional simulator had before the last instruction. -/
theorem pipeline_computes {n : Nat} {s s' : State ω}
    (hrun : simRun host (n + 1) s = .ok (steps, s'))
    (hplain : ∀ e ∈ steps, plain e.op = true) :
    ∃ k s₁, simRun host n s = .ok (steps.take n, s₁) ∧
      Returned (traceOf host steps) (n + 1) k ∧
      ∀ r : Fin MD_TOTAL_REGS, r.val ≠ 0 →
        (runValues (traceOf host steps) (n + 1) (meaning host steps) (held s.regs) k).regFile r
          = held s₁.regs r := by
  rcases simRun_take (Nat.le_succ n) hrun with ⟨s₁, hs₁⟩
  have hwb : (traceOf host steps).WritersBroadcast := simMain_writersBroadcast steps
  rcases Tomasulo.terminates _ (n + 1) (Tomasulo.noLostWriter_of_writersBroadcast _ _ hwb)
    with ⟨k, hret⟩
  refine ⟨k, s₁, hs₁, hret, fun r hr => ?_⟩
  -- The pipeline leaves out the last instruction, so the registers are those of `n` turns.
  rw [Tomasulo.regFile_returned _ _ _ _ hwb hret, Nat.max_eq_left (by omega)]
  exact regs_turns hrun hplain n (Nat.le_succ n) s₁ hs₁ r hr

/-- Three additions, each of the results of those before it. -/
def additions : State Unit :=
  programOf [BitVec.ofNat 32 Op.ADDIU.number, 0x00020005, BitVec.ofNat 32 Op.ADDU.number,
    0x02020300, BitVec.ofNat 32 Op.ADDU.number, 0x03020400]

theorem simRun_additions :
    (simRun bareHost 3 additions).map (fun r => (r.1.map Step.op, r.2.regs.R 4))
      = .ok ([.ADDIU, .ADDU, .ADDU], 15) := by
  decide +kernel

/-- The pipeline executes the first two, and the second waits for the first. -/
theorem pipeline_computes_additions :
    ∃ steps k s₁, simRun bareHost 2 additions = .ok (steps.take 2, s₁) ∧
      Returned (traceOf bareHost steps) 3 k ∧
      ∀ r : Fin MD_TOTAL_REGS, r.val ≠ 0 →
        (runValues (traceOf bareHost steps) 3 (meaning bareHost steps)
          (held additions.regs) k).regFile r = held s₁.regs r := by
  have hops := simRun_additions
  cases hrun : simRun bareHost 3 additions with
  | error e =>
      rw [hrun] at hops
      cases hops
  | ok r =>
      rw [hrun] at hops
      simp only [Except.map, Except.ok.injEq, Prod.mk.injEq] at hops
      refine ⟨r.1, pipeline_computes hrun fun e he => ?_⟩
      have hmem : e.op ∈ [Op.ADDIU, Op.ADDU, Op.ADDU] := hops.1 ▸ List.mem_map_of_mem he
      have hop : e.op = .ADDIU ∨ e.op = .ADDU := by simpa using hmem
      rcases hop with hop | hop <;>
        · rw [hop]
          rfl

/-- The pipeline finishes on the trace of every program, whatever its
    opcodes. -/
theorem simMain_returns {maxInsts : Nat} {s : State ω} {trace : Trace}
    (h : simMain host maxInsts s = .ok trace) : ∃ k, Returned trace maxInsts k := by
  simp only [simMain, bind, Except.bind] at h
  split at h
  · cases h
  · next r hr =>
      cases h
      exact Tomasulo.terminates _ _
        (Tomasulo.noLostWriter_of_writersBroadcast _ _ (simMain_writersBroadcast r.1))

theorem simMain_returns_additions :
    ∃ trace k, simMain bareHost 2 additions = .ok trace ∧ Returned trace 2 k := by
  have hlen : (simMain bareHost 2 additions).map (fun trace => trace.table.length) = .ok 3 := by
    decide +kernel
  cases hmain : simMain bareHost 2 additions with
  | error e =>
      rw [hmain] at hlen
      cases hlen
  | ok trace =>
      rcases simMain_returns hmain with ⟨k, hk⟩
      exact ⟨trace, k, rfl, hk⟩

end Runs

end Pisa

end MicroArch
