import MicroArch.Pisa.Arithmetic
import MicroArch.Pisa.Declared

/-!
# The Functional Simulator

The loop of `sim_main` (`sim-safe.c`) up to the pipeline.

A turn clears register zero, fetches two words at the program counter, decodes
them, executes the instruction and adds an entry to the trace. A fault ends the
simulation before the pipeline is run, and so does a number that is no opcode.
The loop ends after a maximal number of instructions, and only then is the
trace handed to the pipeline. A program that exits by itself leaves through
`SYSCALL` and is never timed.

An entry has room for register numbers below `MD_TOTAL_REGS`. The pipeline
indexes its tables with them, so an instruction that declares a larger one has
no result here.

## Main definitions

* `Step`: What a turn found when it executed its instruction.
* `simStep`, `simRun`: A turn, and a number of turns.
* `Step.executed`: The entry of the trace.
* `simMain`: The trace that `runTomasulo` receives.

## Theorems

* `simStep_turned`: What a turn does.
* `simRun_probed`: A run does not depend on what was found out about shifts.
-/

namespace MicroArch

namespace Pisa

open Tomasulo (Executed Reg MD_TOTAL_REGS)

variable {ω : Type}

/-- What a turn found when it executed its instruction. -/
structure Step (ω : Type) where
  inst : Inst
  op : Op
  /-- The machine, with register zero cleared and the instruction fetched. -/
  before : State ω

/-- The room for a register number in an entry. -/
def reg : Option Nat → Option Reg
  | none => some none
  | some n => if h : n < MD_TOTAL_REGS then some (some ⟨n, h⟩) else none

/-- Whether an entry has room for what an instruction declares. -/
def Definst.Recorded (d : Definst ω) : Prop :=
  (∀ j, (reg (d.outs j)).isSome) ∧ ∀ j, (reg (d.ins j)).isSome

instance (d : Definst ω) : Decidable d.Recorded := inferInstanceAs (Decidable (_ ∧ _))

/-- `MD_FETCH_INST`. -/
def MD_FETCH_INST : Exec ω Inst := do
  let a ← READ_WORD (← CPC)
  let b ← READ_WORD ((← CPC) + 4)
  return ⟨a, b⟩

/-- `MD_SET_OPCODE`, with the panic of the simulator. -/
def MD_SET_OPCODE (i : Inst) : Exec ω Op :=
  -- The number comes from the loaded program, so the table may not have it.
  match decode i with
  | some op => pure op
  | none => fun _ => .error .panic

/-- What must hold for the simulator to have a result. -/
def require (c : Prop) [Decidable c] : Exec ω Unit := if c then pure () else undefined

/-- The next instruction becomes the current one. -/
def advance : Exec ω Unit := fun s =>
  .ok ((), s.setRegs { s.regs with PC := s.regs.NPC, NPC := s.regs.NPC + 8 })

section Loop

variable (host : Host ω)

/-- A turn of the loop. -/
def simStep : Exec ω (Step ω) := do
  SET_GPR 0 0
  let i ← MD_FETCH_INST
  let op ← MD_SET_OPCODE i
  let s ← get
  (definst host i op).impl
  -- The entry of the trace is filled in after the instruction was executed.
  require (definst host i op).Recorded
  advance
  return ⟨i, op, s⟩

/-- A number of turns. -/
def simRun : Nat → Exec ω (List (Step ω))
  | 0 => pure []
  | n + 1 => do
      let steps ← simRun n
      return steps ++ [← simStep host]

/-- The entry that a turn adds to the trace. -/
def Step.executed (e : Step ω) : Executed :=
  let d := definst host e.inst e.op
  { op := d.flags, rOut := fun j => (reg (d.outs j)).getD none,
    rIn := fun j => (reg (d.ins j)).getD none }

/-- The trace that the pipeline receives after `maxInsts` instructions. -/
def simMain (maxInsts : Nat) (s : State ω) : Except Stop Tomasulo.Trace := do
  let start := s.setRegs { s.regs with NPC := s.regs.PC + 8 }
  let (steps, _) ← simRun host maxInsts start
  return Tomasulo.simMain (steps.map (Step.executed host))

end Loop

/-! ### Runs -/

theorem bind_eq_ok {α β : Type} {x : Exec ω α} {f : α → Exec ω β} {s s' : State ω} {b : β} :
    (x >>= f) s = .ok (b, s') ↔ ∃ a s₁, x s = .ok (a, s₁) ∧ f a s₁ = .ok (b, s') := by
  simp only [bind, StateT.bind, Except.bind]
  cases x s with
  | error e => simp
  | ok r =>
      rcases r with ⟨a, s₁⟩
      simp

theorem bind_of_ok {α β : Type} {x : Exec ω α} {f : α → Exec ω β} {s s₁ : State ω} {a : α}
    (h : x s = .ok (a, s₁)) : (x >>= f) s = f a s₁ := by
  simp only [bind, StateT.bind, Except.bind, h]

theorem readMem_eq_ok {n : Nat} {a : Word} {s s' : State ω} {bytes : List Memory.Byte}
    (h : readMem n a s = .ok (bytes, s')) : s'.regs = s.regs ∧ s'.world = s.world := by
  simp only [readMem] at h
  split at h
  · cases h
  · cases h
    exact ⟨rfl, rfl⟩

theorem READ_WORD_eq_ok {a w : Word} {s s' : State ω} (h : READ_WORD a s = .ok (w, s')) :
    s'.regs = s.regs ∧ s'.world = s.world := by
  rcases bind_eq_ok.mp h with ⟨bytes, s₁, hread, hret⟩
  cases hret
  exact readMem_eq_ok hread

/-- A fetch leaves the registers alone. -/
theorem MD_FETCH_INST_eq_ok {i : Inst} {s s' : State ω} (h : MD_FETCH_INST s = .ok (i, s')) :
    s'.regs = s.regs ∧ s'.world = s.world := by
  rcases bind_eq_ok.mp h with ⟨pc, s₁, hpc, h₁⟩
  rcases bind_eq_ok.mp h₁ with ⟨a, s₂, ha, h₂⟩
  rcases bind_eq_ok.mp h₂ with ⟨pc', s₃, hpc', h₃⟩
  rcases bind_eq_ok.mp h₃ with ⟨b, s₄, hb, hret⟩
  cases hpc
  cases hpc'
  cases hret
  have hfirst := READ_WORD_eq_ok ha
  have hsecond := READ_WORD_eq_ok hb
  exact ⟨hsecond.1.trans hfirst.1, hsecond.2.trans hfirst.2⟩

theorem MD_SET_OPCODE_eq_ok {i : Inst} {op : Op} {s s' : State ω}
    (h : MD_SET_OPCODE i s = .ok (op, s')) : decode i = some op ∧ s' = s := by
  rw [MD_SET_OPCODE] at h
  cases hd : decode i with
  | none =>
      rw [hd] at h
      cases h
  | some op' =>
      rw [hd] at h
      cases h
      exact ⟨rfl, rfl⟩

theorem require_eq_ok {c : Prop} [Decidable c] {u : Unit} {s s' : State ω}
    (h : require c s = .ok (u, s')) : c ∧ s' = s := by
  by_cases hc : c
  · rw [require, if_pos hc] at h
    cases h
    exact ⟨hc, rfl⟩
  · rw [require, if_neg hc] at h
    cases h

section Turns

variable {host : Host ω}

/-- What a turn does: the instruction is executed with register zero cleared,
    and what it leaves in the registers is what the next turn finds. -/
structure Turned (host : Host ω) (s : State ω) (e : Step ω) (s' : State ω) : Prop where
  before : e.before.regs = s.regs.setR 0 0
  recorded : (definst host e.inst e.op).Recorded
  after : ∃ s₁, (definst host e.inst e.op).impl e.before = .ok ((), s₁) ∧
    s'.regs.get = s₁.regs.get

theorem simStep_turned {s s' : State ω} {e : Step ω} (h : simStep host s = .ok (e, s')) :
    Turned host s e s' := by
  rcases bind_eq_ok.mp h with ⟨_, s₁, hzero, h₁⟩
  rcases bind_eq_ok.mp h₁ with ⟨i, s₂, hfetch, h₂⟩
  rcases bind_eq_ok.mp h₂ with ⟨op, s₃, hop, h₃⟩
  rcases bind_eq_ok.mp h₃ with ⟨b, s₄, hget, h₄⟩
  rcases bind_eq_ok.mp h₄ with ⟨_, s₅, himpl, h₅⟩
  rcases bind_eq_ok.mp h₅ with ⟨_, s₆, hrec, h₆⟩
  rcases bind_eq_ok.mp h₆ with ⟨_, s₇, hadv, hret⟩
  -- Only the fetch, the decoding and the instruction say anything; the rest is computed.
  cases hzero
  cases hget
  cases hadv
  cases hret
  rcases MD_SET_OPCODE_eq_ok hop with ⟨-, rfl⟩
  rcases require_eq_ok hrec with ⟨hrecorded, rfl⟩
  refine ⟨?_, hrecorded, _, himpl, ?_⟩
  · rw [(MD_FETCH_INST_eq_ok hfetch).1]
    rfl
  · funext l
    cases l <;> rfl

/-- A turn does not depend on what was found out about shifts, if it shifts by
    less than the bits of a word. -/
theorem simStep_probed {s s' : State ω} {e : Step ω} (h : simStep host s = .ok (e, s'))
    (hshift : e.op = .SRL ∨ e.op = .SRA → e.inst.SHAMT < 32) (srl sra : Bool) :
    simStep (host.probed srl sra) s = .ok (e, s') := by
  rcases bind_eq_ok.mp h with ⟨_, s₁, hzero, h₁⟩
  rcases bind_eq_ok.mp h₁ with ⟨i, s₂, hfetch, h₂⟩
  rcases bind_eq_ok.mp h₂ with ⟨op, s₃, hop, h₃⟩
  rcases bind_eq_ok.mp h₃ with ⟨b, s₄, hget, h₄⟩
  rcases bind_eq_ok.mp h₄ with ⟨_, s₅, himpl, h₅⟩
  rcases bind_eq_ok.mp h₅ with ⟨_, s₆, hrec, h₆⟩
  rcases bind_eq_ok.mp h₆ with ⟨_, s₇, hadv, hret⟩
  cases hret
  -- The turn goes the same way, and its instruction is the same on both hosts.
  have hsame := definst_probed host srl sra i op hshift
  refine (bind_of_ok hzero).trans ((bind_of_ok hfetch).trans ((bind_of_ok hop).trans ?_))
  refine (bind_of_ok hget).trans ?_
  rw [hsame]
  exact (bind_of_ok himpl).trans ((bind_of_ok hrec).trans ((bind_of_ok hadv).trans rfl))

/-- A run is a turn after a run. -/
theorem simRun_succ {n : Nat} {s s' : State ω} {steps : List (Step ω)}
    (h : simRun host (n + 1) s = .ok (steps, s')) :
    ∃ pre e s₁, simRun host n s = .ok (pre, s₁) ∧ simStep host s₁ = .ok (e, s') ∧
      steps = pre ++ [e] := by
  rcases bind_eq_ok.mp h with ⟨pre, s₁, hpre, h⟩
  rcases bind_eq_ok.mp h with ⟨e, s₂, he, h⟩
  cases h
  exact ⟨pre, e, s₁, hpre, he, rfl⟩

/-- A run does not depend on what was found out about the shifts of the host
    when the simulator was built. -/
theorem simRun_probed (srl sra : Bool) (n : Nat) : ∀ {s s' : State ω} {steps : List (Step ω)},
    simRun host n s = .ok (steps, s') →
    (∀ e ∈ steps, e.op = .SRL ∨ e.op = .SRA → e.inst.SHAMT < 32) →
    simRun (host.probed srl sra) n s = .ok (steps, s') := by
  induction n with
  | zero =>
      intro s s' steps h _
      exact h
  | succ n ih =>
      intro s s' steps h hshift
      rcases simRun_succ h with ⟨pre, e, s₁, hpre, he, rfl⟩
      have hrun := ih hpre fun e he => hshift e (List.mem_append_left _ he)
      have hstep := simStep_probed he (hshift e (by simp)) srl sra
      exact (bind_of_ok hrun).trans ((bind_of_ok hstep).trans rfl)

/-- A program at address zero. -/
def programOf (words : List Word) : State Unit :=
  { blank () with
    mem := (Memory.memWrite Memory.memCreate 0
      (words.flatMap fun w => leBytes 4 w.toNat)).getD Memory.memCreate }

/-- The shift of a negative number. -/
def negativeShift : State Unit :=
  programOf [BitVec.ofNat 32 Op.LUI.number, 0x00028000, BitVec.ofNat 32 Op.SRA.number, 0x00020301]

theorem simRun_probed_negativeShift :
    ∃ steps s', simRun (bareHost.probed false false) 2 negativeShift = .ok (steps, s') ∧
      s'.regs.R 3 = 0xc0000000 := by
  -- The trace and the register are computed; the machine itself is not compared.
  have hrun : (simRun bareHost 2 negativeShift).map (fun r => (r.1.map Step.inst, r.2.regs.R 3))
      = .ok ([⟨BitVec.ofNat 32 Op.LUI.number, 0x00028000⟩,
          ⟨BitVec.ofNat 32 Op.SRA.number, 0x00020301⟩], 0xc0000000) := by
    decide +kernel
  cases h : simRun bareHost 2 negativeShift with
  | error e =>
      rw [h] at hrun
      cases hrun
  | ok r =>
      rw [h] at hrun
      simp only [Except.map, Except.ok.injEq, Prod.mk.injEq] at hrun
      refine ⟨r.1, r.2, simRun_probed false false 2 h fun e he hop => ?_, hrun.2⟩
      have hmem : e.inst ∈ r.1.map Step.inst := List.mem_map_of_mem he
      rw [hrun.1] at hmem
      rcases List.mem_cons.mp hmem with hi | hi
      · rw [hi]
        decide
      · rw [List.mem_singleton.mp hi]
        decide

theorem length_simRun (n : Nat) : ∀ {s s' : State ω} {steps : List (Step ω)},
    simRun host n s = .ok (steps, s') → steps.length = n := by
  induction n with
  | zero =>
      intro s s' steps h
      cases h
      rfl
  | succ n ih =>
      intro s s' steps h
      rcases simRun_succ h with ⟨pre, e, s₁, hpre, -, rfl⟩
      rw [List.length_append, ih hpre, List.length_singleton]

end Turns

end Pisa

end MicroArch
