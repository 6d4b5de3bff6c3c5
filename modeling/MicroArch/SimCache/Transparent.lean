import MicroArch.SimCache.Machine

/-!
# Caches Do Not Change What Is Computed

The simulation with caches against the one without.

An instruction that accesses memory through the caches does to the machine what
it does without them. Its references are of a shape that its opcode has, so
they can be counted from the instructions that were executed.

The references of a whole run are those of the functional simulator. Whatever
caches there are, a run with caches is that run, and beside it a run of the
caches on these references.

The proof does not compare two runs step by step. The simulator with caches is
one program for all watchers (`Library.Watched`), and the caches are one of
them. So it is enough to follow the text of each instruction once, and what a
particular watcher makes of the references can be looked at afterwards.

## Main definitions

* `Shape`: What a reference is, but for the addresses of data.
* `shapes`, `stepShapes`: What an opcode and a turn refer to.
* `references`: The references of a run.

## Theorems

* `impl_follows`: The instructions.
* `simStep_follows`, `simRun_follows`: The loop.
* `simMain_transparent`: A run with caches.
-/

namespace MicroArch

namespace SimCache

open Cache (Cmd Fault Geometry Hierarchy SysOp Task World sysRun sysStep created)
open Pisa (Exec Host Inst MD_FETCH_INST_eq_ok MD_SET_OPCODE_eq_ok Op Step Stop Word definst)

variable {ω α β : Type}

/-- What a reference is, but for the addresses of data. -/
inductive Shape where
  | fetch (PC : Word)
  | data (cmd : Cmd) (nbytes : BitVec 32)
  | syscall (as : List Access)
  deriving DecidableEq

def Ref.shape : Ref → Shape
  | .fetch PC => .fetch PC
  | .data _ a => .data a.cmd a.nbytes
  | .syscall _ as => .syscall as

/-- The accesses of an instruction, but for their addresses. -/
def shapes : Op → List (Cmd × BitVec 32)
  | .LB | .LBU | .LB_RR | .LBU_RR => [(.Read, 1)]
  | .LH | .LHU | .LH_RR | .LHU_RR => [(.Read, 2)]
  | .LW | .L_S | .LW_RR | .L_S_RR | .LW_RR_R2 | .L_S_RR_R2 | .LWL | .LWR => [(.Read, 4)]
  | .DLW | .L_D | .DLW_RR | .L_D_RR => [(.Read, 4), (.Read, 4)]
  | .SB | .SB_RR => [(.Write, 1)]
  | .SH | .SH_RR => [(.Write, 2)]
  | .SW | .S_S | .SW_RR | .S_S_RR | .SW_RR_R2 | .S_S_RR_R2 => [(.Write, 4)]
  | .DSW | .DSZ | .S_D | .DSW_RR | .DSZ_RR | .S_D_RR => [(.Write, 4), (.Write, 4)]
  | .SWL | .SWR => [(.Read, 4), (.Write, 4)]
  | _ => []

/-- What an instruction refers to. -/
def opShapes (sys : SysAccesses ω) (i : Inst) (op : Op) (s : Pisa.State ω) : List Shape :=
  if op = .SYSCALL then [.syscall (sys i s)] else (shapes op).map fun a => .data a.1 a.2

/-- The references of a turn. -/
def stepShapes (sys : SysAccesses ω) (e : Step ω) : List Shape :=
  .fetch e.before.regs.PC :: opShapes sys e.inst e.op e.before

/-! ### Instructions -/

/-- The references are of these shapes. -/
def Shaped (p : List Shape) (l : List Ref) : Prop := l.map Ref.shape = p

/-- A part of an instruction follows a part of one without caches. -/
abbrev Part (s : Pisa.State ω) (x : Watched (Pisa.State ω) Stop Ref α) (y : Exec ω α)
    (p : List Shape) : Prop :=
  Follows s x y fun _ l => Shaped p l

namespace Part

variable {s : Pisa.State ω} {x : Watched (Pisa.State ω) Stop Ref α} {y : Exec ω α}
  {p q : List Shape}

theorem exec (y : Exec ω α) (s : Pisa.State ω) :
    Part s (fun _ _ _ => SimCache.exec y) y [] := by
  refine (Follows.lift y s).mono fun a l hl => ?_
  subst hl
  rfl

theorem bind {f : α → Watched (Pisa.State ω) Stop Ref β} {g : α → Exec ω β}
    (hx : Part s x y p) (hf : ∀ a s', Part s' (f a) (g a) q) :
    Part s (fun φ τ see => x φ τ see >>= fun a => f a φ τ see) (y >>= g) (p ++ q) := by
  refine Follows.bind hx (fun a s' _ => hf a s') ?_
  intro a b l₁ l₂ h₁ h₂
  rw [Shaped, List.map_append, h₁, h₂]

/-- A reference is shown before the memory is accessed. -/
theorem shown {r : Pisa.State ω → Ref} {k : Shape} (hr : ∀ s, (r s).shape = k) (y : Exec ω α)
    (s : Pisa.State ω) :
    Part s (fun _ _ see => Watched.tell r see >>= fun _ => SimCache.exec y) y [k] := by
  refine Follows.tell_bind r (exec y s) fun _ l hl => ?_
  rw [Shaped, List.map_cons, hr, hl]

end Part

section Families

theorem READ_BYTE_follows (a : Word) (s : Pisa.State ω) :
    Part s (fun _ _ see => READ_BYTE see a) (Pisa.READ_BYTE a) [.data .Read 1] :=
  Part.shown (fun _ => rfl) _ s

theorem READ_HALF_follows (a : Word) (s : Pisa.State ω) :
    Part s (fun _ _ see => READ_HALF see a) (Pisa.READ_HALF a) [.data .Read 2] :=
  Part.shown (fun _ => rfl) _ s

theorem READ_WORD_follows (a : Word) (s : Pisa.State ω) :
    Part s (fun _ _ see => READ_WORD see a) (Pisa.READ_WORD a) [.data .Read 4] :=
  Part.shown (fun _ => rfl) _ s

theorem WRITE_BYTE_follows (v : Memory.Byte) (a : Word) (s : Pisa.State ω) :
    Part s (fun _ _ see => WRITE_BYTE see v a) (Pisa.WRITE_BYTE v a) [.data .Write 1] :=
  Part.shown (fun _ => rfl) _ s

theorem WRITE_HALF_follows (v : BitVec 16) (a : Word) (s : Pisa.State ω) :
    Part s (fun _ _ see => WRITE_HALF see v a) (Pisa.WRITE_HALF v a) [.data .Write 2] :=
  Part.shown (fun _ => rfl) _ s

theorem WRITE_WORD_follows (v a : Word) (s : Pisa.State ω) :
    Part s (fun _ _ see => WRITE_WORD see v a) (Pisa.WRITE_WORD v a) [.data .Write 4] :=
  Part.shown (fun _ => rfl) _ s

theorem load_follows {read : ∀ φ τ, Watcher Ref φ τ → Word → Sim ω φ τ Word}
    {read' : Word → Exec ω Word} {p : List Shape}
    (hread : ∀ a s, Part s (fun φ τ see => read φ τ see a) (read' a) p) (addr : Exec ω Word)
    (set : Word → Exec ω Unit) (s : Pisa.State ω) :
    Part s (fun φ τ see => load (read φ τ see) addr set) (Pisa.load read' addr set) p := by
  have hp : p = [] ++ (p ++ []) := by rw [List.append_nil, List.nil_append]
  rw [hp]
  -- The address and the register that is loaded refer to nothing.
  refine (Part.exec addr s).bind fun a s₁ => ?_
  refine (hread a s₁).bind fun v s₂ => ?_
  exact Part.exec (set v) s₂

theorem load2_follows (addr : Exec ω Word) (set : Nat → Word → Exec ω Unit) (n : Nat)
    (s : Pisa.State ω) :
    Part s (fun _ _ see => load2 see addr set n) (Pisa.load2 addr set n)
      [.data .Read 4, .data .Read 4] := by
  refine (Part.exec _ s).bind fun _ s₁ => ?_
  refine (Part.exec addr s₁).bind fun a s₂ => ?_
  refine (READ_WORD_follows a s₂).bind fun hi s₃ => ?_
  -- The address is computed again for the second word.
  refine (Part.exec addr s₃).bind fun a' s₄ => ?_
  refine (READ_WORD_follows (a' + 4) s₄).bind fun lo s₅ => ?_
  refine (Part.exec (set n hi) s₅).bind fun _ s₆ => ?_
  exact Part.exec (set (n + 1) lo) s₆

theorem store_follows {write : ∀ φ τ, Watcher Ref φ τ → Word → Word → Sim ω φ τ Unit}
    {write' : Word → Word → Exec ω Unit} {p : List Shape}
    (hwrite : ∀ v a s, Part s (fun φ τ see => write φ τ see v a) (write' v a) p)
    (src addr : Exec ω Word) (s : Pisa.State ω) :
    Part s (fun φ τ see => store (write φ τ see) src addr) (Pisa.store write' src addr) p := by
  refine (Part.exec src s).bind fun v s₁ => ?_
  refine (Part.exec addr s₁).bind fun a s₂ => ?_
  exact hwrite v a s₂

theorem store2_follows (addr hi lo : Exec ω Word) (s : Pisa.State ω) :
    Part s (fun _ _ see => store2 see addr hi lo) (Pisa.store2 addr hi lo)
      [.data .Write 4, .data .Write 4] := by
  refine (store_follows WRITE_WORD_follows hi addr s).bind fun _ s₁ => ?_
  exact store_follows WRITE_WORD_follows lo _ s₁

theorem storePair_follows (addr : Exec ω Word) (get : Nat → Exec ω Word) (n : Nat)
    (s : Pisa.State ω) :
    Part s (fun _ _ see => storePair see addr get n) (Pisa.storePair addr get n)
      [.data .Write 4, .data .Write 4] := by
  refine (Part.exec _ s).bind fun _ s₁ => ?_
  exact store2_follows addr _ _ s₁

theorem readSByte_follows (a : Word) (s : Pisa.State ω) :
    Part s (fun _ _ see => readSByte see a) (Pisa.readSByte a) [.data .Read 1] := by
  refine (READ_BYTE_follows a s).bind fun b s₁ => ?_
  exact Part.exec (pure _) s₁

theorem readByte_follows (a : Word) (s : Pisa.State ω) :
    Part s (fun _ _ see => readByte see a) (Pisa.readByte a) [.data .Read 1] := by
  refine (READ_BYTE_follows a s).bind fun b s₁ => ?_
  exact Part.exec (pure _) s₁

theorem readSHalf_follows (a : Word) (s : Pisa.State ω) :
    Part s (fun _ _ see => readSHalf see a) (Pisa.readSHalf a) [.data .Read 2] := by
  refine (READ_HALF_follows a s).bind fun h s₁ => ?_
  exact Part.exec (pure _) s₁

theorem readHalf_follows (a : Word) (s : Pisa.State ω) :
    Part s (fun _ _ see => readHalf see a) (Pisa.readHalf a) [.data .Read 2] := by
  refine (READ_HALF_follows a s).bind fun h s₁ => ?_
  exact Part.exec (pure _) s₁

end Families

/-- A load of a part of a word. -/
theorem loadPart_follows {base : Word → Word} {merge : Word → Word → Word → Word} (i : Inst)
    (s : Pisa.State ω) :
    Part s (fun _ _ see => do
        let a ← exec (Pisa.disp i)
        let temp ← READ_WORD see (base a)
        exec (Pisa.SET_GPR i.RT (merge a (← exec (Pisa.GPR i.RT)) temp)))
      (do
        let a ← Pisa.disp i
        let temp ← Pisa.READ_WORD (base a)
        Pisa.SET_GPR i.RT (merge a (← Pisa.GPR i.RT) temp))
      [.data .Read 4] := by
  refine (Part.exec _ s).bind fun a s₁ => ?_
  refine (READ_WORD_follows _ s₁).bind fun temp s₂ => ?_
  refine (Part.exec _ s₂).bind fun x s₃ => ?_
  exact Part.exec _ s₃

/-- A store of a part of a word, which reads the word first. -/
theorem storePart_follows {base : Word → Word} {merge : Word → Word → Word → Word} (i : Inst)
    (s : Pisa.State ω) :
    Part s (fun _ _ see => do
        let a ← exec (Pisa.disp i)
        let temp ← READ_WORD see (base a)
        WRITE_WORD see (merge a (← exec (Pisa.GPR i.RT)) temp) (base a))
      (do
        let a ← Pisa.disp i
        let temp ← Pisa.READ_WORD (base a)
        Pisa.WRITE_WORD (merge a (← Pisa.GPR i.RT) temp) (base a))
      [.data .Read 4, .data .Write 4] := by
  refine (Part.exec _ s).bind fun a s₁ => ?_
  refine (READ_WORD_follows _ s₁).bind fun temp s₂ => ?_
  refine (Part.exec _ s₂).bind fun x s₃ => ?_
  exact WRITE_WORD_follows _ _ s₃

/-- An instruction does what it does without caches. -/
theorem impl_follows (host : Host ω) (sys : SysAccesses ω) (i : Inst) (op : Op)
    (s : Pisa.State ω) :
    Part s (fun _ _ see => impl see host sys i op) (definst host i op).impl
      (opShapes sys i op s) := by
  cases op with
  | LB | LB_RR => exact load_follows readSByte_follows _ _ s
  | LBU | LBU_RR => exact load_follows readByte_follows _ _ s
  | LH | LH_RR => exact load_follows readSHalf_follows _ _ s
  | LHU | LHU_RR => exact load_follows readHalf_follows _ _ s
  | LW | L_S | LW_RR | L_S_RR | LW_RR_R2 | L_S_RR_R2 =>
      exact load_follows READ_WORD_follows _ _ s
  | DLW | L_D | DLW_RR | L_D_RR => exact load2_follows _ _ _ s
  | LWL | LWR => exact loadPart_follows i s
  | SB | SB_RR => exact store_follows (fun v a s => WRITE_BYTE_follows _ a s) _ _ s
  | SH | SH_RR => exact store_follows (fun v a s => WRITE_HALF_follows _ a s) _ _ s
  | SW | S_S | SW_RR | S_S_RR | SW_RR_R2 | S_S_RR_R2 =>
      exact store_follows WRITE_WORD_follows _ _ s
  | DSW | S_D | DSW_RR | S_D_RR => exact storePair_follows _ _ _ s
  | DSZ | DSZ_RR => exact store2_follows _ _ _ s
  | SWL | SWR => exact storePart_follows i s
  | SYSCALL =>
      -- What the call accesses depends on the state, which is still the same.
      refine Follows.tell_bind _ (Part.exec (Pisa.SYSCALL_IMPL host i) s) fun _ l hl => ?_
      rw [Shaped, List.map_cons, hl]
      rfl
  | _ => exact Part.exec _ s

/-! ### Runs -/

/-- A part of a turn that refers to nothing. -/
theorem quiet_then {y : Exec ω α} {f : α → Watched (Pisa.State ω) Stop Ref β}
    {g : α → Exec ω β} {s : Pisa.State ω} {R : β → List Ref → Prop}
    (hf : ∀ a s', y s = .ok (a, s') → Follows s' (f a) (g a) R) :
    Follows s (fun φ τ see => exec y >>= fun a => f a φ τ see) (y >>= g) R := by
  refine Follows.bind (Q := fun _ => R) (Follows.lift y s) hf ?_
  intro a b l₁ l₂ h₁ h₂
  rw [h₁, List.nil_append]
  exact h₂

theorem simStep_follows (host : Host ω) (sys : SysAccesses ω) (s : Pisa.State ω) :
    Follows s (fun _ _ see => simStep see host sys) (safeStep host)
      fun e l => Shaped (stepShapes sys e) l := by
  refine quiet_then fun _ s₁ _ => ?_
  -- The fetch is shown, and the rest of the turn has the references of the instruction.
  refine Follows.tell_bind (P := fun e l => e.before.regs = s₁.regs ∧
    Shaped (opShapes sys e.inst e.op e.before) l) _ ?_ fun e l hl => ?_
  · refine quiet_then fun i s₃ hfetch => ?_
    refine quiet_then fun op s₄ hop => ?_
    refine quiet_then fun before s₅ hget => ?_
    cases hget
    -- Fetching and decoding leave the registers alone.
    have hregs : s₄.regs = s₁.regs := by
      rw [(MD_SET_OPCODE_eq_ok hop).2, (MD_FETCH_INST_eq_ok hfetch).1]
    refine Follows.bind (Q := fun _ e l => e = ⟨i, op, s₄⟩ ∧ l = [])
      (impl_follows host sys i op s₄) (fun _ s₆ _ => ?_) ?_
    · exact quiet_then fun _ s₇ _ => Follows.pure _ s₇
    · rintro _ _ l₁ l₂ hl ⟨rfl, rfl⟩
      rw [List.append_nil]
      exact ⟨hregs, hl⟩
  · rw [Shaped, List.map_cons, hl.2, stepShapes, hl.1]
    rfl

/-- So is a run. -/
theorem simRun_follows (host : Host ω) (sys : SysAccesses ω) (n : Nat) (s : Pisa.State ω) :
    Follows s (fun _ _ see => simRun see host sys n) (safeRun host n)
      fun steps l => Shaped (steps.flatMap (stepShapes sys)) l := by
  induction n with
  | zero =>
      refine (Follows.pure [] s).mono fun steps l h => ?_
      rw [h.1, h.2]
      rfl
  | succ n ih =>
      -- The shapes of the last turn come after those of the run before it.
      refine Follows.bind (Q := fun pre steps l => ∃ e, steps = pre ++ [e] ∧
        Shaped (stepShapes sys e) l) ih (fun pre s₁ _ => ?_) ?_
      · refine Follows.bind (Q := fun e steps l => steps = pre ++ [e] ∧ l = [])
          (simStep_follows host sys s₁) (fun e s₂ _ => Follows.pure _ s₂) ?_
        rintro e steps l₁ l₂ hl ⟨rfl, rfl⟩
        rw [List.append_nil]
        exact ⟨e, rfl, hl⟩
      · rintro pre steps l₁ l₂ hl₁ ⟨e, rfl, hl₂⟩
        rw [Shaped, List.map_append, hl₁, hl₂, List.flatMap_append, List.flatMap_singleton]

/-! ### Caches -/

variable {k : Nat} {G : Fin k → Geometry} {H : Hierarchy k} {ρ : Type}
  {draw : ρ → BitVec 32 × ρ}

/-- The references of a run of `n` instructions. -/
def references (host : Host ω) (sys : SysAccesses ω) (n : Nat) (s : Pisa.State ω) : List Ref :=
  Watched.logged (fun _ _ see => simRun see host sys n) (started s)

/-- The caches, reference by reference, are the caches operation by operation. -/
theorem foldlM_access (c : Caches k) (refs : List Ref) (x : World G ρ) :
    refs.foldlM (c.access H draw) x = (refs.flatMap c.ops).foldlM (sysStep H draw) x := by
  induction refs generalizing x with
  | nil => rfl
  | cons r refs ih =>
      -- A reference is several operations, one for each cache it is shown to.
      rw [List.foldlM_cons, List.flatMap_cons, List.foldlM_append, Caches.access]
      exact congrArg _ (funext ih)

/-- What is left of a simulation with caches when they are forgotten, and
    what the caches have done. -/
theorem simMain_ok {seed : ρ} {c : Caches k} {host : Host ω} {sys : SysAccesses ω} {n : Nat}
    {s : Pisa.State ω} {r : List (Step ω) × (Pisa.State ω × World G ρ)}
    (h : simMain G H draw seed c host sys n s = .ok r) :
    simSafe host n s = .ok (r.1, r.2.1) ∧
      sysRun G H draw seed ((references host sys n s).flatMap c.ops) = .ok r.2.2 := by
  -- The caches are the watcher of the run, and the run without them is the other one.
  have hrun := (simRun_follows host sys n (started s)).of_eq_ok h
  refine ⟨hrun.1, ?_⟩
  rw [sysRun, ← foldlM_access]
  exact hrun.2

theorem simMain_of_ok {seed : ρ} {c : Caches k} {host : Host ω} {sys : SysAccesses ω} {n : Nat}
    {s s' : Pisa.State ω} {steps : List (Step ω)} {x : World G ρ}
    (h : simSafe host n s = .ok (steps, s'))
    (hx : sysRun G H draw seed ((references host sys n s).flatMap c.ops) = .ok x) :
    simMain G H draw seed c host sys n s = .ok (steps, (s', x)) := by
  rw [sysRun, ← foldlM_access] at hx
  refine (((simRun_follows host sys n (started s)).logged h).2 Fault _ (c.access H draw)
    (created G seed)).trans ?_
  rw [Watched.seen]
  exact hx ▸ rfl

/-- A simulation with caches executes what the functional simulator executes
    and ends in the same state of the machine, or it does not end. Beside it
    the caches run on the references, which are the same for all caches. -/
theorem simMain_transparent {ω ρ : Type} {k : Nat} (G : Fin k → Geometry) (H : Hierarchy k)
    (draw : ρ → BitVec 32 × ρ) (seed : ρ) (c : Caches k) (host : Host ω) (sys : SysAccesses ω)
    (n : Nat) (s : Pisa.State ω) :
    (simMain G H draw seed c host sys n s).toOption =
      (simSafe host n s).toOption.bind fun r =>
        (sysRun G H draw seed ((references host sys n s).flatMap c.ops)).toOption.map
          fun x => (r.1, (r.2, x)) := by
  rw [sysRun, ← foldlM_access]
  exact (simRun_follows host sys n (started s)).eq_logged (c.access H draw) (created G seed)

end SimCache

end MicroArch
