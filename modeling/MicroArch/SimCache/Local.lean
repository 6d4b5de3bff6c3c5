import MicroArch.Pisa.Beside
import MicroArch.SimCache.Transparent

/-!
# The References Are All

A program depends on the bytes it refers to, and changes no others.

The caches see nothing but the references. So what they are told of a program
is right only if the references are complete, and an accessor that forgot one
would not be noticed in a run. Here two machines are run side by side which
hold the same in a set of addresses and may differ elsewhere. As long as the
references stay in the set, the machines execute the same instructions on the
same registers, and refer to the same.

A system call is taken to be like that: it touches what it reports.

The machines are run under a guard, which stops a run at the first reference
outside of the set. A guarded run is a program of two machines side by side, and
the lemmas about the instructions follow its text, like those of `Pisa.Beside`
for the instructions that do not access memory. In the end the set is chosen as
all that the first run refers to. Then the guard has never stopped it, so it has
not stopped the second run either, and both are runs without a guard.

## Main definitions

* `Agreeing`: Two memories with the same contents in a set.
* `Ref.touches`: The bytes of a reference.
* `Inside`: A reference that stays in the set and on its page.
* `LocalCalls`: The system calls touch what they report.

## Theorems

* `blind_readMem`, `blind_writeMem`: An access inside of the set.
* `impl_local`: The instructions.
* `simSafe_local`: A run.
-/

namespace MicroArch

namespace SimCache

open Memory (Addr Byte Contents Mem Within contents_memRead_within contents_memWrite_within)
open Pisa (Beside Blind Exec GPR Host Inst MD_FETCH_INST Op SET_GPR Step Word blind_GPR blind_FPR_L
  blind_MD_SET_OPCODE blind_advance blind_SET_GPR blind_SET_FPR_L blind_disp blind_faultIf
  blind_of_not_accesses blind_pure blind_rr blind_rr2 disp)
open Watched (Noted guard)

variable {ω α : Type}

/-! ### Memories -/

/-- Two memories that hold the same in a set, and elsewhere these bytes. -/
def Agreeing (C : Set Addr) (b₀ b₁ : Addr → Byte) (m₀ m₁ : Mem) : Prop :=
  ∃ f₀ f₁, Contents m₀ f₀ ∧ Contents m₁ f₁ ∧ (∀ a ∈ C, f₀ a = f₁ a) ∧
    ∀ a, a ∉ C → f₀ a = b₀ a ∧ f₁ a = b₁ a

/-- A number of bytes. -/
def span (a : Addr) (n : Nat) : Set Addr := {x | (x - a).toNat < n}

variable {C : Set Addr} {b₀ b₁ : Addr → Byte}

theorem Agreeing.symm {m₀ m₁ : Mem} (h : Agreeing C b₀ b₁ m₀ m₁) : Agreeing C b₁ b₀ m₁ m₀ := by
  rcases h with ⟨f₀, f₁, h₀, h₁, hin, hout⟩
  exact ⟨f₁, f₀, h₁, h₀, fun a ha => (hin a ha).symm, fun a ha => (hout a ha).symm⟩

theorem add_mem_span (a : Addr) {i n : Nat} (hi : i < n) (hn : n ≤ 4096) :
    a + BitVec.ofNat 32 i ∈ span a n := by
  have hsub : (a + BitVec.ofNat 32 i - a).toNat = i := by
    rw [BitVec.add_comm, BitVec.add_sub_cancel, BitVec.toNat_ofNat]
    omega
  change (a + BitVec.ofNat 32 i - a).toNat < n
  rw [hsub]
  exact hi

theorem blind_readMem {a : Addr} {n : Nat} (hw : Within a n) (hC : span a n ⊆ C) :
    Blind (ω := ω) (Agreeing C b₀ b₁) (Pisa.readMem n a) := by
  rintro s t ⟨hregs, hworld, f₀, f₁, h₀, h₁, hin, hout⟩
  rcases contents_memRead_within h₀ hw with ⟨⟨l₀, m₀⟩, hs, rfl, hm₀⟩
  rcases contents_memRead_within h₁ hw with ⟨⟨l₁, m₁⟩, ht, rfl, hm₁⟩
  simp only [Pisa.readMem, hs, ht]
  refine ⟨List.map_congr_left fun i hi => hin _ (hC (add_mem_span a (List.mem_range.mp hi) ?_)),
    hregs, hworld, f₀, f₁, hm₀, hm₁, hin, hout⟩
  exact (Nat.le_add_left n _).trans hw

theorem blind_writeMem {a : Addr} {l : List Byte} (hw : Within a l.length)
    (hC : span a l.length ⊆ C) :
    Blind (ω := ω) (Agreeing C b₀ b₁) (Pisa.writeMem l a) := by
  rintro s t ⟨hregs, hworld, f₀, f₁, h₀, h₁, hin, hout⟩
  rcases contents_memWrite_within h₀ hw with ⟨m₀, hs, hm₀⟩
  rcases contents_memWrite_within h₁ hw with ⟨m₁, ht, hm₁⟩
  simp only [Pisa.writeMem, hs, ht]
  refine ⟨rfl, hregs, hworld, _, _, hm₀, hm₁, fun x hx => ?_, fun x hx => ?_⟩
  · rw [hin x hx]
  · -- An address outside of the set is not one of those written.
    have hlen : l.length ≤ (x - a).toNat := Nat.le_of_not_lt fun h => hx (hC h)
    rw [List.getD_eq_default _ _ hlen, List.getD_eq_default _ _ hlen]
    exact hout x hx

/-! ### References -/

/-- The bytes of some accesses. -/
def touched (as : List Access) : Set Addr :=
  {x | ∃ a ∈ as, x ∈ span a.addr a.nbytes.toNat}

/-- The bytes of a reference. -/
def Ref.touches : Ref → Set Addr
  | .fetch PC => span PC 8
  | .data _ a => span a.addr a.nbytes.toNat
  | .syscall _ as => touched as

/-- Both words of an instruction, or the access of one, stay on their page. -/
def Ref.OnPage : Ref → Prop
  | .fetch PC => Within PC 4 ∧ Within (PC + 4) 4
  | .data _ a => Within a.addr a.nbytes.toNat
  | .syscall .. => True

/-- A reference that stays in the set and on its page. -/
def Inside (C : Set Addr) (r : Ref) : Prop := r.OnPage ∧ r.touches ⊆ C

/-- The system calls touch what they report. -/
def LocalCalls (host : Host ω) (sys : SysAccesses ω) : Prop :=
  ∀ (C : Set Addr) (b₀ b₁ : Addr → Byte) (i : Inst) (s t : Pisa.State ω),
    Beside (Agreeing C b₀ b₁) s t → touched (sys i s) ⊆ C →
      sys i t = sys i s ∧
        Both Eq (Beside (Agreeing C b₀ b₁)) (Pisa.SYSCALL_IMPL host i s)
          (Pisa.SYSCALL_IMPL host i t)

/-! ### Instructions -/

variable (C b₀ b₁) in
/-- A part of an instruction that depends on the set only, as long as its
    references are inside. -/
abbrev Local (x : Sim ω Unit (List Ref) α) : Prop :=
  Related (Noted (Beside (Agreeing C b₀ b₁))) Eq x x

section Parts

variable {b₀ b₁ : Addr → Byte}

theorem local_exec {y : Exec ω α} (h : Blind (Agreeing C b₀ b₁) y) : Local C b₀ b₁ (exec y) :=
  h.lift

theorem blind_read {n : Nat} {a : Word} (f : List Byte → α) (hw : Within a n)
    (hC : span a n ⊆ C) :
    Blind (ω := ω) (Agreeing C b₀ b₁) (do return f (← Pisa.readMem n a)) := by
  apply (blind_readMem hw hC).bind_eq
  intro bytes
  exact Related.pure rfl

theorem load_local {read : Word → Sim ω Unit (List Ref) Word} {addr : Exec ω Word}
    {set : Word → Exec ω Unit} (hread : ∀ a, Local C b₀ b₁ (read a))
    (haddr : Blind (Agreeing C b₀ b₁) addr) (hset : ∀ v, Blind (Agreeing C b₀ b₁) (set v)) :
    Local C b₀ b₁ (load read addr set) := by
  rw [load]
  apply (local_exec haddr).bind_eq
  intro a
  apply (hread a).bind_eq
  intro v
  exact local_exec (hset v)

theorem store_local {write : Word → Word → Sim ω Unit (List Ref) Unit} {src addr : Exec ω Word}
    (hwrite : ∀ v a, Local C b₀ b₁ (write v a)) (hsrc : Blind (Agreeing C b₀ b₁) src)
    (haddr : Blind (Agreeing C b₀ b₁) addr) : Local C b₀ b₁ (store write src addr) := by
  rw [store]
  apply (local_exec hsrc).bind_eq
  intro v
  apply (local_exec haddr).bind_eq
  intro a
  exact hwrite v a

variable [DecidablePred (Inside C)]

/-- An access, which is shown before. -/
theorem local_shown {r : Pisa.State ω → Ref} {y : Exec ω α}
    (hr : ∀ s t : Pisa.State ω, s.regs = t.regs → r s = r t)
    (hy : ∀ s, Inside C (r s) → Blind (Agreeing C b₀ b₁) y) :
    Local C b₀ b₁ (Watched.tell r (guard (Inside C)) >>= fun _ => exec y) := by
  -- The reference depends on the registers, so both machines are stopped or neither is.
  refine Related.tell_bind (fun s t h => by rw [hr s t h.regs]) fun s t h hin => ?_
  refine ⟨hr s t h.regs, fun l => ?_⟩
  exact local_exec (hy s hin) (s, l) (t, l) ⟨h, rfl⟩

theorem READ_BYTE_local (a : Word) :
    Local (ω := ω) C b₀ b₁ (READ_BYTE (guard (Inside C)) a) :=
  local_shown (fun _ _ h => by rw [h]) fun _ h => blind_read _ h.1 h.2

theorem READ_HALF_local (a : Word) :
    Local (ω := ω) C b₀ b₁ (READ_HALF (guard (Inside C)) a) :=
  local_shown (fun _ _ h => by rw [h]) fun _ h => blind_read _ h.1 h.2

theorem READ_WORD_local (a : Word) :
    Local (ω := ω) C b₀ b₁ (READ_WORD (guard (Inside C)) a) :=
  local_shown (fun _ _ h => by rw [h]) fun _ h => blind_read _ h.1 h.2

theorem WRITE_BYTE_local (v : Byte) (a : Word) :
    Local (ω := ω) C b₀ b₁ (WRITE_BYTE (guard (Inside C)) v a) :=
  local_shown (fun _ _ h => by rw [h]) fun _ h => blind_writeMem h.1 h.2

theorem WRITE_HALF_local (v : BitVec 16) (a : Word) :
    Local (ω := ω) C b₀ b₁ (WRITE_HALF (guard (Inside C)) v a) :=
  local_shown (fun _ _ h => by rw [h]) fun _ h => blind_writeMem h.1 h.2

theorem WRITE_WORD_local (v a : Word) :
    Local (ω := ω) C b₀ b₁ (WRITE_WORD (guard (Inside C)) v a) :=
  local_shown (fun _ _ h => by rw [h]) fun _ h => blind_writeMem h.1 h.2

theorem load2_local {addr : Exec ω Word} {set : Nat → Word → Exec ω Unit} (n : Nat)
    (haddr : Blind (Agreeing C b₀ b₁) addr) (hset : ∀ n v, Blind (Agreeing C b₀ b₁) (set n v)) :
    Local C b₀ b₁ (load2 (guard (Inside C)) addr set n) := by
  rw [load2]
  apply (local_exec (blind_faultIf _ _)).bind_eq
  intro
  apply (local_exec haddr).bind_eq
  intro a
  apply (READ_WORD_local _).bind_eq
  intro hi
  -- The address is computed again for the second word.
  apply (local_exec haddr).bind_eq
  intro a'
  apply (READ_WORD_local _).bind_eq
  intro lo
  apply (local_exec (hset _ _)).bind_eq
  intro
  exact local_exec (hset _ _)

theorem store2_local {addr hi lo : Exec ω Word} (haddr : Blind (Agreeing C b₀ b₁) addr)
    (hhi : Blind (Agreeing C b₀ b₁) hi) (hlo : Blind (Agreeing C b₀ b₁) lo) :
    Local C b₀ b₁ (store2 (guard (Inside C)) addr hi lo) := by
  -- The second word is four bytes further on.
  have haddr' : Blind (Agreeing C b₀ b₁) (do return (← addr) + 4) := by
    apply haddr.bind_eq
    intro a
    exact blind_pure _
  rw [store2]
  apply (store_local WRITE_WORD_local hhi haddr).bind_eq
  intro
  exact store_local WRITE_WORD_local hlo haddr'

theorem storePair_local {addr : Exec ω Word} {get : Nat → Exec ω Word} (n : Nat)
    (haddr : Blind (Agreeing C b₀ b₁) addr) (hget : ∀ n, Blind (Agreeing C b₀ b₁) (get n)) :
    Local C b₀ b₁ (storePair (guard (Inside C)) addr get n) := by
  rw [storePair]
  apply (local_exec (blind_faultIf _ _)).bind_eq
  intro
  exact store2_local haddr (hget _) (hget _)

theorem readSByte_local (a : Word) :
    Local (ω := ω) C b₀ b₁ (readSByte (guard (Inside C)) a) := by
  rw [readSByte]
  apply (READ_BYTE_local a).bind_eq
  intro b
  exact Related.pure rfl

theorem readByte_local (a : Word) :
    Local (ω := ω) C b₀ b₁ (readByte (guard (Inside C)) a) := by
  rw [readByte]
  apply (READ_BYTE_local a).bind_eq
  intro b
  exact Related.pure rfl

theorem readSHalf_local (a : Word) :
    Local (ω := ω) C b₀ b₁ (readSHalf (guard (Inside C)) a) := by
  rw [readSHalf]
  apply (READ_HALF_local a).bind_eq
  intro x
  exact Related.pure rfl

theorem readHalf_local (a : Word) :
    Local (ω := ω) C b₀ b₁ (readHalf (guard (Inside C)) a) := by
  rw [readHalf]
  apply (READ_HALF_local a).bind_eq
  intro x
  exact Related.pure rfl

/-- A load of a part of a word. -/
theorem loadPart_local {base : Word → Word} {merge : Word → Word → Word → Word} (i : Inst) :
    Local (ω := ω) C b₀ b₁ (do
      let a ← exec (disp i)
      let temp ← READ_WORD (guard (Inside C)) (base a)
      exec (SET_GPR i.RT (merge a (← exec (GPR i.RT)) temp))) := by
  apply (local_exec blind_disp).bind_eq
  intro a
  apply (READ_WORD_local _).bind_eq
  intro temp
  apply (local_exec (blind_GPR _)).bind_eq
  intro x
  exact local_exec (blind_SET_GPR _ _)

/-- A store of a part of a word, which reads the word first. -/
theorem storePart_local {base : Word → Word} {merge : Word → Word → Word → Word} (i : Inst) :
    Local (ω := ω) C b₀ b₁ (do
      let a ← exec (disp i)
      let temp ← READ_WORD (guard (Inside C)) (base a)
      WRITE_WORD (guard (Inside C)) (merge a (← exec (GPR i.RT)) temp) (base a)) := by
  apply (local_exec blind_disp).bind_eq
  intro a
  apply (READ_WORD_local _).bind_eq
  intro temp
  apply (local_exec (blind_GPR _)).bind_eq
  intro x
  exact WRITE_WORD_local _ _

theorem SYSCALL_local {host : Host ω} {sys : SysAccesses ω} (h : LocalCalls host sys) (i : Inst) :
    Local C b₀ b₁ (SYSCALL_IMPL (guard (Inside C)) host sys i) := by
  -- A call that reports what is inside reports the same on the other machine.
  have hsame : ∀ (c₀ c₁ : Addr → Byte) (s t : Pisa.State ω), Beside (Agreeing C c₀ c₁) s t →
      Inside C (.syscall s.regs.PC (sys i s)) →
      Ref.syscall s.regs.PC (sys i s) = .syscall t.regs.PC (sys i t) := by
    intro c₀ c₁ s t hst hin
    rw [(h C c₀ c₁ i s t hst hin.2).1, hst.regs]
  refine Related.tell_bind (fun s t hst => ⟨fun hin => ?_, fun hin => ?_⟩)
    fun s t hst hin => ⟨hsame b₀ b₁ s t hst hin, fun l => ?_⟩
  · rw [← hsame b₀ b₁ s t hst hin]
    exact hin
  · -- The other machine may be the one whose call is inside.
    have hts : Beside (Agreeing C b₁ b₀) t s := ⟨hst.regs.symm, hst.world.symm, hst.mem.symm⟩
    rw [← hsame b₁ b₀ t s hts hin]
    exact hin
  · exact (h C b₀ b₁ i s t hst hin.2).2.lift l

/-- An instruction depends on the bytes it refers to. -/
theorem impl_local {host : Host ω} {sys : SysAccesses ω} (h : LocalCalls host sys) (i : Inst)
    (op : Op) : Local C b₀ b₁ (impl (guard (Inside C)) host sys i op) := by
  cases op with
  | LB => exact load_local readSByte_local blind_disp (blind_SET_GPR _)
  | LBU => exact load_local readByte_local blind_disp (blind_SET_GPR _)
  | LH => exact load_local readSHalf_local blind_disp (blind_SET_GPR _)
  | LHU => exact load_local readHalf_local blind_disp (blind_SET_GPR _)
  | LW => exact load_local READ_WORD_local blind_disp (blind_SET_GPR _)
  | L_S => exact load_local READ_WORD_local blind_disp (blind_SET_FPR_L _)
  | LB_RR => exact load_local readSByte_local blind_rr (blind_SET_GPR _)
  | LBU_RR => exact load_local readByte_local blind_rr (blind_SET_GPR _)
  | LH_RR => exact load_local readSHalf_local blind_rr (blind_SET_GPR _)
  | LHU_RR => exact load_local readHalf_local blind_rr (blind_SET_GPR _)
  | LW_RR => exact load_local READ_WORD_local blind_rr (blind_SET_GPR _)
  | L_S_RR => exact load_local READ_WORD_local blind_rr (blind_SET_FPR_L _)
  | LW_RR_R2 => exact load_local READ_WORD_local blind_rr2 (blind_SET_GPR _)
  | L_S_RR_R2 => exact load_local READ_WORD_local blind_rr2 (blind_SET_FPR_L _)
  | DLW => exact load2_local _ blind_disp blind_SET_GPR
  | L_D => exact load2_local _ blind_disp blind_SET_FPR_L
  | DLW_RR => exact load2_local _ blind_rr blind_SET_GPR
  | L_D_RR => exact load2_local _ blind_rr blind_SET_FPR_L
  | SB => exact store_local (fun _ => WRITE_BYTE_local _) (blind_GPR _) blind_disp
  | SH => exact store_local (fun _ => WRITE_HALF_local _) (blind_GPR _) blind_disp
  | SW => exact store_local WRITE_WORD_local (blind_GPR _) blind_disp
  | S_S => exact store_local WRITE_WORD_local (blind_FPR_L _) blind_disp
  | SB_RR => exact store_local (fun _ => WRITE_BYTE_local _) (blind_GPR _) blind_rr
  | SH_RR => exact store_local (fun _ => WRITE_HALF_local _) (blind_GPR _) blind_rr
  | SW_RR => exact store_local WRITE_WORD_local (blind_GPR _) blind_rr
  | S_S_RR => exact store_local WRITE_WORD_local (blind_FPR_L _) blind_rr
  | SW_RR_R2 => exact store_local WRITE_WORD_local (blind_GPR _) blind_rr2
  | S_S_RR_R2 => exact store_local WRITE_WORD_local (blind_FPR_L _) blind_rr2
  | DSW => exact storePair_local _ blind_disp blind_GPR
  | S_D => exact storePair_local _ blind_disp blind_FPR_L
  | DSW_RR => exact storePair_local _ blind_rr blind_GPR
  | S_D_RR => exact storePair_local _ blind_rr blind_FPR_L
  | DSZ => exact store2_local blind_disp (blind_GPR _) (blind_GPR _)
  | DSZ_RR => exact store2_local blind_rr (blind_GPR _) (blind_GPR _)
  | LWL | LWR => exact loadPart_local i
  | SWL | SWR => exact storePart_local i
  | SYSCALL => exact SYSCALL_local h i
  | _ => exact local_exec (blind_of_not_accesses host i rfl)

end Parts

/-! ### Runs -/

/-- Two turns that found the same but for the memory. -/
structure StepBeside (M : Mem → Mem → Prop) (e e' : Step ω) : Prop where
  inst : e.inst = e'.inst
  op : e.op = e'.op
  before : Beside M e.before e'.before

/-- A fetch, at the program counter of this state. -/
theorem MD_FETCH_INST_at (s : Pisa.State ω) :
    MD_FETCH_INST s = (do
      let a ← Pisa.READ_WORD s.regs.PC
      let b ← Pisa.READ_WORD (s.regs.PC + 4)
      return ⟨a, b⟩ : Exec ω Inst) s := by
  simp only [MD_FETCH_INST, Pisa.CPC, bind, StateT.bind, Except.bind]
  rcases hread : Pisa.READ_WORD s.regs.PC s with e | ⟨a, s₁⟩
  · rfl
  · have hregs := (Pisa.READ_WORD_eq_ok hread).1
    simp only [hregs]

/-- A fetch that stays inside. -/
theorem fetch_local {s t : Pisa.State ω} (h : Beside (Agreeing C b₀ b₁) s t)
    (hin : Inside C (.fetch s.regs.PC)) :
    Both Eq (Beside (Agreeing C b₀ b₁)) (MD_FETCH_INST s) (MD_FETCH_INST t) := by
  have hspan : ∀ {a : Word}, (∀ x : Word, x ∈ span a 4 → x ∈ span s.regs.PC 8) → span a 4 ⊆ C :=
    fun hsub x hx => hin.2 (hsub x hx)
  -- Each of the two words is a half of the eight bytes.
  have hfirst : span s.regs.PC 4 ⊆ C := hspan fun x hx => by
    change (x - s.regs.PC).toNat < 8
    change (x - s.regs.PC).toNat < 4 at hx
    omega
  have hsecond : span (s.regs.PC + 4) 4 ⊆ C := hspan fun x hx => by
    change (x - s.regs.PC).toNat < 8
    change (x - (s.regs.PC + 4)).toNat < 4 at hx
    bv_omega
  have hfetch : Blind (ω := ω) (Agreeing C b₀ b₁) (do
      let a ← Pisa.READ_WORD s.regs.PC
      let b ← Pisa.READ_WORD (s.regs.PC + 4)
      return (⟨a, b⟩ : Inst)) := by
    apply (blind_read _ hin.1.1 hfirst).bind_eq
    intro a
    apply (blind_read _ hin.1.2 hsecond).bind_eq
    intro b
    exact blind_pure _
  -- Both machines fetch at the same address, since they have the same registers.
  rw [MD_FETCH_INST_at s, MD_FETCH_INST_at t, ← h.regs]
  exact hfetch s t h

section Runs

variable {host : Host ω} {sys : SysAccesses ω} [DecidablePred (Inside C)] {b₀ b₁ : Addr → Byte}

theorem simStep_local (h : LocalCalls host sys) :
    Related (Noted (Beside (Agreeing C b₀ b₁))) (StepBeside (Agreeing C b₀ b₁))
      (simStep (guard (Inside C)) host sys) (simStep (guard (Inside C)) host sys) := by
  -- The turn in the order of the loop: register zero, the fetch, the opcode, the instruction.
  refine (local_exec (blind_SET_GPR _ _)).bind_eq fun _ => ?_
  refine Related.tell_bind (fun s t hst => by rw [hst.regs]) fun s t hst hin =>
    ⟨by rw [hst.regs], fun l => ?_⟩
  -- Where the fetch reads is known in these two states only.
  refine ((fetch_local hst hin).lift l).bind fun i i' hi => ?_
  cases hi
  refine (local_exec (blind_MD_SET_OPCODE i)).bind_eq fun op => ?_
  have hget : Related (Beside (Agreeing C b₀ b₁)) (Beside (Agreeing C b₀ b₁))
      (get : Exec ω (Pisa.State ω)) get := fun _ _ h => ⟨h, h⟩
  refine hget.lift.bind fun before before' hbefore => ?_
  apply (impl_local h i op).bind_eq
  intro
  apply (local_exec blind_advance).bind_eq
  intro
  exact Related.pure ⟨rfl, rfl, hbefore⟩

theorem simRun_local (h : LocalCalls host sys) (n : Nat) :
    Related (Noted (Beside (Agreeing C b₀ b₁))) (List.Forall₂ (StepBeside (Agreeing C b₀ b₁)))
      (simRun (guard (Inside C)) host sys n) (simRun (guard (Inside C)) host sys n) := by
  induction n with
  | zero => exact Related.pure .nil
  | succ n ih =>
      refine ih.bind fun steps steps' hsteps => ?_
      refine (simStep_local h).bind fun e e' he => ?_
      exact Related.pure (List.rel_append hsteps (.cons he .nil))

end Runs

/-- The bytes that a run refers to. -/
def touchedBy (refs : List Ref) : Set Addr := {a | ∃ r ∈ refs, a ∈ r.touches}

/-- What a run depends on. From another memory that holds the same bytes
    where the run refers to them, the same instructions are executed, the
    same references made, and the same bytes written. -/
theorem simSafe_local {host : Host ω} {sys : SysAccesses ω} (h : LocalCalls host sys) {n : Nat}
    {s s' : Pisa.State ω} {steps : List (Step ω)} (hrun : simSafe host n s = .ok (steps, s'))
    (hpage : ∀ r ∈ references host sys n s, r.OnPage) {m : Mem}
    (hm : Agreeing (touchedBy (references host sys n s)) b₀ b₁ s.mem m) :
    ∃ steps' t', simSafe host n (s.setMem m) = .ok (steps', t') ∧
      List.Forall₂ (StepBeside (Agreeing (touchedBy (references host sys n s)) b₀ b₁))
        steps steps' ∧
      Beside (Agreeing (touchedBy (references host sys n s)) b₀ b₁) s' t' ∧
      references host sys n (s.setMem m) = references host sys n s := by
  classical
  have hstart : Beside (Agreeing (touchedBy (references host sys n s)) b₀ b₁) (started s)
      (started (s.setMem m)) := ⟨rfl, rfl, hm⟩
  -- The set is all that the first run refers to, so it is never stopped.
  exact Related.unguarded (x := fun _ _ see => simRun see host sys n) (simRun_local h n)
    (simRun_follows host sys n (started s)) (simRun_follows host sys n (started (s.setMem m)))
    hstart hrun fun r hr => ⟨hpage r hr, fun a ha => ⟨r, hr, ha⟩⟩

end SimCache

end MicroArch
