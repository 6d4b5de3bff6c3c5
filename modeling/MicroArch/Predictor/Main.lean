import MicroArch.Library.LittleEndian
import MicroArch.Predictor.Bimodal
import MicroArch.Predictor.History

/-!
# The Predictor Program

`tracer.cc`, which reads a trace of ten bytes a record, and the loop of
`main.cc`, which resolves its conditional branches with three predictors.

The loop asks all predictors before it updates the first one. They share
nothing, so each of them runs as if it were alone: the run of the program is
put together from one run of each predictor over the conditional branches, and
what is proved of a predictor alone then holds of what the program prints.

The last byte of a record is stored as it is read. It is looked at as a `bool`
only where it decides a branch, so a record of another kind may have any value
there. A conditional branch with a byte that is no `bool` has no meaning, and
no result.

The bytes are those of the decompressed file. The dots that are printed while
the program runs are left out, and with them the count they are drawn by.

## Main definitions

* `OpType`, `TraceRecord`: A record.
* `TraceRecord.bytes`: A record as a trace has it.
* `GetNextRecord`: The function of the source.
* `resolveBranch`: The body of the loop.
* `TraceRecord.Directed`: A record that the loop gets past.
* `simulate`: The loop.
* `predictor`: The program, up to what it prints.

## Theorems

* `getNextRecord_bytes`: What is read is what a trace has.
* `getNextRecord_sound`: Nothing else is read.
* `simulate_bytes`: A trace is run record by record.
* `predictor_accepts_iff`: The files that the program runs to their end.
* `predictor_alone`: Each predictor runs as if it were alone.
* `predictor_mispredicts_le`: What is printed, against fixed predictions.
-/

namespace MicroArch

namespace Predictor

open TwoLevel (Shape Event)

abbrev UINT64 := BitVec 64

/-! ### Records -/

inductive OpType where
  | LOAD
  | STORE
  | OP
  | CALL_DIRECT
  | RET
  | BRANCH_UNCOND
  | BRANCH_COND
  | INDIRECT_BR_CALL
  deriving DecidableEq, Repr

/-- The kinds by their numbers, below `OPTYPE_MAX`. -/
def OpType.all : List OpType :=
  [.LOAD, .STORE, .OP, .CALL_DIRECT, .RET, .BRANCH_UNCOND, .BRANCH_COND, .INDIRECT_BR_CALL]

def OpType.ofByte (b : BitVec 8) : Option OpType := OpType.all[b.toNat]?

def OpType.byte (op : OpType) : BitVec 8 := BitVec.ofNat 8 (OpType.all.idxOf op)

/-- The two values that a `bool` has in memory. -/
def boolOfByte (b : BitVec 8) : Option Bool :=
  if b = 0 then some false else if b = 1 then some true else none

structure TraceRecord where
  PC : UINT32
  opType : OpType
  branchTaken : BitVec 8
  branchTarget : UINT32
  deriving DecidableEq, Repr

/-- A record as a trace has it. -/
def TraceRecord.bytes (record : TraceRecord) : List (BitVec 8) :=
  leBytes 4 record.PC.toNat ++ leBytes 4 record.branchTarget.toNat ++
    [record.opType.byte, record.branchTaken]

/-! ### Reading -/

/-- `CBP_TRACER`, with what is left of the file. -/
structure Tracer where
  traceFile : List (BitVec 8)
  numInst : UINT64
  numCondBranch : UINT64
  deriving DecidableEq, Repr

def Tracer.new (traceFile : List (BitVec 8)) : Tracer :=
  { traceFile := traceFile, numInst := 0, numCondBranch := 0 }

/-- Reads a record, or nothing at the end of the file. The end is noticed when
    a read gets fewer bytes than it asks for. There is no result if the kind is
    out of range, which is asserted. -/
def GetNextRecord (tracer : Tracer) : Option (Option (TraceRecord × Tracer)) :=
  match tracer.traceFile with
  | p₀ :: p₁ :: p₂ :: p₃ :: t₀ :: t₁ :: t₂ :: t₃ :: op :: taken :: rest => do
      let opType ← OpType.ofByte op
      let record : TraceRecord :=
        { PC := BitVec.ofNat 32 (leNat [p₀, p₁, p₂, p₃])
          opType := opType
          branchTaken := taken
          branchTarget := BitVec.ofNat 32 (leNat [t₀, t₁, t₂, t₃]) }
      return some (record,
        { traceFile := rest
          numInst := tracer.numInst + 1
          numCondBranch := if opType = .BRANCH_COND then tracer.numCondBranch + 1
            else tracer.numCondBranch })
  | _ => return none

/-! ### Records in a trace -/

theorem ofByte_byte (op : OpType) : OpType.ofByte op.byte = some op := by
  cases op <;> rfl

theorem byte_of_ofByte {b : BitVec 8} {op : OpType} (h : OpType.ofByte b = some op) :
    op.byte = b := by
  revert b op
  decide

@[simp] theorem TraceRecord.length_bytes (record : TraceRecord) : record.bytes.length = 10 := rfl

/-- The tracer after a record. -/
def Tracer.past (tracer : Tracer) (record : TraceRecord) (rest : List (BitVec 8)) : Tracer :=
  { traceFile := rest
    numInst := tracer.numInst + 1
    numCondBranch := if record.opType = .BRANCH_COND then tracer.numCondBranch + 1
      else tracer.numCondBranch }

/-- What is read is what a trace has. -/
theorem getNextRecord_bytes {tracer : Tracer} {record : TraceRecord} {rest : List (BitVec 8)}
    (h : tracer.traceFile = record.bytes ++ rest) :
    GetNextRecord tracer = some (some (record, tracer.past record rest)) := by
  -- The four fields are read in the order in which they are written.
  obtain ⟨PC, opType, branchTaken, branchTarget⟩ := record
  have hPC := ofNat_leNat_leBytes PC
  have htarget := ofNat_leNat_leBytes branchTarget
  rw [GetNextRecord, h]
  change (OpType.ofByte opType.byte >>= fun op =>
    some (some (TraceRecord.mk (BitVec.ofNat 32 (leNat (leBytes 4 PC.toNat))) op branchTaken
      (BitVec.ofNat 32 (leNat (leBytes 4 branchTarget.toNat))), _))) = _
  rw [ofByte_byte, hPC, htarget]
  rfl

/-- A read fails exactly at the end, where less than a record is left. -/
theorem getNextRecord_eq_none_iff {tracer : Tracer} :
    GetNextRecord tracer = some none ↔ tracer.traceFile.length < 10 := by
  rw [GetNextRecord]
  split
  -- Ten bytes are there, so what the read returns depends on the kind alone.
  case h_1 p₀ p₁ p₂ p₃ t₀ t₁ t₂ t₃ op taken rest hfile =>
      rw [hfile]
      cases OpType.ofByte op <;> simp
  case h_2 hshort =>
      refine ⟨fun _ => ?_, fun _ => rfl⟩
      by_contra hlong
      rcases hfile : tracer.traceFile with
        _ | ⟨p₀, _ | ⟨p₁, _ | ⟨p₂, _ | ⟨p₃, _ | ⟨t₀, _ | ⟨t₁, _ | ⟨t₂, _ | ⟨t₃, _ | ⟨op,
          _ | ⟨taken, rest⟩⟩⟩⟩⟩⟩⟩⟩⟩⟩
      case cons => exact hshort _ _ _ _ _ _ _ _ _ _ _ hfile
      all_goals simp [hfile] at hlong

/-- Nothing else is read. -/
theorem getNextRecord_sound {tracer tracer' : Tracer} {record : TraceRecord}
    (h : GetNextRecord tracer = some (some (record, tracer'))) :
    tracer.traceFile = record.bytes ++ tracer'.traceFile ∧
      tracer' = tracer.past record tracer'.traceFile := by
  rw [GetNextRecord] at h
  split at h
  case h_1 p₀ p₁ p₂ p₃ t₀ t₁ t₂ t₃ op taken rest hfile =>
      cases hop : OpType.ofByte op with
      | none => rw [hop] at h; cases h
      | some opType =>
          rw [hop] at h
          obtain ⟨rfl, rfl⟩ := Prod.mk.inj (Option.some.inj (Option.some.inj h))
          refine ⟨?_, rfl⟩
          -- The bytes of a field are those of its value.
          rw [hfile, TraceRecord.bytes, leBytes_ofNat_leNat rfl, leBytes_ofNat_leNat rfl,
            byte_of_ofByte hop]
          rfl
  case h_2 => cases h

/-! ### The program -/

/-- The predictors and the mispredictions of each. -/
structure Predictors where
  bitsat : CArray 4096 Int
  level2 : State2level
  openend : State
  numMispred2bitsat : UINT64
  numMispred2level : UINT64
  numMispredOpenend : UINT64

def initPredictors : Predictors :=
  { bitsat := InitPredictor2bitsat
    level2 := InitPredictor2level
    openend := InitPredictor
    numMispred2bitsat := 0
    numMispred2level := 0
    numMispredOpenend := 0 }

/-- The body of the loop for a conditional branch. There is no result if the
    direction is no `bool`. -/
def resolveBranch (s : Predictors) (record : TraceRecord) : Option Predictors := do
  let predDir2bitsat ← GetPrediction2bitsat record.PC s.bitsat
  let predDir2level ← GetPrediction2level record.PC s.level2
  let (predDirOpenend, openend) ← GetPrediction record.PC s.openend
  let branchTaken ← boolOfByte record.branchTaken
  let bitsat ← UpdatePredictor2bitsat record.PC branchTaken s.bitsat
  let level2 ← UpdatePredictor2level record.PC branchTaken s.level2
  let openend ← UpdatePredictor record.PC branchTaken openend
  return {
    bitsat := bitsat
    level2 := level2
    openend := openend
    numMispred2bitsat := if predDir2bitsat ≠ branchTaken then s.numMispred2bitsat + 1
      else s.numMispred2bitsat
    numMispred2level := if predDir2level ≠ branchTaken then s.numMispred2level + 1
      else s.numMispred2level
    numMispredOpenend := if predDirOpenend ≠ branchTaken then s.numMispredOpenend + 1
      else s.numMispredOpenend }

/-- What the loop does with a record. -/
def resolveRecord (s : Predictors) (record : TraceRecord) : Option Predictors :=
  if record.opType = .BRANCH_COND then resolveBranch s record else some s

/-- A conditional branch has a direction. -/
def TraceRecord.Directed (record : TraceRecord) : Prop :=
  record.opType = .BRANCH_COND → record.branchTaken = 0 ∨ record.branchTaken = 1

instance (record : TraceRecord) : Decidable record.Directed :=
  inferInstanceAs (Decidable (_ → _))

/-- The direction of a conditional branch. -/
def TraceRecord.dir (record : TraceRecord) : Bool := record.branchTaken = 1

theorem boolOfByte_directed {record : TraceRecord} (h : record.Directed)
    (hbranch : record.opType = .BRANCH_COND) :
    boolOfByte record.branchTaken = some record.dir := by
  rcases h hbranch with hdir | hdir <;> rw [TraceRecord.dir, hdir] <;> rfl

/-- The loop gets past a record only if it has a direction where one is needed. -/
theorem directed_of_resolve {s s' : Predictors} {record : TraceRecord}
    (h : resolveRecord s record = some s') : record.Directed := by
  intro hbranch
  rw [resolveRecord, if_pos hbranch, resolveBranch, Option.bind_eq_bind] at h
  rcases Option.bind_eq_some_iff.mp h with ⟨dir₁, -, h⟩
  rcases Option.bind_eq_some_iff.mp h with ⟨dir₂, -, h⟩
  rcases Option.bind_eq_some_iff.mp h with ⟨⟨dir₃, openend⟩, -, h⟩
  -- The predictors have been asked, and the first update needs the direction.
  rcases Option.bind_eq_some_iff.mp h with ⟨dir, hdir, -⟩
  rw [boolOfByte] at hdir
  split at hdir
  · left
    assumption
  · split at hdir
    · right
      assumption
    · cases hdir

/-- Reading a record shortens the file. -/
theorem getNextRecord_length {tracer tracer' : Tracer} {record : TraceRecord}
    (h : GetNextRecord tracer = some (some (record, tracer'))) :
    tracer'.traceFile.length < tracer.traceFile.length := by
  rw [(getNextRecord_sound h).1, List.length_append, TraceRecord.length_bytes]
  omega

/-- The loop. -/
def simulate (tracer : Tracer) (s : Predictors) : Option (Tracer × Predictors) :=
  match _hnext : GetNextRecord tracer with
  | none => none
  | some none => some (tracer, s)
  | some (some (record, tracer')) =>
      match resolveRecord s record with
      | none => none
      | some s' => simulate tracer' s'
termination_by tracer.traceFile.length
decreasing_by exact getNextRecord_length _hnext

/-- The program, up to what it prints. -/
def predictor (traceFile : List (BitVec 8)) : Option (Tracer × Predictors) :=
  simulate (.new traceFile) initPredictors

/-! ### The loop -/

theorem simulate_of_end {tracer : Tracer} (s : Predictors) (h : GetNextRecord tracer = some none) :
    simulate tracer s = some (tracer, s) := by
  rw [simulate]
  split
  · simp_all
  · rfl
  · simp_all

theorem simulate_of_next {tracer tracer' : Tracer} {record : TraceRecord} (s : Predictors)
    (h : GetNextRecord tracer = some (some (record, tracer'))) :
    simulate tracer s = (resolveRecord s record).bind (simulate tracer') := by
  rw [simulate]
  split
  · simp_all
  · simp_all
  · next record₁ tracer₁ hnext =>
      rw [hnext, Option.some.injEq, Option.some.injEq, Prod.mk.injEq] at h
      obtain ⟨rfl, rfl⟩ := h
      cases resolveRecord s record₁ <;> rfl

theorem simulate_of_fail {tracer : Tracer} (s : Predictors) (h : GetNextRecord tracer = none) :
    simulate tracer s = none := by
  rw [simulate]
  split
  · rfl
  · simp_all
  · simp_all

/-- The branches that the predictors resolve. -/
def branchesOf (records : List TraceRecord) : List (UINT32 × Bool) :=
  (records.filter fun record => record.opType = .BRANCH_COND).map
    fun record => (record.PC, record.dir)

/-- The tracer at the end of a trace. -/
def Tracer.end (tracer : Tracer) (records : List TraceRecord) (rest : List (BitVec 8)) : Tracer :=
  { traceFile := rest
    numInst := tracer.numInst + BitVec.ofNat 64 records.length
    numCondBranch := tracer.numCondBranch + BitVec.ofNat 64 (branchesOf records).length }

theorem counted (n : UINT64) (k : Nat) :
    n + 1 + BitVec.ofNat 64 k = n + BitVec.ofNat 64 (k + 1) := by
  rw [BitVec.ofNat_add, BitVec.add_assoc, BitVec.add_comm 1]
  rfl

theorem Tracer.end_past (tracer : Tracer) (record : TraceRecord) (records : List TraceRecord)
    (rest : List (BitVec 8)) :
    (tracer.past record (records.flatMap TraceRecord.bytes ++ rest)).end records rest
      = tracer.end (record :: records) rest := by
  simp only [Tracer.end, Tracer.past, branchesOf, Tracer.mk.injEq, List.length_cons,
    List.length_map, counted, true_and]
  by_cases hbranch : record.opType = .BRANCH_COND
  · rw [if_pos hbranch, List.filter_cons_of_pos (by rwa [decide_eq_true_eq]), List.length_cons,
      counted]
  · rw [if_neg hbranch, List.filter_cons_of_neg (by rwa [decide_eq_true_eq])]

/-- A trace is run record by record. -/
theorem simulate_bytes (records : List TraceRecord) {rest : List (BitVec 8)} {tracer : Tracer}
    (s : Predictors) (hrest : rest.length < 10)
    (hfile : tracer.traceFile = records.flatMap TraceRecord.bytes ++ rest) :
    simulate tracer s = (records.foldlM resolveRecord s).map fun s' =>
      (tracer.end records rest, s') := by
  -- By induction on the records, each of which is one turn of the loop.
  induction records generalizing tracer s with
  | nil =>
      rw [List.flatMap_nil, List.nil_append] at hfile
      subst hfile
      rw [simulate_of_end s (getNextRecord_eq_none_iff.mpr hrest), Tracer.end]
      simp [branchesOf]
  | cons record records ih =>
      have hnext : GetNextRecord tracer = some (some (record,
          tracer.past record (records.flatMap TraceRecord.bytes ++ rest))) :=
        getNextRecord_bytes (by rw [hfile, List.flatMap_cons, List.append_assoc])
      have hend := tracer.end_past record records rest
      rw [simulate_of_next s hnext, List.foldlM_cons]
      cases resolveRecord s record with
      | none => rfl
      | some s' =>
          change simulate _ s' = (records.foldlM resolveRecord s').map _
          rw [ih s' rfl, hend]

/-- What the program runs to its end is a trace whose branches have
    directions. -/
theorem bytes_of_simulate {tracer : Tracer} {s : Predictors} {r : Tracer × Predictors}
    (h : simulate tracer s = some r) : ∃ (records : List TraceRecord) (rest : List (BitVec 8)),
      tracer.traceFile = records.flatMap TraceRecord.bytes ++ rest ∧ rest.length < 10 ∧
      ∀ record ∈ records, record.Directed := by
  -- The recursion is on what is left of the file.
  induction tracer, s using simulate.induct with
  | case1 tracer s hnext => rw [simulate_of_fail s hnext] at h; cases h
  | case2 tracer s hnext =>
      refine ⟨[], tracer.traceFile, rfl, getNextRecord_eq_none_iff.mp hnext, ?_⟩
      intro record hmem
      cases hmem
  | case3 tracer s record tracer' hnext hfail =>
      rw [simulate_of_next s hnext, hfail] at h
      cases h
  | case4 tracer s record tracer' hnext s' hs' ih =>
      rw [simulate_of_next s hnext, hs'] at h
      rcases ih h with ⟨records, rest, hfile, hrest, hdirs⟩
      refine ⟨record :: records, rest, ?_, hrest, ?_⟩
      · rw [(getNextRecord_sound hnext).1, hfile, List.flatMap_cons, List.append_assoc]
      · exact List.forall_mem_cons.mpr ⟨directed_of_resolve hs', hdirs⟩

/-! ### Each predictor alone -/

/-- The predictor with long histories counts, too. -/
theorem yields_countOpenend (branches : List (UINT32 × Bool)) :
    Yields (branches.foldlM countOpenend (InitPredictor, 0)) fun acc =>
      ∃ outs, Sound outs acc.1 := by
  refine Yields.foldlM (fun _ (acc : State × BitVec 64) => ∃ outs, Sound outs acc.1) branches
    ⟨[], sound_initial⟩ fun _ u acc hacc => ?_
  -- Asking the predictor changes the provider it remembers and nothing it has learned.
  rcases hacc with ⟨outs, hs⟩
  have hget : Yields (GetPrediction u.1 acc.1) fun r => Sound outs r.2 := by
    refine (yields_getPrediction u.1 hs.inRange).mono ?_
    rintro ⟨dir, s'⟩ ⟨hs', comp, pred, index, alt, rfl⟩
    exact ⟨hs', hs.folded.congr ⟨rfl, rfl⟩, hs.useCounter⟩
  refine hget.bind fun r hr => ?_
  exact (yields_updatePredictor u.1 u.2 hr).bind fun s' hs' => .ret ⟨_, hs'⟩

/-- The predictors with the counts of each. -/
def Predictors.of (bitsat : CArray 4096 Int × UINT64) (level2 : State2level × UINT64)
    (openend : State × UINT64) : Predictors :=
  { bitsat := bitsat.1
    level2 := level2.1
    openend := openend.1
    numMispred2bitsat := bitsat.2
    numMispred2level := level2.2
    numMispredOpenend := openend.2 }

variable {bitsat bitsat' : CArray 4096 Int × UINT64} {level2 level2' : State2level × UINT64}
  {openend openend' : State × UINT64}

theorem counted_of_count {σ : Type} {get : UINT32 → σ → Option (Bool × σ)}
    {update : UINT32 → Bool → σ → Option σ} {acc acc' : σ × UINT64} {u : UINT32 × Bool}
    (h : count get update acc u = some acc') :
    ∃ dir s s', get u.1 acc.1 = some (dir, s) ∧ update u.1 u.2 s = some s' ∧
      acc' = (s', if dir ≠ u.2 then acc.2 + 1 else acc.2) := by
  rw [count, Option.bind_eq_bind, Option.bind_eq_some_iff] at h
  rcases h with ⟨⟨dir, s⟩, hget, h⟩
  rcases Option.bind_eq_some_iff.mp h with ⟨s', hupdate, h⟩
  obtain rfl := Option.some.inj h
  exact ⟨dir, s, s', hget, hupdate, rfl⟩

/-- What each predictor does alone, they do together. -/
theorem resolveBranch_of (record : TraceRecord) {dir : Bool}
    (hdir : boolOfByte record.branchTaken = some dir)
    (h₁ : count2bitsat bitsat (record.PC, dir) = some bitsat')
    (h₂ : count2level level2 (record.PC, dir) = some level2')
    (h₃ : countOpenend openend (record.PC, dir) = some openend') :
    resolveBranch (.of bitsat level2 openend) record = some (.of bitsat' level2' openend') := by
  rcases counted_of_count h₁ with ⟨dir₁, s₁, s₁', hget₁, hupdate₁, rfl⟩
  rcases counted_of_count h₂ with ⟨dir₂, s₂, s₂', hget₂, hupdate₂, rfl⟩
  rcases counted_of_count h₃ with ⟨dir₃, s₃, s₃', hget₃, hupdate₃, rfl⟩
  rcases Option.map_eq_some_iff.mp hget₁ with ⟨_, hdir₁, hsame₁⟩
  rcases Option.map_eq_some_iff.mp hget₂ with ⟨_, hdir₂, hsame₂⟩
  obtain ⟨rfl, rfl⟩ := Prod.mk.inj hsame₁
  obtain ⟨rfl, rfl⟩ := Prod.mk.inj hsame₂
  rw [resolveBranch, Option.bind_eq_bind]
  -- First all three predictions, then all three updates.
  refine Option.bind_eq_some_iff.mpr ⟨_, hdir₁, ?_⟩
  refine Option.bind_eq_some_iff.mpr ⟨_, hdir₂, ?_⟩
  refine Option.bind_eq_some_iff.mpr ⟨_, hget₃, ?_⟩
  refine Option.bind_eq_some_iff.mpr ⟨_, hdir, ?_⟩
  refine Option.bind_eq_some_iff.mpr ⟨_, hupdate₁, ?_⟩
  refine Option.bind_eq_some_iff.mpr ⟨_, hupdate₂, ?_⟩
  refine Option.bind_eq_some_iff.mpr ⟨_, hupdate₃, ?_⟩
  rfl

theorem resolve_of (records : List TraceRecord) (hdirs : ∀ record ∈ records, record.Directed)
    (h₁ : (branchesOf records).foldlM count2bitsat bitsat = some bitsat')
    (h₂ : (branchesOf records).foldlM count2level level2 = some level2')
    (h₃ : (branchesOf records).foldlM countOpenend openend = some openend') :
    records.foldlM resolveRecord (.of bitsat level2 openend)
      = some (.of bitsat' level2' openend') := by
  -- By induction on the records. Those that are no conditional branches are skipped by all
  -- three predictors alike.
  induction records generalizing bitsat level2 openend with
  | nil =>
      cases h₁
      cases h₂
      cases h₃
      rfl
  | cons record records ih =>
      rcases List.forall_mem_cons.mp hdirs with ⟨hdirected, hdirs⟩
      by_cases hbranch : record.opType = .BRANCH_COND
      · have hbranches : branchesOf (record :: records)
            = (record.PC, record.dir) :: branchesOf records := by
          rw [branchesOf, List.filter_cons_of_pos (by rwa [decide_eq_true_eq])]
          rfl
        rw [hbranches, List.foldlM_cons, Option.bind_eq_bind, Option.bind_eq_some_iff] at h₁ h₂ h₃
        rcases h₁ with ⟨_, hfirst₁, hrest₁⟩
        rcases h₂ with ⟨_, hfirst₂, hrest₂⟩
        rcases h₃ with ⟨_, hfirst₃, hrest₃⟩
        rw [List.foldlM_cons, resolveRecord, if_pos hbranch,
          resolveBranch_of record (boolOfByte_directed hdirected hbranch) hfirst₁ hfirst₂ hfirst₃]
        exact ih hdirs hrest₁ hrest₂ hrest₃
      · have hbranches : branchesOf (record :: records) = branchesOf records := by
          rw [branchesOf, List.filter_cons_of_neg (by rwa [decide_eq_true_eq])]
          rfl
        rw [hbranches] at h₁ h₂ h₃
        rw [List.foldlM_cons, resolveRecord, if_neg hbranch]
        exact ih hdirs h₁ h₂ h₃

/-- The program from the runs of its predictors. -/
theorem predictor_of (records : List TraceRecord) {rest : List (BitVec 8)}
    (hrest : rest.length < 10) (hdirs : ∀ record ∈ records, record.Directed)
    (h₁ : (branchesOf records).foldlM count2bitsat (InitPredictor2bitsat, 0) = some bitsat)
    (h₂ : (branchesOf records).foldlM count2level (InitPredictor2level, 0) = some level2)
    (h₃ : (branchesOf records).foldlM countOpenend (InitPredictor, 0) = some openend) :
    predictor (records.flatMap TraceRecord.bytes ++ rest)
      = some ((Tracer.new (records.flatMap TraceRecord.bytes ++ rest)).end records rest,
        .of bitsat level2 openend) := by
  have hrun := resolve_of records hdirs h₁ h₂ h₃
  rw [predictor, simulate_bytes records _ hrest rfl]
  change (records.foldlM resolveRecord (.of (InitPredictor2bitsat, 0) (InitPredictor2level, 0)
    (InitPredictor, 0))).map _ = _
  rw [hrun]
  rfl

/-! ### Results -/

/-- The program runs a file to its end exactly if it consists of records, up to
    less than one at the end, and each conditional branch has a direction. -/
theorem predictor_accepts_iff (traceFile : List (BitVec 8)) :
    (∃ r, predictor traceFile = some r) ↔
      ∃ (records : List TraceRecord) (rest : List (BitVec 8)),
        traceFile = records.flatMap TraceRecord.bytes ++ rest ∧ rest.length < 10 ∧
        ∀ record ∈ records, record.Directed := by
  constructor
  · rintro ⟨r, hr⟩
    exact bytes_of_simulate hr
  · -- All three predictors run over any sequence of branches, so the program does too.
    rintro ⟨records, rest, rfl, hrest, hdirs⟩
    rcases yields_count2bitsat (branchesOf records) with ⟨bitsat, h₁, -⟩
    rcases yields_count2level (branchesOf records) with ⟨level2, h₂, -⟩
    rcases yields_countOpenend (branchesOf records) with ⟨openend, h₃, -⟩
    exact ⟨_, predictor_of records hrest hdirs h₁ h₂ h₃⟩

/-- Each predictor runs over the conditional branches of a trace as if it were
    alone. -/
theorem predictor_alone (records : List TraceRecord) (rest : List (BitVec 8))
    (hrest : rest.length < 10) (hdirs : ∀ record ∈ records, record.Directed) :
    Yields (predictor (records.flatMap TraceRecord.bytes ++ rest)) fun r =>
      r.1.numInst = BitVec.ofNat 64 records.length ∧
      r.1.numCondBranch = BitVec.ofNat 64 (branchesOf records).length ∧
      (branchesOf records).foldlM count2bitsat (InitPredictor2bitsat, 0)
        = some (r.2.bitsat, r.2.numMispred2bitsat) ∧
      (branchesOf records).foldlM count2level (InitPredictor2level, 0)
        = some (r.2.level2, r.2.numMispred2level) ∧
      (branchesOf records).foldlM countOpenend (InitPredictor, 0)
        = some (r.2.openend, r.2.numMispredOpenend) := by
  rcases yields_count2bitsat (branchesOf records) with ⟨bitsat, h₁, -⟩
  rcases yields_count2level (branchesOf records) with ⟨level2, h₂, -⟩
  rcases yields_countOpenend (branchesOf records) with ⟨openend, h₃, -⟩
  refine ⟨_, predictor_of records hrest hdirs h₁ h₂ h₃, ?_, ?_, h₁, h₂, h₃⟩
  · exact BitVec.zero_add _
  · exact BitVec.zero_add _

/-- A loop that is left after three rounds, with the load and the call of its
    body. The last byte of a load is no direction. -/
def loopRecords : List TraceRecord :=
  [⟨0x1000, .LOAD, 2, 0⟩, ⟨0x1004, .BRANCH_COND, 1, 0x1000⟩,
    ⟨0x1000, .LOAD, 2, 0⟩, ⟨0x1004, .BRANCH_COND, 1, 0x1000⟩,
    ⟨0x1000, .LOAD, 2, 0⟩, ⟨0x1004, .BRANCH_COND, 0, 0x1000⟩,
    ⟨0x1008, .CALL_DIRECT, 1, 0x2000⟩, ⟨0x2000, .BRANCH_COND, 0, 0x3000⟩]

/-- The branches of the loop and of what it calls, and a piece of another
    record. -/
theorem predictor_alone_loop :
    Yields (predictor (loopRecords.flatMap TraceRecord.bytes ++ [0, 0])) fun r =>
      r.1.numInst = 8 ∧ r.1.numCondBranch = 4 ∧
      [(0x1004, true), (0x1004, true), (0x1004, false), (0x2000, false)].foldlM count2bitsat
        (InitPredictor2bitsat, 0) = some (r.2.bitsat, r.2.numMispred2bitsat) ∧
      [(0x1004, true), (0x1004, true), (0x1004, false), (0x2000, false)].foldlM count2level
        (InitPredictor2level, 0) = some (r.2.level2, r.2.numMispred2level) ∧
      [(0x1004, true), (0x1004, true), (0x1004, false), (0x2000, false)].foldlM countOpenend
        (InitPredictor, 0) = some (r.2.openend, r.2.numMispredOpenend) := by
  have hbranches : branchesOf loopRecords
      = [(0x1004, true), (0x1004, true), (0x1004, false), (0x2000, false)] := by decide
  have h := predictor_alone loopRecords [0, 0] (by decide) (by decide)
  rw [hbranches] at h
  exact h

/-- The outcomes of the branches that share a counter of the bimodal
    predictor. -/
def bitsatOutcomes (t : Fin 4096) (branches : List (UINT32 × Bool)) : List Bool :=
  (branches.filter fun u => (bitsatIndex u.1).toNat = t.val).map Prod.snd

theorem trained_bimodal (t : Fin 4096) (es : List (Event Unit (Fin 4096))) :
    bimodal.trained t 0 es = (es.filter fun e => e.second = t).map fun e => e.dir := by
  induction es with
  | nil => rfl
  | cons e es ih =>
      have hpattern : bimodal.pattern e.first es = 0 :=
        Nat.lt_one_iff.mp (bimodal.pattern_lt e.first es)
      rw [TwoLevel.Shape.trained, hpattern, ih]
      by_cases ht : e.second = t
      · rw [if_pos ⟨ht, rfl⟩, List.filter_cons_of_pos (by rwa [decide_eq_true_eq]), List.map_cons]
      · rw [if_neg fun h => ht h.1, List.filter_cons_of_neg (by rwa [decide_eq_true_eq])]

theorem count_trained_bimodal (t : Fin 4096) (branches : List (UINT32 × Bool)) (dir : Bool) :
    (bimodal.trained t 0 (branches.map bitsatEvent).reverse).count dir
      = (bitsatOutcomes t branches).count dir := by
  rw [trained_bimodal, List.filter_reverse, List.map_reverse, List.count_reverse, List.filter_map,
    List.map_map, bitsatOutcomes]
  have hsame : (fun u : UINT32 × Bool => decide ((bitsatIndex u.1).toNat = t.val))
      = (fun e => decide (e.second = t)) ∘ bitsatEvent := by
    funext u
    rw [Function.comp_apply, decide_eq_decide, Fin.ext_iff]
    rfl
  rw [hsame]
  rfl

theorem allMissed_bimodal_le (branches : List (UINT32 × Bool)) :
    bimodal.allMissed (branches.map bitsatEvent).reverse ≤ ∑ t, min
      (1 + 2 * (bitsatOutcomes t branches).count false)
      (2 * (bitsatOutcomes t branches).count true) := by
  refine (TwoLevel.Shape.allMissed_le _).trans (Finset.sum_le_sum fun t _ => ?_)
  -- There is one counter for each index.
  have hone : Finset.range (2 ^ bimodal.bits) = {0} := rfl
  have hstart : bimodal.remaining true bimodal.start = 1 := rfl
  have hstart' : bimodal.remaining false bimodal.start = 0 := rfl
  rw [hone, Finset.sum_singleton, TwoLevel.Shape.allowance, hstart, hstart', Nat.zero_add,
    count_trained_bimodal, count_trained_bimodal]

/-- What is printed for the two predictors with small counters is at most what
    each counter may mispredict against the better of the two directions. -/
theorem predictor_mispredicts_le (records : List TraceRecord) (rest : List (BitVec 8))
    (hrest : rest.length < 10) (hdirs : ∀ record ∈ records, record.Directed) :
    Yields (predictor (records.flatMap TraceRecord.bytes ++ rest)) fun r =>
      r.2.numMispred2bitsat.toNat ≤ ∑ t, min
        (1 + 2 * (bitsatOutcomes t (branchesOf records)).count false)
        (2 * (bitsatOutcomes t (branchesOf records)).count true) ∧
      r.2.numMispred2level.toNat ≤ ∑ t, ∑ h ∈ Finset.range 64, pap.allowance
        (pap.trained t h ((branchesOf records).map papEvent).reverse) := by
  rcases yields_count2bitsat (branchesOf records) with ⟨bitsat, h₁, -, hcount₁⟩
  rcases yields_count2level (branchesOf records) with ⟨level2, h₂, -, hcount₂⟩
  rcases yields_countOpenend (branchesOf records) with ⟨openend, h₃, -⟩
  refine ⟨_, predictor_of records hrest hdirs h₁ h₂ h₃, ?_, ?_⟩
  · change bitsat.2.toNat ≤ _
    rw [hcount₁, BitVec.toNat_ofNat]
    exact (Nat.mod_le _ _).trans (allMissed_bimodal_le _)
  · change level2.2.toNat ≤ _
    rw [hcount₂, BitVec.toNat_ofNat]
    exact (Nat.mod_le _ _).trans (TwoLevel.Shape.allMissed_le _)

/-- The branches of the loop and of what it calls. -/
theorem predictor_mispredicts_le_loop :
    Yields (predictor (loopRecords.flatMap TraceRecord.bytes ++ [])) fun r =>
      r.2.numMispred2bitsat.toNat ≤ ∑ t, min
        (1 + 2 * (bitsatOutcomes t [(0x1004, true), (0x1004, true), (0x1004, false),
          (0x2000, false)]).count false)
        (2 * (bitsatOutcomes t [(0x1004, true), (0x1004, true), (0x1004, false),
          (0x2000, false)]).count true) ∧
      r.2.numMispred2level.toNat ≤ ∑ t, ∑ h ∈ Finset.range 64, pap.allowance
        (pap.trained t h ([(0x1004, true), (0x1004, true), (0x1004, false),
          (0x2000, false)].map papEvent).reverse) := by
  have hbranches : branchesOf loopRecords
      = [(0x1004, true), (0x1004, true), (0x1004, false), (0x2000, false)] := by decide
  have h := predictor_mispredicts_le loopRecords [] (by decide) (by decide)
  rw [hbranches] at h
  exact h

end Predictor

end MicroArch
