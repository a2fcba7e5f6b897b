import CloudberryEtl.Change
import CloudberryEtl.Result

/-! Pipeline fences and node checkpoints of `target::checkpoint`. The two tables `pipeline_state` and
`node_checkpoints` are partial maps on their primary keys; a statement that fails leaves them as they were. -/
namespace CloudberryEtl.Checkpoint
open Change Result

abbrev PipelineId := Nat

structure PipelineFence where
  pipelineId : PipelineId
  topologyGeneration : Nat
  fencingToken : Int
  deriving DecidableEq, Repr

structure CheckpointKey where
  pipelineId : PipelineId
  topologyGeneration : Nat
  nodeId : Int
  deriving DecidableEq, Repr

structure NodeCheckpoint where
  key : CheckpointKey
  systemIdentifier : Nat
  timeline : Nat
  slotName : String
  appliedLsn : PgLsn
  deriving DecidableEq, Repr

structure StoredNodeCheckpoint where
  checkpoint : NodeCheckpoint
  fencingToken : Int
  deriving DecidableEq, Repr

inductive AdvanceOutcome where
  | inserted
  | unchanged
  | advanced (previousLsn : PgLsn)
  deriving DecidableEq, Repr

/- `UnexpectedWriteCount` and `InvalidPersistedValue` have no counterpart: a primary key holds one row and the
columns hold only what this module writes. -/
inductive CheckpointError where
  | generationOutOfRange (generation : Nat)
  | invalidFencingToken
  | invalidTimeline
  | invalidSlotName
  | missingFence
  | staleFence (expectedGeneration : Nat) (expectedToken : Int) (actualGeneration : Nat) (actualToken : Int)
  | fenceKeyMismatch
  | sourceIdentityChanged
  | lsnRegression (current proposed : PgLsn)
  deriving DecidableEq, Repr

structure StoredFence where
  topologyGeneration : Nat
  fencingToken : Int
  deriving DecidableEq, Repr

structure CheckpointTables where
  pipelineState : PipelineId → Option StoredFence
  nodeCheckpoints : CheckpointKey → Option StoredNodeCheckpoint

def PipelineFence.stored (fence : PipelineFence) : StoredFence := ⟨fence.topologyGeneration,fence.fencingToken⟩

def CheckpointTables.putFence (tables : CheckpointTables) (fence : PipelineFence) : CheckpointTables :=
  {tables with pipelineState := Function.update tables.pipelineState fence.pipelineId (some fence.stored)}

def CheckpointTables.putCheckpoint (tables : CheckpointTables) (stored : StoredNodeCheckpoint) : CheckpointTables :=
  {tables with nodeCheckpoints := Function.update tables.nodeCheckpoints stored.checkpoint.key (some stored)}

def databaseGeneration (generation : Nat) : Except CheckpointError Nat :=
  if generation < 2 ^ 63 then .ok generation else .error (.generationOutOfRange generation)

def validateFence (fence : PipelineFence) : Except CheckpointError Unit := do
  let _ ← databaseGeneration fence.topologyGeneration
  if fence.fencingToken ≤ 0 then .error .invalidFencingToken else .ok ()

def validateCheckpoint (checkpoint : NodeCheckpoint) : Except CheckpointError Unit := do
  let _ ← databaseGeneration checkpoint.key.topologyGeneration
  if checkpoint.timeline = 0 then .error .invalidTimeline
  else if checkpoint.slotName = "" ∨ '\x00' ∈ checkpoint.slotName.toList then .error .invalidSlotName
  else .ok ()

def staleFence (expected : PipelineFence) (actual : StoredFence) : CheckpointError :=
  .staleFence expected.topologyGeneration expected.fencingToken actual.topologyGeneration actual.fencingToken

-- INSERT … ON CONFLICT DO UPDATE … WHERE both components are at least the stored ones.
def activatePipelineFence (tables : CheckpointTables) (fence : PipelineFence) :
    Except CheckpointError CheckpointTables := do
  let _ ← databaseGeneration fence.topologyGeneration
  validateFence fence
  match tables.pipelineState fence.pipelineId with
  | none => .ok (tables.putFence fence)
  | some current =>
      if current.topologyGeneration ≤ fence.topologyGeneration ∧ current.fencingToken ≤ fence.fencingToken then
        .ok (tables.putFence fence)
      else .error (staleFence fence current)

def loadNodeCheckpoint (tables : CheckpointTables) (key : CheckpointKey) :
    Except CheckpointError (Option StoredNodeCheckpoint) := do
  let _ ← databaseGeneration key.topologyGeneration
  .ok (tables.nodeCheckpoints key)

def lockPipelineFence (tables : CheckpointTables) (expected : PipelineFence) : Except CheckpointError Unit := do
  let _ ← databaseGeneration expected.topologyGeneration
  validateFence expected
  match tables.pipelineState expected.pipelineId with
  | none => .error .missingFence
  | some actual =>
      if expected.topologyGeneration = actual.topologyGeneration ∧ expected.fencingToken = actual.fencingToken then
        .ok ()
      else .error (staleFence expected actual)

def ensureSameIdentity (current proposed : NodeCheckpoint) : Except CheckpointError Unit :=
  if current.key = proposed.key ∧ current.systemIdentifier = proposed.systemIdentifier ∧
      current.timeline = proposed.timeline ∧ current.slotName = proposed.slotName then .ok ()
  else .error .sourceIdentityChanged

def checkAdvance (current : Option StoredNodeCheckpoint) (proposed : NodeCheckpoint) :
    Except CheckpointError AdvanceOutcome := do
  validateCheckpoint proposed
  match current with
  | none => .ok .inserted
  | some current => do
      ensureSameIdentity current.checkpoint proposed
      if proposed.appliedLsn < current.checkpoint.appliedLsn then
        .error (.lsnRegression current.checkpoint.appliedLsn proposed.appliedLsn)
      else if proposed.appliedLsn = current.checkpoint.appliedLsn then .ok .unchanged
      else .ok (.advanced current.checkpoint.appliedLsn)

def checkpointReached (current : Option StoredNodeCheckpoint) (required : NodeCheckpoint) :
    Except CheckpointError Bool := do
  validateCheckpoint required
  match current with
  | none => .ok false
  | some current => do
      ensureSameIdentity current.checkpoint required
      .ok (required.appliedLsn ≤ current.checkpoint.appliedLsn)

def writtenCheckpoint (current : Option StoredNodeCheckpoint) (fence : PipelineFence) (proposed : NodeCheckpoint) :
    StoredNodeCheckpoint :=
  match current with
  | none => ⟨proposed,fence.fencingToken⟩
  | some current => ⟨{current.checkpoint with appliedLsn := proposed.appliedLsn},fence.fencingToken⟩

def advanceNodeCheckpoint (tables : CheckpointTables) (fence : PipelineFence) (proposed : NodeCheckpoint) :
    Except CheckpointError (AdvanceOutcome × CheckpointTables) := do
  validateCheckpoint proposed
  if proposed.key.pipelineId ≠ fence.pipelineId ∨ proposed.key.topologyGeneration ≠ fence.topologyGeneration then
    .error .fenceKeyMismatch
  else
    lockPipelineFence tables fence
    let current := tables.nodeCheckpoints proposed.key
    let outcome ← checkAdvance current proposed
    .ok (outcome,tables.putCheckpoint (writtenCheckpoint current fence proposed))

theorem lockSource {tables fence} (ok : lockPipelineFence tables fence = .ok ()) :
    tables.pipelineState fence.pipelineId = some fence.stored ∧ 0 < fence.fencingToken := by
  obtain ⟨_,_,ok⟩ := bindOk.mp ok
  obtain ⟨_,valid,ok⟩ := bindOk.mp ok
  obtain ⟨_,_,positive⟩ := bindOk.mp valid
  obtain ⟨positive,_⟩ := iteOk.mp positive
  cases h : tables.pipelineState fence.pipelineId with
  | none => simp [h] at ok
  | some actual =>
    simp only [h] at ok
    split at ok <;> try contradiction
    rename_i same
    refine ⟨?_,by omega⟩
    rw [PipelineFence.stored,same.1,same.2]

theorem activateSource {tables fence tables'} (ok : activatePipelineFence tables fence = .ok tables') :
    (∀ current, tables.pipelineState fence.pipelineId = some current →
      current.topologyGeneration ≤ fence.topologyGeneration ∧ current.fencingToken ≤ fence.fencingToken) ∧
    tables' = tables.putFence fence := by
  obtain ⟨_,_,ok⟩ := bindOk.mp ok
  obtain ⟨_,_,ok⟩ := bindOk.mp ok
  split at ok
  · rename_i absent
    cases Except.ok.inj ok
    exact ⟨by simp [absent],rfl⟩
  · rename_i current present
    split at ok <;> try contradiction
    rename_i newer
    cases Except.ok.inj ok
    refine ⟨fun other found => ?_,rfl⟩
    cases Option.some.inj (present.symm.trans found)
    exact newer

theorem checkAdvanceSource {current proposed outcome} (ok : checkAdvance (some current) proposed = .ok outcome) :
    current.checkpoint.key = proposed.key ∧ current.checkpoint.systemIdentifier = proposed.systemIdentifier ∧
    current.checkpoint.timeline = proposed.timeline ∧ current.checkpoint.slotName = proposed.slotName ∧
    current.checkpoint.appliedLsn ≤ proposed.appliedLsn := by
  obtain ⟨_,_,ok⟩ := bindOk.mp ok
  obtain ⟨_,identity,ok⟩ := bindOk.mp ok
  unfold ensureSameIdentity at identity
  split at identity <;> try contradiction
  rename_i same
  obtain ⟨forward,_⟩ := iteOk.mp ok
  exact ⟨same.1,same.2.1,same.2.2.1,same.2.2.2,Nat.le_of_not_lt forward⟩

theorem advanceSource {tables fence proposed outcome tables'}
    (ok : advanceNodeCheckpoint tables fence proposed = .ok (outcome,tables')) :
    proposed.key.pipelineId = fence.pipelineId ∧ proposed.key.topologyGeneration = fence.topologyGeneration ∧
    lockPipelineFence tables fence = .ok () ∧
    checkAdvance (tables.nodeCheckpoints proposed.key) proposed = .ok outcome ∧
    tables' = tables.putCheckpoint (writtenCheckpoint (tables.nodeCheckpoints proposed.key) fence proposed) := by
  obtain ⟨_,_,ok⟩ := bindOk.mp ok
  obtain ⟨sameKey,ok⟩ := iteOk.mp ok
  obtain ⟨_,locked,ok⟩ := bindOk.mp ok
  obtain ⟨result,advanced,ok⟩ := bindOk.mp ok
  cases Except.ok.inj ok
  push Not at sameKey
  exact ⟨sameKey.1,sameKey.2,locked,advanced,rfl⟩

theorem advanceWritten {tables fence proposed outcome tables'}
    (ok : advanceNodeCheckpoint tables fence proposed = .ok (outcome,tables')) :
    tables'.nodeCheckpoints proposed.key = some ⟨proposed,fence.fencingToken⟩ := by
  obtain ⟨_,_,_,checked,rfl⟩ := advanceSource ok
  cases current : tables.nodeCheckpoints proposed.key with
  | none => simp [CheckpointTables.putCheckpoint,writtenCheckpoint]
  | some previous =>
    rw [current] at checked
    obtain ⟨key,system,timeline,slot,_⟩ := checkAdvanceSource checked
    have same : {previous.checkpoint with appliedLsn := proposed.appliedLsn} = proposed := by
      cases proposed
      simp_all
    simp [CheckpointTables.putCheckpoint,writtenCheckpoint,same]

theorem advanceElsewhere {tables fence proposed outcome tables'}
    (ok : advanceNodeCheckpoint tables fence proposed = .ok (outcome,tables')) {key : CheckpointKey}
    (apart : key ≠ proposed.key) : tables'.nodeCheckpoints key = tables.nodeCheckpoints key := by
  obtain ⟨_,_,_,checked,rfl⟩ := advanceSource ok
  have written : (writtenCheckpoint (tables.nodeCheckpoints proposed.key) fence proposed).checkpoint.key = proposed.key := by
    cases current : tables.nodeCheckpoints proposed.key with
    | none => rfl
    | some previous =>
      rw [current] at checked
      exact (checkAdvanceSource checked).1
  simp [CheckpointTables.putCheckpoint,written,apart]

end CloudberryEtl.Checkpoint
