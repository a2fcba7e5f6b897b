import CloudberryEtl.Activation

/-! Cleanup of interrupted loads and garbage collection of quarantined tables, from `target::snapshot::cleanup`. -/
namespace CloudberryEtl.Cleanup
open Schema Change TablePlan StagedApply KeyedTable Result TargetStore Manifest Activation
open Checkpoint hiding databaseGeneration

structure SnapshotGroupCleanupRequest where
  currentFence : PipelineFence
  groupFence : PipelineFence
  snapshotGroupId : Uuid
  deriving DecidableEq, Repr

structure SnapshotCleanupOutcome where
  snapshotGroupId : Uuid
  droppedShadows : List QualifiedName
  deriving DecidableEq, Repr

-- The retention in nanoseconds, as `Duration` holds it.
structure QuarantineGcPolicy where
  retention : Option Nat
  maxTables : Nat
  deriving DecidableEq, Repr

structure QuarantineGcOutcome where
  disabled : Bool
  dropped : List QualifiedName
  deriving DecidableEq, Repr

def QuarantineGcPolicy.validate (policy : QuarantineGcPolicy) : Except SnapshotTargetError Unit :=
  if policy.maxTables = 0 then .error .invalidQuarantineBatchSize
  else if policy.retention = some 0 then .error .invalidQuarantineRetention
  else .ok ()

def QuarantineGcPolicy.retentionMicros (policy : QuarantineGcPolicy) : Except SnapshotTargetError (Option Nat) := do
  policy.validate
  match policy.retention with
  | none => .ok none
  | some retention =>
    let micros := retention / 1000
    if 2 ^ 63 ≤ micros then .error .invalidQuarantineRetention else .ok (some (max micros 1))

def validateCleanupRequest (request : SnapshotGroupCleanupRequest) : Except SnapshotTargetError Unit :=
  if request.snapshotGroupId = Uuid.nil ∨ request.currentFence.fencingToken ≤ 0 ∨
      request.groupFence.fencingToken ≤ 0 ∨ request.currentFence.pipelineId ≠ request.groupFence.pipelineId ∨
      request.currentFence.topologyGeneration < request.groupFence.topologyGeneration ∨
      request.currentFence.fencingToken < request.groupFence.fencingToken then
    .error .invalidSnapshotCleanupFence
  else .ok ()

def validateGroupFence (actual : PipelineFence) (request : SnapshotGroupCleanupRequest) :
    Except SnapshotTargetError Unit :=
  if actual = request.groupFence then .ok ()
  else .error (.snapshotGroupFenceMismatch request.snapshotGroupId request.groupFence.topologyGeneration
    request.groupFence.fencingToken actual.topologyGeneration actual.fencingToken)

def validateShadowOwnership (record : ManagedTableRecord) (group : Uuid) (groupFence : PipelineFence)
    (table : SnapshotActivationTable) : Except SnapshotTargetError Unit :=
  let name := table.shadow.display
  if record.pipelineId ≠ groupFence.pipelineId then
    .error (.managedByOtherPipeline name groupFence.pipelineId record.pipelineId)
  else if record.snapshotGroupId ≠ some group ∨ record.sourceRelationId ≠ table.sourceRelationId ∨
      record.tableGeneration ≠ table.tableGeneration ∨ record.schemaFingerprint ≠ table.schemaFingerprint ∨
      record.state ≠ .shadow ∨ record.fencingToken ≠ groupFence.fencingToken then
    .error (.snapshotTableManifestMismatch group name)
  else if record.relationOid = none then .error (.missingRelationIdentity name)
  else .ok ()

def ownedShadow (store : Store) (stored : StoredSnapshotGroup) (group : Uuid) (table : SnapshotActivationTable) :
    Except SnapshotTargetError (Option QualifiedName) :=
  match loadRelationState store table.shadow with
  | .vacant => .ok none
  | .managedObjectMissing _ => .error (.managedRelationMissing table.shadow.display)
  | .unmanaged => .error (.existingUnmanagedTable table.shadow.display)
  | .managed record => do
    validateShadowOwnership record group stored.request.fence table
    validateRelationIdentity store table.shadow record
    .ok (some table.shadow)

def isGroupShadow (pipelineId : PipelineId) (group : Uuid) (row : ManagedTable) : Bool :=
  row.record.pipelineId = pipelineId ∧ row.record.snapshotGroupId = some group ∧ row.record.state = .shadow

def dropShadow (pipelineId : PipelineId) (group : Uuid) (store : Store) (shadow : QualifiedName) :
    Except SnapshotTargetError Store := do
  let store ← dropTable store shadow
  deleteManaged store (fun row => row.name = shadow && isGroupShadow pipelineId group row)

def deleteManifest (store : Store) (stored : StoredSnapshotGroup) (pipelineId : PipelineId) (group : Uuid) :
    Except SnapshotTargetError Store := do
  if (store.groupTables.filter (fun row => row.snapshotGroupId = group)).length ≠ stored.request.tables.length then
    .error (.corruptSnapshotGroupManifest group)
  else if (store.groupNodes.filter (fun row => row.snapshotGroupId = group)).length ≠
      stored.request.initialCheckpoints.length then .error (.corruptSnapshotGroupManifest group)
  else
    let _ ← databaseGeneration stored.request.fence.topologyGeneration
    let selected := fun (header : SnapshotGroup) => decide (header.snapshotGroupId = group ∧
      header.fence = {stored.request.fence with pipelineId := pipelineId} ∧ header.state = .loading)
    ensureOneMetadataRow (store.snapshotGroups.filter selected).length
    .ok {store with
      groupTables := store.groupTables.filter (fun row => row.snapshotGroupId ≠ group)
      groupNodes := store.groupNodes.filter (fun row => row.snapshotGroupId ≠ group)
      snapshotGroups := store.snapshotGroups.filter (fun header => !selected header)}

section Platform
variable (platform : Platform)

def cleanupLoadingSnapshotGroupLocked (store : Store) (request : SnapshotGroupCleanupRequest) :
    Except SnapshotTargetError (SnapshotCleanupOutcome × Store) := do
  let group := request.snapshotGroupId
  let pipelineId := request.currentFence.pipelineId
  let stored ← loadSnapshotGroup platform store group
  validateGroupFence stored.request.fence request
  if stored.state ≠ .loading then .error (.snapshotGroupNotLoading group)
  else
    let owned ← stored.request.tables.mapM (ownedShadow store stored group)
    let shadows := owned.filterMap id
    let manifested := stored.request.tables.map SnapshotActivationTable.shadow
    match (store.managedTables.filter (isGroupShadow pipelineId group)).find? (fun row => row.name ∉ manifested) with
    | some row => .error (.unexpectedSnapshotShadow row.name.display)
    | none =>
      let store ← shadows.foldlM (dropShadow pipelineId group) store
      let store ← deleteManifest store stored pipelineId group
      .ok (⟨group,shadows⟩,store)

def cleanupLoadingSnapshotGroup (target : Target) (request : SnapshotGroupCleanupRequest) :
    Except SnapshotTargetError (SnapshotCleanupOutcome × Target) := do
  validateCleanupRequest request
  (lockPipelineFence target.checkpoints request.currentFence).mapError .checkpoint
  let (outcome,store) ← cleanupLoadingSnapshotGroupLocked platform target.store request
  .ok (outcome,{target with store := store})

def staleOrder (left right : SnapshotGroup) : Prop :=
  left.fence.topologyGeneration < right.fence.topologyGeneration ∨
    (left.fence.topologyGeneration = right.fence.topologyGeneration ∧
      (left.fence.fencingToken < right.fence.fencingToken ∨
        (left.fence.fencingToken = right.fence.fencingToken ∧ left.snapshotGroupId ≤ right.snapshotGroupId)))

instance : DecidableRel staleOrder := fun left right => by unfold staleOrder; infer_instance

def staleGroups (store : Store) (fence : PipelineFence) : List SnapshotGroup :=
  (store.snapshotGroups.filter (fun header => header.fence.pipelineId = fence.pipelineId ∧ header.state = .loading ∧
    (header.fence.topologyGeneration < fence.topologyGeneration ∨
      (header.fence.topologyGeneration = fence.topologyGeneration ∧
        header.fence.fencingToken < fence.fencingToken)))).insertionSort staleOrder

def cleanupStaleGroup (currentFence : PipelineFence) (state : List SnapshotCleanupOutcome × Store)
    (header : SnapshotGroup) : Except SnapshotTargetError (List SnapshotCleanupOutcome × Store) := do
  let request : SnapshotGroupCleanupRequest := ⟨currentFence,header.fence,header.snapshotGroupId⟩
  validateCleanupRequest request
  let (outcome,store) ← cleanupLoadingSnapshotGroupLocked platform state.2 request
  .ok (state.1 ++ [outcome],store)

def cleanupStaleSnapshotGroups (target : Target) (currentFence : PipelineFence) :
    Except SnapshotTargetError (List SnapshotCleanupOutcome × Target) := do
  if currentFence.fencingToken ≤ 0 then .error (.checkpoint .invalidFencingToken)
  else
    let _ ← databaseGeneration currentFence.topologyGeneration
    (lockPipelineFence target.checkpoints currentFence).mapError .checkpoint
    let (outcomes,store) ← (staleGroups target.store currentFence).foldlM (cleanupStaleGroup platform currentFence)
      ([],target.store)
    .ok (outcomes,{target with store := store})

def recordedOrder (left right : Reconciliation) : Prop :=
  left.recordedAt < right.recordedAt ∨ (left.recordedAt = right.recordedAt ∧
    (left.snapshotGroupId < right.snapshotGroupId ∨ (left.snapshotGroupId = right.snapshotGroupId ∧
      orderedLe platform left.original right.original)))

instance : DecidableRel (recordedOrder platform) := fun left right => by unfold recordedOrder; infer_instance

-- The settings bound the retention by 3650 days. Far above that `clock_timestamp()` minus the retention leaves the range
-- of a timestamp and PostgreSQL fails the statement, where no row would be old enough.
def gcCandidates (now retentionMicros : Nat) (store : Store) (fence : PipelineFence) (maxTables : Nat) :
    List Reconciliation :=
  ((store.reconciliationLog.filter (fun row => row.pipelineId = fence.pipelineId ∧ row.purgedAt = none ∧
    row.quarantineRelationOid.isSome ∧ row.previousFencingToken.isSome ∧
    row.recordedAt + retentionMicros ≤ now)).insertionSort (recordedOrder platform)).take maxTables

/- `quarantine_record_from_row` and `validate_quarantine_record`: the identity and the tokens of the record. -/
def validateQuarantineRecord (fence : PipelineFence) (row : Reconciliation) :
    Except SnapshotTargetError (Nat × Int) :=
  let name := row.quarantine.display
  match row.quarantineRelationOid.filter (fun oid => 0 < oid) with
  | none => .error (.missingRelationIdentity name)
  | some oid =>
    match row.previousFencingToken.filter (fun token => 0 < token) with
    | none => .error (.quarantineRecordMismatch name)
    | some previous =>
      if row.snapshotGroupId = Uuid.nil ∨ row.schemaFingerprint = "" ∨ row.fencingToken ≤ 0 then
        .error (.quarantineRecordMismatch name)
      else if row.pipelineId ≠ fence.pipelineId ∨ fence.topologyGeneration < row.topologyGeneration ∨
          fence.fencingToken < row.fencingToken then .error .invalidSnapshotCleanupFence
      else .ok (oid,previous)

def quarantinedRecord (store : Store) (row : Reconciliation) : Except SnapshotTargetError ManagedTableRecord :=
  match loadRelationState store row.quarantine with
  | .managed record =>
    if record.state = .quarantined then .ok record else .error (.quarantineMetadataMismatch row.quarantine.display)
  | _ => .error (.missingQuarantineMetadata row.quarantine.display)

def purge (now : Nat) (fence : PipelineFence) (row : Reconciliation) (store : Store) :
    Except SnapshotTargetError Store := do
  let selected := fun (other : Reconciliation) => decide (other.snapshotGroupId = row.snapshotGroupId ∧
    other.original = row.original ∧ other.quarantine = row.quarantine ∧ other.purgedAt = none)
  ensureOneMetadataRow (store.reconciliationLog.filter selected).length
  .ok {store with reconciliationLog := store.reconciliationLog.map (fun other => if selected other then
    {other with purgedAt := some now, purgedByFencingToken := some fence.fencingToken} else other)}

def collectQuarantine (now : Nat) (fence : PipelineFence) (state : List QualifiedName × Store)
    (row : Reconciliation) : Except SnapshotTargetError (List QualifiedName × Store) := do
  let store := state.2
  let name := row.quarantine.display
  let (oid,previous) ← validateQuarantineRecord fence row
  let old : ManagedTableRecord := ⟨row.pipelineId,row.previousSnapshotGroupId,some oid,row.sourceRelationId,
    row.tableGeneration,row.schemaFingerprint,.quarantined,previous⟩
  let expected ← quarantineName platform row.original old
  if expected ≠ row.quarantine then .error (.quarantineRecordMismatch name)
  else
    let managed ← quarantinedRecord store row
    if managed ≠ {old with fencingToken := row.fencingToken} then .error (.quarantineMetadataMismatch name)
    else
      validateRelationIdentity store row.quarantine managed
      if (store.reconciliationLog.filter (fun other =>
          other.quarantine = row.quarantine ∧ other.purgedAt = none)).length ≠ 1 then
        .error (.quarantineRecordMismatch name)
      else
        let store ← dropTable store row.quarantine
        let store ← deleteManaged store (fun other => other.name = row.quarantine ∧
          other.record.pipelineId = fence.pipelineId ∧ other.record.state = .quarantined ∧
          other.record.relationOid = managed.relationOid)
        let store ← purge now fence row store
        .ok (state.1 ++ [row.quarantine],store)

def garbageCollectQuarantinedTables (now : Nat) (target : Target) (fence : PipelineFence)
    (policy : QuarantineGcPolicy) : Except SnapshotTargetError (QuarantineGcOutcome × Target) := do
  match ← policy.retentionMicros with
  | none => .ok (⟨true,[]⟩,target)
  | some retentionMicros =>
    if fence.fencingToken ≤ 0 then .error (.checkpoint .invalidFencingToken)
    else
      (lockPipelineFence target.checkpoints fence).mapError .checkpoint
      let candidates := gcCandidates platform now retentionMicros target.store fence policy.maxTables
      let (dropped,store) ← candidates.foldlM (collectQuarantine platform now fence) ([],target.store)
      .ok (⟨false,dropped⟩,{target with store := store})

end Platform

end CloudberryEtl.Cleanup
