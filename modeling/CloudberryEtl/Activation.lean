import CloudberryEtl.Manifest

/-! Activation of a complete snapshot group and its validation at a resume, from `target::snapshot::activation`. -/
namespace CloudberryEtl.Activation
open Schema Change TablePlan StagedApply KeyedTable Result TargetStore Manifest
open Checkpoint hiding databaseGeneration

inductive TableActivationState where
  | pending (shadow : ManagedTableRecord) (previousActive : Option ManagedTableRecord)
  | active
  deriving DecidableEq, Repr

structure StaleActiveTable where
  target : QualifiedName
  record : ManagedTableRecord
  deriving DecidableEq, Repr

structure QuarantinePlan where
  original : QualifiedName
  quarantine : QualifiedName
  record : ManagedTableRecord
  reason : ReconciliationReason
  deriving DecidableEq, Repr

structure Promotion where
  table : SnapshotActivationTable
  shadow : ManagedTableRecord
  replaced : Option QuarantinePlan
  deriving DecidableEq, Repr

inductive SnapshotActivationDisposition where
  | activated | alreadyActive
  deriving DecidableEq, Repr

structure SnapshotActivationOutcome where
  disposition : SnapshotActivationDisposition
  quarantined : List QualifiedName
  deriving DecidableEq, Repr

def groupIsActive (states : List TableActivationState) : Except SnapshotTargetError Bool :=
  let activeCount := (states.filter (fun state => state = .active)).length
  if activeCount = states.length then .ok true
  else if activeCount = 0 then .ok false
  else .error .mixedActivationState

def classifyTarget (request : SnapshotActivationRequest) (table : SnapshotActivationTable) :
    RelationState → Except SnapshotTargetError (Option ManagedTableRecord)
  | .vacant => .ok none
  | .unmanaged => .error (.existingUnmanagedTable table.target.display)
  | .managedObjectMissing _ => .error (.managedRelationMissing table.target.display)
  | .managed record => do
    validateManagedIdentity table.target record request.fence.pipelineId table.sourceRelationId
    validateManagedFence table.target record request.fence.fencingToken
    requireState table.target record .active
    .ok (some record)

def classifyShadow (request : SnapshotActivationRequest) (table : SnapshotActivationTable) :
    RelationState → Except SnapshotTargetError (Option ManagedTableRecord)
  | .vacant => .ok none
  | .unmanaged => .error (.existingUnmanagedTable table.shadow.display)
  | .managedObjectMissing _ => .error (.managedRelationMissing table.shadow.display)
  | .managed record => do
    validateManagedIdentity table.shadow record request.fence.pipelineId table.sourceRelationId
    validateManagedFence table.shadow record request.fence.fencingToken
    requireState table.shadow record .shadow
    if record.snapshotGroupId ≠ some request.snapshotGroupId then
      .error (.shadowSnapshotGroupMismatch table.shadow.display request.snapshotGroupId record.snapshotGroupId)
    else if record.tableGeneration ≠ table.tableGeneration then
      .error (.shadowGenerationMismatch table.shadow.display table.tableGeneration record.tableGeneration)
    else if record.schemaFingerprint ≠ table.schemaFingerprint then
      .error (.shadowFingerprintMismatch table.shadow.display)
    else .ok (some record)

def classifyTable (request : SnapshotActivationRequest) (table : SnapshotActivationTable)
    (target shadow : RelationState) : Except SnapshotTargetError TableActivationState := do
  match ← classifyTarget request table target,← classifyShadow request table shadow with
  | some active,none =>
    if matchesActivation active table request.snapshotGroupId then .ok .active
    else .error (.incompleteShadow table.shadow.display)
  | some active,some shadow =>
    if matchesActivation active table request.snapshotGroupId then .error (.incompleteShadow table.shadow.display)
    else if table.tableGeneration ≤ active.tableGeneration then
      .error (.activationGenerationNotNewer table.target.display active.tableGeneration table.tableGeneration)
    else .ok (.pending shadow (some active))
  | none,some shadow => .ok (.pending shadow none)
  | none,none => .error (.incompleteShadow table.shadow.display)

def classifyStored (store : Store) (request : SnapshotActivationRequest) (table : SnapshotActivationTable) :
    Except SnapshotTargetError TableActivationState :=
  classifyTable request table (loadRelationState store table.target) (loadRelationState store table.shadow)

def hexByte (octet : UInt8) : List Char := [Nat.digitChar (octet.toNat / 16),Nat.digitChar (octet.toNat % 16)]

def relocateMetadata (store : Store) (source destination : QualifiedName) (record : ManagedTableRecord)
    (state : ManagedTableState) (fencingToken : Int) : Except SnapshotTargetError Store := do
  let store ← deleteManaged store (fun row => row.name = source)
  let _ ← databaseGeneration record.tableGeneration
  insertManaged store destination {record with state := state, fencingToken := fencingToken}

def recordReconciliation (now : Nat) (request : SnapshotActivationRequest) (store : Store) (plan : QuarantinePlan) :
    Except SnapshotTargetError Store := do
  let topologyGeneration ← databaseGeneration request.fence.topologyGeneration
  let tableGeneration ← databaseGeneration plan.record.tableGeneration
  if store.reconciliationLog.any (fun row =>
      row.snapshotGroupId = request.snapshotGroupId ∧ row.original = plan.original) then
    .error (.database .uniqueViolation)
  else .ok {store with reconciliationLog := store.reconciliationLog ++ [⟨request.snapshotGroupId,plan.original,
    plan.quarantine,plan.record.relationOid,request.fence.pipelineId,topologyGeneration,plan.record.sourceRelationId,
    plan.record.snapshotGroupId,tableGeneration,plan.record.schemaFingerprint,plan.reason,
    some plan.record.fencingToken,request.fence.fencingToken,now,none,none⟩]}

def applyQuarantine (now : Nat) (request : SnapshotActivationRequest) (store : Store) (plan : QuarantinePlan) :
    Except SnapshotTargetError Store := do
  let store ← renameTable store plan.original plan.quarantine
  let store ← relocateMetadata store plan.original plan.quarantine plan.record .quarantined request.fence.fencingToken
  recordReconciliation now request store plan

def promoteShadow (store : Store) (table : SnapshotActivationTable) : Except SnapshotTargetError Store :=
  if table.shadow.name ≠ table.target.name then renameTable store table.shadow table.target else .ok store

def promote (now : Nat) (request : SnapshotActivationRequest) (store : Store) (promotion : Promotion) :
    Except SnapshotTargetError Store := do
  let store ← match promotion.replaced with
    | none => .ok store
    | some plan => applyQuarantine now request store plan
  let store ← promoteShadow store promotion.table
  relocateMetadata store promotion.table.shadow promotion.table.target promotion.shadow .active
    request.fence.fencingToken

section Platform
variable (platform : Platform)

def quarantineName (target : QualifiedName) (record : ManagedTableRecord) : Except SnapshotTargetError QualifiedName :=
  let digest := platform.sha256 ([strBytes target.schema,strBytes target.name,beBytes 16 record.pipelineId,
    beBytes 4 record.sourceRelationId,beBytes 8 record.tableGeneration,strBytes record.schemaFingerprint,
    beInt 8 record.fencingToken].flatMap hashField)
  (QualifiedName.new target.schema (String.ofList ("pg2cb_q_".toList ++ (digest.take 16).flatMap hexByte))).mapError
    (fun error => .schema (.core error))

def staleActive (request : SnapshotActivationRequest) (store : Store) (row : ManagedTable) :
    Except SnapshotTargetError (Option StaleActiveTable) := do
  if request.tables.any (fun table => table.target = row.name) then .ok none
  else
    validateManagedFence row.name row.record request.fence.fencingToken
    if (store.relations row.name).isNone then .error (.managedRelationMissing row.name.display)
    else .ok (some ⟨row.name,row.record⟩)

def loadStaleActiveTables (store : Store) (request : SnapshotActivationRequest) :
    Except SnapshotTargetError (List StaleActiveTable) := do
  let rows := (store.managedTables.filter (fun row =>
    row.record.pipelineId = request.fence.pipelineId ∧ row.record.state = .active)).insertionSort
      (fun left right => orderedLe platform left.name right.name)
  let stale ← rows.mapM (staleActive request store)
  .ok (stale.filterMap id)

def reserveQuarantine (store : Store) (reserved : List QualifiedName) (original : QualifiedName)
    (record : ManagedTableRecord) (reason : ReconciliationReason) :
    Except SnapshotTargetError (QuarantinePlan × List QualifiedName) := do
  let quarantine ← quarantineName platform original record
  if quarantine ∈ reserved ∨ loadRelationState store quarantine ≠ .vacant then
    .error (.quarantineNameConflict quarantine.display)
  else .ok (⟨original,quarantine,record,reason⟩,quarantine :: reserved)

def preflightPromotions (store : Store) : List (SnapshotActivationTable × TableActivationState) → List QualifiedName →
    Except SnapshotTargetError (List Promotion × List QualifiedName)
  | (table,.pending shadow none) :: rest,reserved => do
      let (promotions,reserved) ← preflightPromotions store rest reserved
      .ok (⟨table,shadow,none⟩ :: promotions,reserved)
  | (table,.pending shadow (some previous)) :: rest,reserved => do
      let (plan,reserved) ← reserveQuarantine platform store reserved table.target previous .replaced
      let (promotions,reserved) ← preflightPromotions store rest reserved
      .ok (⟨table,shadow,some plan⟩ :: promotions,reserved)
  | (_,.active) :: rest,reserved => preflightPromotions store rest reserved -- mixed states were rejected
  | [],reserved => .ok ([],reserved)

def preflightStaleQuarantines (store : Store) (fencingToken : Int) : List StaleActiveTable → List QualifiedName →
    Except SnapshotTargetError (List QuarantinePlan)
  | stale :: rest,reserved => do
      validateManagedFence stale.target stale.record fencingToken
      let (plan,reserved) ← reserveQuarantine platform store reserved stale.target stale.record .stale
      let plans ← preflightStaleQuarantines store fencingToken rest reserved
      .ok (plan :: plans)
  | [],_ => .ok []

def verifyRetryCheckpoint (checkpoints : CheckpointTables) (checkpoint : NodeCheckpoint) :
    Except SnapshotTargetError Unit := do
  let current ← (loadNodeCheckpoint checkpoints checkpoint.key).mapError .checkpoint
  let reached ← (checkpointReached current checkpoint).mapError .checkpoint
  if ¬ reached then .error (.activeCheckpointIncomplete checkpoint.key.nodeId) else .ok ()

def preflightCheckpoint (checkpoints : CheckpointTables) (checkpoint : NodeCheckpoint) :
    Except SnapshotTargetError Unit := do
  let current ← (loadNodeCheckpoint checkpoints checkpoint.key).mapError .checkpoint
  let _ ← (checkAdvance current checkpoint).mapError .checkpoint
  .ok ()

def advanceBoundary (fence : PipelineFence) (checkpoints : CheckpointTables) (checkpoint : NodeCheckpoint) :
    Except SnapshotTargetError CheckpointTables := do
  let (_,checkpoints) ← (advanceNodeCheckpoint checkpoints fence checkpoint).mapError .checkpoint
  .ok checkpoints

def activatePending (now : Nat) (target : Target) (request : SnapshotActivationRequest)
    (states : List TableActivationState) (stale : List StaleActiveTable) (reserved : List QualifiedName) :
    Except SnapshotTargetError (SnapshotActivationOutcome × Target) := do
  let _ ← request.initialCheckpoints.mapM (preflightCheckpoint target.checkpoints)
  let (promotions,reserved) ← preflightPromotions platform target.store (request.tables.zip states) reserved
  let plans ← preflightStaleQuarantines platform target.store request.fence.fencingToken stale reserved
  let store ← promotions.foldlM (promote now request) target.store
  let store ← plans.foldlM (applyQuarantine now request) store
  let checkpoints ← request.initialCheckpoints.foldlM (advanceBoundary request.fence) target.checkpoints
  let store ← markSnapshotGroupActive store request.snapshotGroupId
  .ok (⟨.activated,promotions.filterMap (fun promotion => promotion.replaced.map QuarantinePlan.quarantine) ++
    plans.map QuarantinePlan.quarantine⟩,⟨checkpoints,store⟩)

def retryActive (now : Nat) (target : Target) (request : SnapshotActivationRequest) (stale : List StaleActiveTable)
    (reserved : List QualifiedName) : Except SnapshotTargetError (SnapshotActivationOutcome × Target) := do
  let _ ← request.initialCheckpoints.mapM (verifyRetryCheckpoint target.checkpoints)
  let plans ← preflightStaleQuarantines platform target.store request.fence.fencingToken stale reserved
  let store ← plans.foldlM (applyQuarantine now request) target.store
  .ok (⟨.alreadyActive,plans.map QuarantinePlan.quarantine⟩,{target with store := store})

def activateSnapshotGroup (now : Nat) (target : Target) (request : SnapshotActivationRequest) :
    Except SnapshotTargetError (SnapshotActivationOutcome × Target) := do
  let canonical ← canonicalRequest request
  (lockPipelineFence target.checkpoints canonical.fence).mapError .checkpoint
  let stored ← loadSnapshotGroup platform target.store canonical.snapshotGroupId
  let request ← validateExactRequest stored canonical
  let states ← request.tables.mapM (classifyStored target.store request)
  let stale ← loadStaleActiveTables platform target.store request
  let reserved := relationNames request.tables ++ stale.map StaleActiveTable.target
  if ← groupIsActive states then
    if stored.state ≠ .active then .error (.corruptSnapshotGroupManifest request.snapshotGroupId)
    else retryActive platform now target request stale reserved
  else if stored.state ≠ .loading then .error (.corruptSnapshotGroupManifest request.snapshotGroupId)
  else activatePending platform now target request states stale reserved

def requireActive (store : Store) (request : SnapshotActivationRequest) (table : SnapshotActivationTable) :
    Except SnapshotTargetError Unit := do
  if (← classifyStored store request table) = .active then .ok () else .error .mixedActivationState

def activeGroups (store : Store) (fence : PipelineFence) : List SnapshotGroup :=
  store.snapshotGroups.filter (fun header => header.fence.pipelineId = fence.pipelineId ∧
    header.fence.topologyGeneration = fence.topologyGeneration ∧ header.state = .active)

def validateActiveSnapshotGroup (target : Target) (fence : PipelineFence) (tables : List SnapshotActivationTable) :
    Except SnapshotTargetError Uuid := do
  (lockPipelineFence target.checkpoints fence).mapError .checkpoint
  let _ ← databaseGeneration fence.topologyGeneration
  match activeGroups target.store fence with
  | [] => .error (.missingActiveSnapshotGroup fence.pipelineId fence.topologyGeneration)
  | _ :: _ :: _ => .error (.multipleActiveSnapshotGroups fence.pipelineId fence.topologyGeneration)
  | [header] =>
    let group := header.snapshotGroupId
    let stored ← loadSnapshotGroup platform target.store group
    if stored.state ≠ .active ∨ stored.request.fence.pipelineId ≠ fence.pipelineId ∨
        stored.request.fence.topologyGeneration ≠ fence.topologyGeneration ∨
        fence.fencingToken < stored.request.fence.fencingToken then .error (.corruptSnapshotGroupManifest group)
    else
      let expected ← canonicalRequest ⟨fence,group,tables,stored.request.initialCheckpoints⟩
      if expected.tables ≠ stored.request.tables then .error (.snapshotGroupManifestMismatch group)
      else
        let _ ← expected.tables.mapM (requireActive target.store expected)
        let _ ← stored.request.initialCheckpoints.mapM (verifyRetryCheckpoint target.checkpoints)
        .ok group

end Platform

end CloudberryEtl.Activation
