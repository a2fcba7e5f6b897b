import CloudberryEtl.StagedApply

/-! The target database as `target::snapshot` sees it: relations with their object identity and rows, user types, and
the metadata tables up to migration V5. A statement is a function on the store; a transaction that fails leaves the
store it started from. Values read back from metadata are the values written, so the parse errors of the row
readers have no counterpart. -/
namespace CloudberryEtl.TargetStore
open Schema Change TablePlan StagedApply SqlText KeyedTable Checkpoint

abbrev Uuid := Nat

def Uuid.nil : Uuid := 0

-- What the code takes from outside: the digest, and the order of ORDER BY on text columns.
structure Platform where
  sha256 : Bytes → Bytes
  textLe : String → String → Bool

inductive ManagedTableState where
  | shadow | active | blocked | quarantined
  deriving DecidableEq, Repr

def ManagedTableState.asStr : ManagedTableState → String
  | .shadow => "shadow"
  | .active => "active"
  | .blocked => "blocked"
  | .quarantined => "quarantined"

inductive SnapshotTargetError where
  | schema (error : SchemaError)
  | sql (error : SqlRenderError)
  | database (error : DatabaseError)
  | checkpoint (error : CheckpointError)
  | targetIsShadow
  | crossSchemaShadowUnsupported (target shadow : String)
  | existingUnmanagedTable (table : String)
  | managedByOtherPipeline (table : String) (expected actual : PipelineId)
  | managedByOtherSource (table : String) (expected actual : Nat)
  | managedByNewerFence (object : String) (current actual : Int)
  | managedRelationMissing (table : String)
  | unexpectedManagedTableState (table expected actual : String)
  | shadowGenerationMismatch (table : String) (expected actual : Nat)
  | shadowFingerprintMismatch (table : String)
  | targetAlreadyActive (table : String)
  | existingPrerequisiteType (name : String)
  | managedPrerequisiteTypeMissing (name : String)
  | prerequisiteTypeManagedByOtherPipeline (name : String) (expected actual : PipelineId)
  | unsupportedPrerequisiteTypeEvolution (name reason : String)
  | copyNotCompleted
  | invalidOwnership
  | invalidSnapshotGroupId
  | snapshotGroupNotRegistered (group : Uuid)
  | corruptSnapshotGroupManifest (group : Uuid)
  | snapshotGroupManifestMismatch (group : Uuid)
  | snapshotGroupAlreadyActive (group : Uuid)
  | snapshotGroupNotLoading (group : Uuid)
  | invalidSnapshotCleanupFence
  | snapshotGroupFenceMismatch (group : Uuid) (expectedGeneration : Nat) (expectedToken : Int)
      (actualGeneration : Nat) (actualToken : Int)
  | unexpectedSnapshotShadow (table : String)
  | missingRelationIdentity (table : String)
  | relationIdentityMismatch (table : String) (expected actual : Nat)
  | invalidQuarantineRetention
  | invalidQuarantineBatchSize
  | missingQuarantineMetadata (table : String)
  | quarantineMetadataMismatch (table : String)
  | quarantineRecordMismatch (table : String)
  | missingActiveSnapshotGroup (pipeline : PipelineId) (generation : Nat)
  | multipleActiveSnapshotGroups (pipeline : PipelineId) (generation : Nat)
  | snapshotTableNotInManifest (group : Uuid) (table : String)
  | snapshotTableManifestMismatch (group : Uuid) (table : String)
  | shadowSnapshotGroupMismatch (table : String) (expected : Uuid) (actual : Option Uuid)
  | generationOutOfRange (generation : Nat)
  | emptyActivationGroup
  | duplicateActivationIdentity
  | emptyActivationFingerprint (table : String)
  | invalidActivationSourceRelation
  | activationGenerationNotNewer (table : String) (active proposed : Nat)
  | mixedActivationState
  | incompleteShadow (table : String)
  | activeCheckpointIncomplete (nodeId : Int)
  | zeroInitialCheckpoint (nodeId : Int)
  | quarantineNameConflict (table : String)
  | unexpectedMetadataWriteCount (written : Nat)
  deriving DecidableEq, Repr

structure ManagedTableRecord where
  pipelineId : PipelineId
  snapshotGroupId : Option Uuid
  relationOid : Option Nat
  sourceRelationId : Nat
  tableGeneration : Nat
  schemaFingerprint : String
  state : ManagedTableState
  fencingToken : Int
  deriving DecidableEq, Repr

structure ManagedTable where
  name : QualifiedName
  record : ManagedTableRecord
  deriving DecidableEq, Repr

structure ManagedTypeRecord where
  pipelineId : PipelineId
  definitionChecksum : Bytes
  fencingToken : Int
  deriving DecidableEq, Repr

inductive SnapshotGroupState where
  | loading | active
  deriving DecidableEq, Repr

structure SnapshotActivationTable where
  target : QualifiedName
  shadow : QualifiedName
  sourceRelationId : Nat
  tableGeneration : Nat
  schemaFingerprint : String
  deriving DecidableEq, Repr

structure SnapshotActivationRequest where
  fence : PipelineFence
  snapshotGroupId : Uuid
  tables : List SnapshotActivationTable
  initialCheckpoints : List NodeCheckpoint
  deriving DecidableEq, Repr

structure SnapshotGroup where
  snapshotGroupId : Uuid
  fence : PipelineFence
  state : SnapshotGroupState
  tableCount : Nat
  nodeCount : Nat
  manifestChecksum : Bytes
  deriving DecidableEq, Repr

structure GroupTable where
  snapshotGroupId : Uuid
  table : SnapshotActivationTable
  deriving DecidableEq, Repr

structure GroupNode where
  snapshotGroupId : Uuid
  nodeId : Int
  systemIdentifier : Nat
  timeline : Nat
  slotName : String
  consistentLsn : PgLsn
  deriving DecidableEq, Repr

inductive ReconciliationReason where
  | replaced | stale
  deriving DecidableEq, Repr

structure Reconciliation where
  snapshotGroupId : Uuid
  original : QualifiedName
  quarantine : QualifiedName
  quarantineRelationOid : Option Nat
  pipelineId : PipelineId
  topologyGeneration : Nat
  sourceRelationId : Nat
  previousSnapshotGroupId : Option Uuid
  tableGeneration : Nat
  schemaFingerprint : String
  reason : ReconciliationReason
  previousFencingToken : Option Int
  fencingToken : Int
  recordedAt : Nat
  purgedAt : Option Nat
  purgedByFencingToken : Option Int
  deriving DecidableEq, Repr

structure Relation where
  oid : Nat
  table : CreateTablePlan
  rows : List Row
  deriving DecidableEq, Repr

structure Store where
  relations : QualifiedName → Option Relation
  nextOid : Nat
  types : QualifiedName → Option UserTypeDefinition
  managedTables : List ManagedTable
  managedTypes : QualifiedName → Option ManagedTypeRecord
  snapshotGroups : List SnapshotGroup
  groupTables : List GroupTable
  groupNodes : List GroupNode
  reconciliationLog : List Reconciliation

structure Target where
  checkpoints : CheckpointTables
  store : Store

inductive RelationState where
  | vacant
  | unmanaged
  | managedObjectMissing (record : ManagedTableRecord)
  | managed (record : ManagedTableRecord)
  deriving DecidableEq, Repr

def databaseGeneration (generation : Nat) : Except SnapshotTargetError Nat :=
  if generation < 2 ^ 63 then .ok generation else .error (.generationOutOfRange generation)

def ensureOneMetadataRow (written : Nat) : Except SnapshotTargetError Unit :=
  if written = 1 then .ok () else .error (.unexpectedMetadataWriteCount written)

def relationOid (store : Store) (table : QualifiedName) : Option Nat := (store.relations table).map Relation.oid

def managedRecord (store : Store) (table : QualifiedName) : Option ManagedTableRecord :=
  (lookup ManagedTable.name store.managedTables table).map ManagedTable.record

def loadRelationState (store : Store) (table : QualifiedName) : RelationState :=
  match (store.relations table).isSome,managedRecord store table with
  | false,none => .vacant
  | true,none => .unmanaged
  | false,some record => .managedObjectMissing record
  | true,some record => .managed record

-- A table also owns a row type of its name.
def typeExists (store : Store) (name : QualifiedName) : Bool := (store.types name).isSome || (store.relations name).isSome

def putRelation (store : Store) (table : QualifiedName) (relation : Relation) : Store :=
  {store with relations := Function.update store.relations table (some relation)}

def createTable (store : Store) (plan : CreateTablePlan) : Except SnapshotTargetError Store :=
  if (store.relations plan.target).isSome then .error (.database .duplicateTable)
  else if typeExists store plan.target then .error (.database .duplicateObject)
  else .ok {putRelation store plan.target ⟨store.nextOid,plan,[]⟩ with nextOid := store.nextOid + 1}

def dropTable (store : Store) (table : QualifiedName) : Except SnapshotTargetError Store :=
  if (store.relations table).isSome then .ok {store with relations := Function.update store.relations table none}
  else .error (.database .undefinedTable)

def renameTable (store : Store) (table newName : QualifiedName) : Except SnapshotTargetError Store :=
  let renamed : QualifiedName := {table with name := newName.name, nameValid := newName.nameValid}
  match store.relations table with
  | none => .error (.database .undefinedTable)
  | some relation =>
    if (store.relations renamed).isSome then .error (.database .duplicateTable)
    else if typeExists store renamed then .error (.database .duplicateObject)
    else .ok (putRelation {store with relations := Function.update store.relations table none} renamed relation)

def insertManaged (store : Store) (table : QualifiedName) (record : ManagedTableRecord) :
    Except SnapshotTargetError Store :=
  if (managedRecord store table).isSome then .error (.database .uniqueViolation)
  else .ok {store with managedTables := store.managedTables ++ [⟨table,record⟩]}

def deleteManaged (store : Store) (selects : ManagedTable → Bool) : Except SnapshotTargetError Store := do
  ensureOneMetadataRow (store.managedTables.filter selects).length
  .ok {store with managedTables := store.managedTables.filter (fun row => !selects row)}

def validateManagedIdentity (table : QualifiedName) (record : ManagedTableRecord) (pipelineId : PipelineId)
    (sourceRelationId : Nat) : Except SnapshotTargetError Unit :=
  if record.pipelineId ≠ pipelineId then
    .error (.managedByOtherPipeline table.display pipelineId record.pipelineId)
  else if record.sourceRelationId ≠ sourceRelationId then
    .error (.managedByOtherSource table.display sourceRelationId record.sourceRelationId)
  else .ok ()

def validateManagedFence (table : QualifiedName) (record : ManagedTableRecord) (current : Int) :
    Except SnapshotTargetError Unit :=
  if current < record.fencingToken then .error (.managedByNewerFence table.display current record.fencingToken)
  else .ok ()

def requireState (table : QualifiedName) (record : ManagedTableRecord) (expected : ManagedTableState) :
    Except SnapshotTargetError Unit :=
  if record.state = expected then .ok ()
  else .error (.unexpectedManagedTableState table.display expected.asStr record.state.asStr)

def matchesActivation (record : ManagedTableRecord) (table : SnapshotActivationTable) (snapshotGroupId : Uuid) : Bool :=
  record.snapshotGroupId = some snapshotGroupId ∧ record.sourceRelationId = table.sourceRelationId ∧
    record.tableGeneration = table.tableGeneration ∧ record.schemaFingerprint = table.schemaFingerprint

/- `validate_relation_identity`: the recorded identity is the one of the relation that now has the name. -/
def validateRelationIdentity (store : Store) (table : QualifiedName) (record : ManagedTableRecord) :
    Except SnapshotTargetError Unit :=
  match record.relationOid with
  | none => .error (.missingRelationIdentity table.display)
  | some expected =>
    match relationOid store table with
    | none => .error (.managedRelationMissing table.display)
    | some actual =>
      if actual ≠ expected then .error (.relationIdentityMismatch table.display expected actual) else .ok ()

end CloudberryEtl.TargetStore
