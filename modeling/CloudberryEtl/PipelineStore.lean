import CloudberryEtl.Planning

/-! The pipeline rows of `metadata::store`, their recorded revisions and their rebuild operations. Every call is one
statement, and statements on one pipeline wait for each other's row locks: a history is the list of the calls in that
order, each with arguments that its caller may have computed from an older state.

`complete_pipeline_rebuilds` locks no pipeline row and still has a place in that order. It reads and writes operation
rows of its pipeline and nothing else. Its snapshot holds the rows of a first part of the requests, because a request
holds the pipeline row until it commits, so the statement runs after these and before the others. Of two completions
the later one waits for each row they share and reads it again, and a row that is completed is passed over. -/
namespace CloudberryEtl.PipelineStore
open KeyedTable TargetStore Planning

structure PipelineDefinition where
  id : Uuid
  name : String
  sourceId : Uuid
  targetId : Uuid
  desiredRunning : Bool
  configRevision : Int
  snapshotGeneration : Int
  settings : Json
  createdAt : Nat
  updatedAt : Nat

structure ConfigRevision where
  pipelineId : Uuid
  revision : Int
  definition : Json
  createdAt : Nat

def ConfigRevision.key (row : ConfigRevision) : Uuid × Int := (row.pipelineId,row.revision)

structure OperationRecord where
  id : Uuid
  pipelineId : Option Uuid
  operationType : String
  state : String
  detail : Json
  createdAt : Nat
  updatedAt : Nat

structure AuditEntry where
  action : String
  objectType : String
  objectId : Option String
  detail : Json

structure RebuildRequest where
  pipeline : PipelineDefinition
  operationId : Uuid

inductive DatabaseError where
  | checkViolation
  | uniqueViolation
  | foreignKeyViolation
  | bigintOutOfRange
  deriving DecidableEq, Repr

inductive StoreError where
  | database (error : DatabaseError)
  | staleRevision
  deriving DecidableEq, Repr

structure ControlStore where
  sources : List Uuid
  targets : List Uuid
  pipelines : List PipelineDefinition
  configRevisions : List ConfigRevision
  operations : List OperationRecord
  auditLog : List AuditEntry

def ControlStore.empty (sources targets : List Uuid) : ControlStore := ⟨sources,targets,[],[],[],[]⟩

def ControlStore.pipeline (store : ControlStore) (id : Uuid) : Option PipelineDefinition :=
  lookup PipelineDefinition.id store.pipelines id

def ControlStore.operation (store : ControlStore) (id : Uuid) : Option OperationRecord :=
  lookup OperationRecord.id store.operations id

def uuidText (uuid : Uuid) : String :=
  let digits := uuidSimple uuid
  String.ofList (digits.take 8 ++ '-' :: ((digits.drop 8).take 4) ++ '-' :: ((digits.drop 12).take 4) ++
    '-' :: ((digits.drop 16).take 4) ++ '-' :: digits.drop 20)

def field? (name : String) : Json → Option Json
  | .obj fields => fields.lookup name
  | _ => none

-- `||`: the right object wins; anything but two objects is joined as arrays.
def concat : Json → Json → Json
  | .obj left,.obj right => .obj (left.filter (fun field => (right.lookup field.1).isNone) ++ right)
  | .arr left,.arr right => .arr (left ++ right)
  | .arr left,right => .arr (left ++ [right])
  | left,.arr right => .arr (left :: right)
  | left,right => .arr [left,right]

def inBigint (value : Int) : Prop := -2 ^ 63 ≤ value ∧ value < 2 ^ 63

instance (value : Int) : Decidable (inBigint value) := inferInstanceAs (Decidable (_ ∧ _))

section Puts

def definitionJson (pipeline : PipelineDefinition) : Json :=
  .obj [("config_revision",.num pipeline.configRevision),("id",.str (uuidText pipeline.id)),("name",.str pipeline.name),
    ("settings",pipeline.settings),("snapshot_generation",.num pipeline.snapshotGeneration),
    ("source_id",.str (uuidText pipeline.sourceId)),("target_id",.str (uuidText pipeline.targetId))]

def replaceRow (rows : List PipelineDefinition) (row : PipelineDefinition) : List PipelineDefinition :=
  rows.map (fun other => if other.id = row.id then row else other)

def checkKeys (store : ControlStore) (others : List PipelineDefinition) (row : PipelineDefinition) :
    Except DatabaseError Unit :=
  if others.any (fun other => other.name = row.name ∨ other.sourceId = row.sourceId ∧ other.targetId = row.targetId) then
    .error .uniqueViolation
  else if row.sourceId ∉ store.sources ∨ row.targetId ∉ store.targets then .error .foreignKeyViolation
  else .ok ()

/- The CTE `changed`: the rows of the table after it, and the row that RETURNING gives. The CHECK constraints are tested on
the row of VALUES, before its id is looked up. -/
def changed (store : ControlStore) (now : Nat) (pipeline : PipelineDefinition) :
    Except DatabaseError (List PipelineDefinition × Option PipelineDefinition) := do
  if pipeline.configRevision ≤ 0 ∨ pipeline.snapshotGeneration ≤ 0 then .error .checkViolation
  else
    match store.pipeline pipeline.id with
    | none =>
      checkKeys store store.pipelines pipeline
      .ok (store.pipelines ++ [pipeline],some pipeline)
    | some stored =>
      if stored.configRevision < pipeline.configRevision ∧ stored.snapshotGeneration < pipeline.snapshotGeneration then
        let row := {stored with
          name := pipeline.name, sourceId := pipeline.sourceId, targetId := pipeline.targetId,
          configRevision := pipeline.configRevision, snapshotGeneration := pipeline.snapshotGeneration,
          settings := pipeline.settings, updatedAt := now}
        checkKeys store (store.pipelines.filter (fun other => other.id ≠ row.id)) row
        .ok (replaceRow store.pipelines row,some row)
      else .ok (store.pipelines,none)

def executePut (store : ControlStore) (now : Nat) (pipeline : PipelineDefinition) :
    Except DatabaseError (ControlStore × Nat) := do
  let (pipelines,returned) ← changed store now pipeline
  match returned with
  | none => .ok ({store with pipelines := pipelines},0)
  | some row =>
    let revision : ConfigRevision := ⟨row.id,row.configRevision,definitionJson pipeline,now⟩
    if store.configRevisions.any (fun other => other.key = revision.key) then .ok ({store with pipelines := pipelines},0)
    else .ok ({store with pipelines := pipelines, configRevisions := store.configRevisions ++ [revision]},1)

def putPipeline (store : ControlStore) (now : Nat) (pipeline : PipelineDefinition) :
    ControlStore × Except StoreError Unit :=
  match executePut store now pipeline with
  | .error error => (store,.error (.database error))
  | .ok (store,affected) => if affected = 0 then (store,.error .staleRevision) else (store,.ok ())

end Puts

def setPipelineDesiredRunning (store : ControlStore) (now : Nat) (pipelineId : Uuid) (desiredRunning : Bool) :
    ControlStore × Except StoreError (Option PipelineDefinition) :=
  match store.pipeline pipelineId with
  | none => (store,.ok none)
  | some stored =>
    let row := {stored with desiredRunning := desiredRunning, updatedAt := now}
    ({store with pipelines := replaceRow store.pipelines row},.ok (some row))

section Rebuilds

def rebuildDetail (row : PipelineDefinition) : Json := .obj [("snapshot_generation",.num row.snapshotGeneration)]

def rebuildOperation (row : PipelineDefinition) (operationId : Uuid) (now : Nat) : OperationRecord :=
  ⟨operationId,some row.id,"rebuild","requested",rebuildDetail row,now,now⟩

def rebuildAudit (row : PipelineDefinition) (operationId : Uuid) : AuditEntry :=
  ⟨"pipeline.rebuild_requested","pipeline",some (uuidText row.id),
    .obj [("operation_id",.str (uuidText operationId)),("snapshot_generation",.num row.snapshotGeneration)]⟩

def requestPipelineRebuild (store : ControlStore) (now : Nat) (operationId pipelineId : Uuid) :
    ControlStore × Except StoreError (Option RebuildRequest) :=
  match store.pipeline pipelineId with
  | none => (store,.ok none)
  | some stored =>
    if 2 ^ 63 ≤ stored.snapshotGeneration + 1 then (store,.error (.database .bigintOutOfRange))
    else if (store.operation operationId).isSome then (store,.error (.database .uniqueViolation))
    else
      let row := {stored with snapshotGeneration := stored.snapshotGeneration + 1, updatedAt := now}
      ({store with
        pipelines := replaceRow store.pipelines row
        operations := store.operations ++ [rebuildOperation row operationId now]
        auditLog := store.auditLog ++ [rebuildAudit row operationId]},.ok (some ⟨row,operationId⟩))

def OperationRecord.generation? (operation : OperationRecord) : Option Int :=
  match field? "snapshot_generation" operation.detail with
  | some (.num generation) => some generation
  | _ => none

def isRequestedRebuild (pipelineId : Uuid) (operation : OperationRecord) : Bool :=
  operation.pipelineId = some pipelineId && operation.operationType = "rebuild" && operation.state = "requested"

def completes (pipelineId : Uuid) (generation : Int) (operation : OperationRecord) : Bool :=
  isRequestedRebuild pipelineId operation && operation.generation?.any (fun own => own ≤ generation)

def completeOperation (now : Nat) (generation : Int) (operation : OperationRecord) : OperationRecord :=
  {operation with
    state := "completed"
    detail := concat operation.detail (.obj [("completed_snapshot_generation",.num generation)])
    updatedAt := now}

def completionAudit (pipelineId : Uuid) (generation : Int) (operation : OperationRecord) : AuditEntry :=
  ⟨"pipeline.rebuild_completed","pipeline",some (uuidText pipelineId),
    .obj [("operation_id",.str (uuidText operation.id)),("snapshot_generation",.num generation)]⟩

-- The cast to bigint fails on a number outside of its range.
def completePipelineRebuilds (store : ControlStore) (now : Nat) (pipelineId : Uuid) (generation : Int) :
    ControlStore × Except StoreError Nat :=
  if store.operations.any (fun operation =>
      isRequestedRebuild pipelineId operation && operation.generation?.any (fun own => ¬ inBigint own)) then
    (store,.error (.database .bigintOutOfRange))
  else
    let completed := store.operations.filter (completes pipelineId generation)
    ({store with
      operations := store.operations.map (fun operation =>
        if completes pipelineId generation operation then completeOperation now generation operation else operation)
      auditLog := store.auditLog ++ completed.map (completionAudit pipelineId generation)},.ok completed.length)

end Rebuilds

section Histories

inductive Request where
  | putPipeline (pipeline : PipelineDefinition)
  | setDesiredRunning (pipelineId : Uuid) (desiredRunning : Bool)
  | requestRebuild (operationId pipelineId : Uuid)
  | completeRebuilds (pipelineId : Uuid) (generation : Int)

inductive Response where
  | put (answer : Except StoreError Unit)
  | desired (answer : Except StoreError (Option PipelineDefinition))
  | rebuild (answer : Except StoreError (Option RebuildRequest))
  | completed (answer : Except StoreError Nat)

structure Call where
  now : Nat
  request : Request

def Call.run (call : Call) (store : ControlStore) : ControlStore × Response :=
  match call.request with
  | .putPipeline pipeline => (putPipeline store call.now pipeline).map id .put
  | .setDesiredRunning pipelineId desiredRunning =>
    (setPipelineDesiredRunning store call.now pipelineId desiredRunning).map id .desired
  | .requestRebuild operationId pipelineId => (requestPipelineRebuild store call.now operationId pipelineId).map id .rebuild
  | .completeRebuilds pipelineId generation =>
    (completePipelineRebuilds store call.now pipelineId generation).map id .completed

def Call.after (call : Call) (store : ControlStore) : ControlStore := (call.run store).1

def Call.response (call : Call) (store : ControlStore) : Response := (call.run store).2

def history (store : ControlStore) (calls : List Call) : ControlStore := calls.foldl (fun store call => call.after store) store

end Histories

end CloudberryEtl.PipelineStore
