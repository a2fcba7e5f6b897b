import CloudberryEtl.Publication
import CloudberryEtl.Resume
import CloudberryEtl.Telemetry

/-! The standalone job of `engine::runtime::job`: how a run prepares itself from an existing checkpoint, and how the errors
of the preparation and of the stream end it. A position that the server prints is its value. -/
namespace CloudberryEtl.Standalone
open Schema Change Result Settings Catalog Publication Planning Resume Fencing Activation Adapter TargetStore
open Checkpoint hiding databaseGeneration

structure LogicalSlotState where
  name : String
  plugin : String
  database : Option String
  temporary : Bool
  active : Bool
  confirmedFlushLsn : Option PgLsn
  restartLsn : Option PgLsn
  walStatus : Option String
  invalidationReason : Option String
  twoPhase : Bool
  failover : Bool
  synced : Bool
  deriving DecidableEq, Repr

structure SourceServer where
  systemIdentifier : Nat
  timeline : Nat
  catalog : PgCatalog
  publications : List PgPublication
  slots : List LogicalSlotState
  deriving DecidableEq, Repr

structure ReplicationNames where
  publication : String
  slot : String
  deriving DecidableEq, Repr

def standaloneNodeId : Int := 0

def nodeHex (nodeId : Int) : List Char :=
  (List.range 8).reverse.map (fun place => Nat.digitChar ((nodeId % 2 ^ 32).toNat / 16 ^ place % 16))

def replicationNames (pipelineId : PipelineId) (nodeId : Int) : ReplicationNames :=
  let suffix := String.ofList (uuidSimple pipelineId ++ '_' :: nodeHex nodeId)
  ⟨"pg2cb_pub_" ++ suffix,"pg2cb_slot_" ++ suffix⟩

inductive RuntimeJobError where
  | missingPipelineForRebuild
  | planning (error : PlanInventoryError)
  | activeOrphanSlot (slot : String)
  | slotDatabaseMismatch (slot : String) (actual : Option String) (expected : String)
  | unsupportedSlotMode (slot : String) (temporary twoPhase failover synced : Bool)
  | slotInvalidated (slot : String) (walStatus invalidationReason : Option String)
  | publicationDrift (error : SourceError)
  | wrongSlotPlugin (slot plugin : String)
  | missingSlot (slot : String)
  | slotAheadOfTarget (slotLsn targetLsn : PgLsn)
  | walLost
  | walRetentionExceeded (slot reason : String)
  | sourceIdentityChanged
  | checkpointSlotMismatch (expected actual : String)
  | source (error : SourceError)
  | snapshot (error : SnapshotTargetError)
  | pipeline (error : PipelineError)
  deriving DecidableEq, Repr

structure PreparedRun where
  tables : List RuntimeTable
  checkpoint : NodeCheckpoint
  deriving DecidableEq, Repr

structure StandaloneJob where
  settings : JobSettings
  sourceSettings : SourceSettings
  fencingToken : Int
  deriving DecidableEq, Repr

def StandaloneJob.fence (job : StandaloneJob) : PipelineFence := jobFence job.settings job.fencingToken

def StandaloneJob.names (job : StandaloneJob) : ReplicationNames :=
  replicationNames job.settings.pipelineId standaloneNodeId

def inspectLogicalSlot (server : SourceServer) (name : String) : Option LogicalSlotState :=
  server.slots.find? (fun slot => slot.name = name)

def validateSlotMode (job : StandaloneJob) (slot : LogicalSlotState) : Except RuntimeJobError Unit :=
  if slot.plugin ≠ "pgoutput" then .error (.wrongSlotPlugin job.names.slot slot.plugin)
  else if slot.active then .error (.activeOrphanSlot job.names.slot)
  else if slot.database ≠ some job.settings.sourceDatabase then
    .error (.slotDatabaseMismatch job.names.slot slot.database job.settings.sourceDatabase)
  else if slot.temporary || slot.twoPhase || slot.failover || slot.synced then
    .error (.unsupportedSlotMode job.names.slot slot.temporary slot.twoPhase slot.failover slot.synced)
  else .ok ()

def validateSlotPosition (job : StandaloneJob) (checkpoint : NodeCheckpoint) (slot : LogicalSlotState) :
    Except RuntimeJobError Unit :=
  if slot.walStatus = some "lost" ∨ slot.invalidationReason.isSome then
    .error (.slotInvalidated job.names.slot slot.walStatus slot.invalidationReason)
  else match slot.restartLsn with
  | none => .error .walLost
  | some restart =>
    match slot.confirmedFlushLsn with
    | some confirmed =>
      if checkpoint.appliedLsn < confirmed then .error (.slotAheadOfTarget confirmed checkpoint.appliedLsn)
      else if checkpoint.appliedLsn < restart then .error .walLost
      else .ok ()
    | none => if checkpoint.appliedLsn < restart then .error .walLost else .ok ()

def validateResumeSlot (job : StandaloneJob) (server : SourceServer) (checkpoint : NodeCheckpoint) :
    Except RuntimeJobError Unit :=
  if checkpoint.systemIdentifier ≠ server.systemIdentifier ∨ checkpoint.timeline ≠ server.timeline then
    .error .sourceIdentityChanged
  else if checkpoint.slotName ≠ job.names.slot then
    .error (.checkpointSlotMismatch job.names.slot checkpoint.slotName)
  else match inspectLogicalSlot server job.names.slot with
  | none => .error (.missingSlot job.names.slot)
  | some slot => do
    validateSlotMode job slot
    validateSlotPosition job checkpoint slot

section Prepare
variable (platform : Platform) (toVec : Json → Bytes) (job : StandaloneJob) (server : SourceServer)

def planSource : Except RuntimeJobError (List RuntimeTable) := do
  let inventory ← (inspectTables server.catalog (catalogOptions job.sourceSettings)).mapError .source
  (planInventory platform.sha256 toVec job.settings job.fencingToken inventory).mapError .planning

def publicationSpec (tables : List RuntimeTable) : Except SourceError PublicationSpec :=
  PublicationSpec.new job.names.publication (tables.map (fun table => table.planned.source.name))

def prepareResume (target : Target) (checkpoint : NodeCheckpoint) : Except RuntimeJobError PreparedRun := do
  validateResumeSlot job server checkpoint
  let tables ← planSource platform toVec job server
  let publication ← (publicationSpec job tables).mapError .source
  let _ ← (validatePublication server.catalog server.publications publication).mapError .publicationDrift
  let _ ← (validateActiveSnapshotGroup platform target job.fence (activationTables tables)).mapError .snapshot
  .ok ⟨tables,checkpoint⟩

end Prepare

def RuntimeJobError.rebuilds : RuntimeJobError → Bool
  | .missingSlot _ | .slotInvalidated .. | .slotAheadOfTarget .. | .walLost | .walRetentionExceeded .. |
    .publicationDrift _ => true
  | _ => false

inductive RunEnd where
  | rebuildRequested (snapshotGeneration : Nat)
  | failed (error : RuntimeJobError)
  | panicked
  deriving DecidableEq, Repr

def requestRebuild : Option Nat → RunEnd
  | some snapshotGeneration => .rebuildRequested (snapshotGeneration + 1)
  | none => .failed .missingPipelineForRebuild

def endPreparation (pipeline : Option Nat) (error : RuntimeJobError) : RunEnd :=
  if error.rebuilds then requestRebuild pipeline else .failed error

section Reason
variable (printable : Char → Bool)

def escapeDebug (c : Char) : List Char :=
  if c = '\x00' then ['\\','0']
  else if c = '\t' then ['\\','t']
  else if c = '\r' then ['\\','r']
  else if c = '\n' then ['\\','n']
  else if c = '"' ∨ c = '\\' then ['\\',c]
  else if printable c then [c]
  else ("\\u\x7b" ++ String.ofList (Nat.toDigits 16 c.toNat) ++ "\x7d").toList

def debugString (text : String) : String := "\"" ++ String.ofList (text.toList.flatMap (escapeDebug printable)) ++ "\""

def debugList (items : List String) : String := "[" ++ String.intercalate ", " items ++ "]"

def ddlReason (commandTag : String) (xid : Nat) (relationIds : List Nat) (schemas : List String) : String :=
  "DDL `" ++ commandTag ++ "` in transaction " ++ toString xid ++ " for relations " ++
    debugList (relationIds.map toString) ++ " and schemas " ++ debugList (schemas.map (debugString printable))

def barrierReason : PipelineError → Option String
  | .ddlBarrier commandTag xid relationIds schemas => some (ddlReason printable commandTag xid relationIds schemas)
  | .truncateBarrier xid relationIds =>
    some ("TRUNCATE in transaction " ++ toString xid ++ " for relations " ++ debugList (relationIds.map toString))
  | _ => none

-- A barrier is reported as the pipeline's last error before the rebuild is requested.
def endStream (telemetry : Telemetry.PipelineRuntimeSnapshot) (pipeline : Option Nat) (error : PipelineError) : RunEnd :=
  match barrierReason printable error with
  | none => .failed (.pipeline error)
  | some reason =>
    match (Telemetry.markDegraded reason telemetry).1 with
    | .returned => requestRebuild pipeline
    | .panicked => .panicked

end Reason

end CloudberryEtl.Standalone
