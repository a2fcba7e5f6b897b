import CloudberryEtl.DdlCapture
import CloudberryEtl.Standalone

/-! A schema change of a bound table and the run that meets it. A streaming job meets the change as a barrier; a job that
starts after the commit meets it while it prepares to resume, where the plan no longer is the one of the manifest. -/
namespace CloudberryEtl.SchemaDrift
open Schema Change Result Settings Catalog Publication Planning Resume Fencing Activation Adapter Batch TargetStore
open DdlCapture Standalone Manifest
open Checkpoint hiding databaseGeneration

variable {platform : Platform} {toVec : Json → Bytes}

/- A committed change with what the stream delivers of it and what a later start finds: the changed catalog, and an active
group whose manifest records another fingerprint for one of its tables. `printable` is what `Debug` leaves as it is. -/
structure Drift (platform : Platform) (toVec : Json → Bytes) where
  job : StandaloneJob
  change : SchemaChange job.sourceSettings
  snapshotGeneration : Nat
  server : SourceServer
  target : Target
  checkpoint : NodeCheckpoint
  registry : TableBindingRegistry
  batch : TransactionBatch
  telemetry : Telemetry.PipelineRuntimeSnapshot
  printable : Char → Bool
  met : server.catalog = change.command.after
  drifted : ∀ header stored tables, activeGroups target.store job.fence = [header] →
    loadSnapshotGroup platform target.store header.snapshotGroupId = .ok stored →
    planSource platform toVec job server = .ok tables →
    ∃ old ∈ stored.request.tables, ∀ new ∈ activationTables tables,
      new.target = old.target → new.schemaFingerprint ≠ old.schemaFingerprint
  members : ∀ tables spec, planSource platform toVec job server = .ok tables → publicationSpec job tables = .ok spec →
    ∃ state, validatePublication server.catalog server.publications spec = .ok state
  carries : ∃ transaction ∈ batch.transactions, ∀ message ∈ decoded change.command, .ddl message ∈ transaction.changes
  only : ∀ transaction ∈ batch.transactions, ∀ event ∈ transaction.changes, event.requiresGenerationBarrier →
    ∃ message ∈ decoded change.command, event = .ddl message

inductive Event where
  | commit | deliver | stop | start
  deriving DecidableEq, Repr

structure JobState where
  committed : Bool
  running : Bool
  ended : Option RunEnd
  deriving DecidableEq, Repr

def isBarrier : PipelineError → Bool
  | .ddlBarrier .. | .truncateBarrier .. => true
  | _ => false

def resumeAfter (drift : Drift platform toVec) : Except RuntimeJobError PreparedRun :=
  prepareResume platform toVec drift.job drift.server drift.target drift.checkpoint

def resumeBefore (drift : Drift platform toVec) : Except RuntimeJobError PreparedRun :=
  prepareResume platform toVec drift.job {drift.server with catalog := drift.change.command.before} drift.target
    drift.checkpoint

def received (drift : Drift platform toVec) : Except PipelineError ApplyRequest :=
  buildApplyRequestScoped drift.job.fence drift.job.names.slot drift.registry (ddlScope drift.job.sourceSettings) drift.batch

/- The run that meets the change ends the history; a stop or another failure only takes the job down. -/
def step (drift : Drift platform toVec) (state : JobState) (event : Event) : JobState :=
  if state.ended.isSome then state
  else match event with
  | .commit => {state with committed := true}
  | .stop => {state with running := false}
  | .start =>
    if state.running then state
    else if state.committed then
      match resumeAfter drift with
      | .ok _ => {state with running := true}
      | .error error => {state with ended := some (endPreparation (some drift.snapshotGeneration) error)}
    else {state with running := (resumeBefore drift).toOption.isSome}
  | .deliver =>
    if state.running && state.committed then
      match received drift with
      | .ok _ => state
      | .error error =>
        if isBarrier error then
          {state with
            running := false
            ended := some (endStream drift.printable drift.telemetry (some drift.snapshotGeneration) error)}
        else {state with running := false}
    else state

def run (drift : Drift platform toVec) (state : JobState) (events : List Event) : JobState :=
  events.foldl (step drift) state

def initial (up : Bool) : JobState := ⟨false,up,none⟩

/- The job streams when the change commits and is not stopped before its message is delivered. -/
def MetInStream (drift : Drift platform toVec) (up : Bool) (events : List Event) : Prop :=
  ∃ before between after, events = before ++ .commit :: between ++ .deliver :: after ∧ .commit ∉ before ∧
    (run drift (initial up) before).running ∧ .stop ∉ between

def Barred (scope : DdlScope) : TransactionChange → Prop
  | .row _ => False
  | .truncate .. => True
  | .ddl message => scope.requiresBarrier message

def FirstBarrier (scope : DdlScope) (batch : TransactionBatch) (xid : Nat) (message : DdlMessage) : Prop :=
  ∃ past transaction future earlier later, batch.transactions = past ++ transaction :: future ∧
    transaction.changes = earlier ++ .ddl message :: later ∧ transaction.xid = xid ∧ scope.requiresBarrier message ∧
    (∀ other ∈ past, ∀ change ∈ other.changes, ¬ Barred scope change) ∧ ∀ change ∈ earlier, ¬ Barred scope change

def Reportable (drift : Drift platform toVec) : Prop :=
  ∀ xid message, FirstBarrier (ddlScope drift.job.sourceSettings) drift.batch xid message →
    Telemetry.CutsCleanly (ddlReason drift.printable message.commandTag xid message.relationIds message.affectedSchemas)

section Resume

theorem positionIff {job : StandaloneJob} {checkpoint : NodeCheckpoint} {slot : LogicalSlotState} :
    validateSlotPosition job checkpoint slot = .ok () ↔
      ¬ (slot.walStatus = some "lost" ∨ slot.invalidationReason.isSome ∨ slot.restartLsn = none ∨
        (∃ confirmed, slot.confirmedFlushLsn = some confirmed ∧ checkpoint.appliedLsn < confirmed) ∨
        ∃ restart, slot.restartLsn = some restart ∧ checkpoint.appliedLsn < restart) := by
  unfold validateSlotPosition
  by_cases lost : slot.walStatus = some "lost" ∨ slot.invalidationReason.isSome
  · rw [if_pos lost]
    constructor
    · intro absurd'
      contradiction
    · intro usable
      rcases lost with lost | lost
      · exact absurd (.inl lost) usable
      · exact absurd (.inr (.inl lost)) usable
  · rw [if_neg lost]
    obtain ⟨kept,valid⟩ := not_or.mp lost
    cases restart : slot.restartLsn <;> cases confirmed : slot.confirmedFlushLsn <;> simp [kept,valid,iteOk]

end Resume

section Stream

end Stream

section Run
variable (drift : Drift platform toVec)

inductive Outcome (up : Bool) (events : List Event) (outcome : RunEnd) : Prop where
  | barrier (named : Named drift.job.sourceSettings drift.change.command) (met : MetInStream drift up events)
  | resumed (error : RuntimeJobError) (failed : resumeAfter drift = .error error)
      (ends : outcome = endPreparation (some drift.snapshotGeneration) error)

structure Tracked (up : Bool) (events : List Event) (state : JobState) : Prop where
  waiting : state.committed = false → .commit ∉ events ∧ state.ended = none
  committed : state.committed → .commit ∈ events
  streaming : state.committed → state.running → state.ended = none → ∃ before between,
    events = before ++ .commit :: between ∧ .commit ∉ before ∧ (run drift (initial up) before).running ∧ .stop ∉ between
  ended : ∀ outcome, state.ended = some outcome → Outcome drift up events outcome

variable {drift}

theorem MetInStream.extend {up : Bool} {events : List Event} (met : MetInStream drift up events) (event : Event) :
    MetInStream drift up (events ++ [event]) := by
  obtain ⟨before,between,after,rfl,met⟩ := met
  exact ⟨before,between,after ++ [event],by simp,met⟩

theorem Outcome.extend {up : Bool} {events : List Event} {outcome} (reached : Outcome drift up events outcome)
    (event : Event) : Outcome drift up (events ++ [event]) outcome := by
  cases reached with
  | barrier named met => exact .barrier named (met.extend event)
  | resumed error failed ends => exact .resumed error failed ends

theorem runSnoc (state : JobState) (events : List Event) (event : Event) :
    run drift state (events ++ [event]) = step drift (run drift state events) event := by
  simp [run]

section Steps
variable {up : Bool} {events : List Event} {state : JobState} (tracked : Tracked drift up events state)
  (idle : state.ended = none)
include tracked idle

end Steps

end Run

section Sample

def noted (note : PgAttribute) (attnum : note.attnum = 2) : PgClass :=
  ordersRelation [⟨1,"id",20,-1,true,false,[],[],0⟩,note] (by simp [attnum]) ⟨_,List.mem_cons_self,rfl,rfl⟩

def withNote : PgClass := noted ⟨2,"note",25,-1,false,false,[],[],0⟩ rfl

def withoutNote : PgClass := noted ⟨2,"........pg.dropped.2........",0,-1,false,true,[],[],0⟩ rfl

def dropNote : DdlCommand :=
  ⟨"ALTER TABLE",ordersCatalog ["new"] withNote,ordersCatalog ["new"] withoutNote,[.relation 16510],[.column 16510 2],
    ordinarySession,sampleDigest,alterTableTagged⟩

def sampleJob : StandaloneJob := ⟨settings,appSettings,1⟩

def sampleCheckpoint : NodeCheckpoint := ⟨⟨7,1,0⟩,42,1,sampleJob.names.slot,100⟩

def sampleServer (catalog : PgCatalog) : SourceServer where
  systemIdentifier := 42
  timeline := 1
  catalog := catalog
  publications := [⟨sampleJob.names.publication,"etl",false,true,true,true,true,false,true,[16510]⟩]
  slots := [⟨sampleJob.names.slot,"pgoutput",some "app",false,false,some 100,some 90,some "reserved",none,false,false,false⟩]

def samplePlan (catalog : PgCatalog) : Except RuntimeJobError (List RuntimeTable) :=
  planSource sha256Platform compactBytes sampleJob (sampleServer catalog)

def sampleName (name : String) (valid : IdentifierValid name) : QualifiedName := ⟨"src__app__app",name,srcAppValid,valid⟩

def sampleShadow : QualifiedName := sampleName "pg2cb_shadow_00000000000000000000000000000007_16510_1" sampleShadowValid

def notedTable : TableSchema :=
  ⟨16510,1,⟨"app","orders",appValid,ordersValid⟩,.ordinary,.default,
    [⟨1,"id",⟨20,⟨"pg_catalog","int8",pgCatalogValid,int8Valid⟩,.int8⟩,false,some 1,.none,.none,none⟩,
     ⟨2,"note",⟨25,⟨"pg_catalog","text",pgCatalogValid,textValid⟩,.text⟩,true,none,.none,.none,none⟩],[],[]⟩

def notedRuntime : RuntimeTable where
  planned := ⟨notedTable,sampleName "orders" ordersValid,sampleShadow,
    "pg2cb_stage_00000000000000000000000000000007_16510_1",
    "sha256:3320a2bc33a8a7f69b6ba1fda5d1356f0615d5acbaf84c61a4d0534117ddf537"⟩
  snapshotPlan := ⟨sampleName "orders" ordersValid,
    ⟨sampleShadow,[⟨1,"id","bigint",false,some 1⟩,⟨2,"note","text",true,none⟩],["id"],["id"],[],
      "CREATE TABLE \"src__app__app\".\"pg2cb_shadow_00000000000000000000000000000007_16510_1\" (\n" ++
      "    \"id\" bigint NOT NULL,\n    \"note\" text,\n    PRIMARY KEY (\"id\")\n)\nUSING heap\n" ++
      "DISTRIBUTED BY (\"id\")"⟩,16510,1⟩

def sampleRequest : SnapshotActivationRequest := ⟨sampleJob.fence,1,activationTables [notedRuntime],[sampleCheckpoint]⟩

def sampleTarget : Target := Fencing.run sha256Platform StagedApply.textOperators emptyTarget [.activatePipelineFence sampleJob.fence,
  .beginSnapshotGroup sampleRequest,
  .snapshotApply notedRuntime.snapshotPlan ⟨sampleJob.fence,1,notedRuntime.planned.schemaFingerprint⟩ (some []),
  .activateSnapshotGroup 0 sampleRequest]

def unnotedEntry : SnapshotActivationTable := notedRuntime.snapshotPlan.activationTable
  "sha256:cf27af7e2e74b97b0628cdb7e4ee24909e5923804de2f8e3cd728086b31049e5"

theorem sampleReplanned : (samplePlan dropNote.after).toOption.map (fun tables =>
    (activationTables tables,tables.map (fun table => table.planned.source.name))) =
      some ([unnotedEntry],[notedTable.name]) := by
  simp only [samplePlan,compactFlat]
  decide +kernel

theorem samplePlanned : ∃ tables, samplePlan dropNote.after = .ok tables := by
  obtain ⟨tables,planned,_⟩ := Option.map_eq_some_iff.mp sampleReplanned
  exact okOfToOption (planned ▸ rfl)

end Sample

end CloudberryEtl.SchemaDrift
