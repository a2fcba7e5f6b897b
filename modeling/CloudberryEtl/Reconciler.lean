import CloudberryEtl.Lease
import CloudberryEtl.KeyedTable
import CloudberryEtl.Telemetry

/-! Desired-state reconciliation of leased jobs: `engine::runtime::reconciler` over `engine::supervisor`. Every await
asks the world for what it answers, for the clock, and for the jobs that end by themselves meanwhile; the world is
arbitrary. The log is a history: leases acquired, jobs started and ended, releases attempted. Of the telemetry only the
records of finished tasks matter, which may panic and unwind the reconciler. -/
namespace CloudberryEtl.Reconciler
open KeyedTable Lease

structure PipelineDefinition where
  id : Nat
  desiredRunning : Bool
  configRevision : Int
  snapshotGeneration : Int
  deriving DecidableEq, Repr

structure ReconcilerConfig where
  pollInterval : Nat
  leaseTtl : Nat
  leaseRenewInterval : Nat
  restartBackoffInitial : Nat
  restartBackoffMax : Nat
  restartBackoffResetAfter : Nat
  deriving DecidableEq, Repr

inductive ReconcilerConfigError where
  | zeroPollInterval
  | zeroLeaseTtl
  | zeroRenewInterval
  | renewalTooLate
  | zeroInitialBackoff
  | backoffRange
  | zeroBackoffReset
  deriving DecidableEq, Repr

def ReconcilerConfig.validate (config : ReconcilerConfig) : Except ReconcilerConfigError Unit :=
  if config.pollInterval = 0 then .error .zeroPollInterval
  else if config.leaseTtl = 0 then .error .zeroLeaseTtl
  else if config.leaseRenewInterval = 0 then .error .zeroRenewInterval
  else if config.leaseTtl / 3 < config.leaseRenewInterval then .error .renewalTooLate
  else if config.restartBackoffInitial = 0 then .error .zeroInitialBackoff
  else if config.restartBackoffMax < config.restartBackoffInitial then .error .backoffRange
  else if config.restartBackoffResetAfter = 0 then .error .zeroBackoffReset
  else .ok ()

theorem renewsWithinThird {config : ReconcilerConfig} (accepted : config.validate = .ok ()) :
    0 < config.leaseRenewInterval ∧ config.leaseRenewInterval ≤ config.leaseTtl / 3 := by
  obtain ⟨_,accepted⟩ := Result.iteOk.mp accepted
  obtain ⟨_,accepted⟩ := Result.iteOk.mp accepted
  obtain ⟨positive,accepted⟩ := Result.iteOk.mp accepted
  obtain ⟨within,_⟩ := Result.iteOk.mp accepted
  exact ⟨Nat.pos_of_ne_zero positive,Nat.not_lt.mp within⟩

/- What one await brings. `acquire`, `renew` and `definitions` are the answers of the store, none for an error: a row
that RETURNING gives back has the pipeline and the holder of the request, and a renewed one also its token. `rank` is
the order in which a hash map is iterated or concurrent requests are answered, `reading` the clock at a pipeline, `joined`
what a finished task has returned, and `telemetry` the snapshot under a pipeline's handle, which it has since its start. -/
structure Moment where
  now : Nat
  reading : Nat → Nat
  ended : List Nat
  fired : List Nat
  rank : Nat → Nat
  acquire : Option (Option (Int × Nat))
  renew : Option (Option Nat)
  definitions : Option (List PipelineDefinition)
  created : Bool
  joined : Nat → Except Telemetry.SupervisorError Unit
  telemetry : Nat → Telemetry.PipelineRuntimeSnapshot

structure OwnedPipeline where
  pipelineId : Nat
  lease : PipelineLease
  configRevision : Int
  snapshotGeneration : Int
  startedAt : Nat
  nextRenewal : Nat
  stopAt : Nat
  deriving DecidableEq, Repr

structure RestartState where
  failures : Nat
  retryAt : Option Nat
  deriving DecidableEq, Repr

structure ManagedPipeline where
  pipelineId : Nat
  lease : PipelineLease
  finished : Bool
  deriving DecidableEq, Repr

inductive Event where
  | acquired (lease : PipelineLease)
  | started (lease : PipelineLease)
  | ended (lease : PipelineLease)
  | released (lease : PipelineLease)
  deriving DecidableEq, Repr

structure State where
  owned : List OwnedPipeline
  restart : Nat → Option RestartState
  pipelines : List ManagedPipeline
  log : List Event
  turn : Nat

def State.record (state : State) (event : Event) : State := {state with log := state.log ++ [event]}

def endJob (state : State) (pipelineId : Nat) : State :=
  match lookup ManagedPipeline.pipelineId state.pipelines pipelineId with
  | none => state
  | some managed =>
    if managed.finished then state
    else
      let finish := fun (other : ManagedPipeline) =>
        if other.pipelineId = pipelineId then {other with finished := true} else other
      {state with pipelines := state.pipelines.map finish, log := state.log ++ [.ended managed.lease]}

section World
variable (world : Nat → Moment)

def State.moment (state : State) : Moment := world state.turn

def await (state : State) : State := (state.moment world).ended.foldl endJob {state with turn := state.turn + 1}

-- The hash maps are iterated in any order.
def inOrder {α : Type} (moment : Moment) (pipelineId : α → Nat) (items : List α) : List α :=
  items.insertionSort (fun left right => moment.rank (pipelineId left) ≤ moment.rank (pipelineId right))

variable (idText durationText : Nat → String)

/- `PipelineSupervisor::reap_finished`: every finished task is removed, joined and recorded; none if a record panics. -/
def reapTasks (state : State) : Option (List Nat) × State :=
  let state := await world state
  let moment := state.moment world
  let finished := state.pipelines.filter ManagedPipeline.finished
  let ids := inOrder moment id (finished.map ManagedPipeline.pipelineId)
  let tasks := ids.map (fun pipelineId => (⟨pipelineId,moment.joined pipelineId,moment.now⟩ : Telemetry.Finished))
  let state := await world {state with pipelines := state.pipelines.filter (fun managed => !managed.finished)}
  match (Telemetry.reapFinished idText durationText tasks (fun pipelineId => some (moment.telemetry pipelineId))).1 with
  | .returned => (some ids,state)
  | .panicked => (none,state)

/- `PipelineSupervisor::start`; false when a task of the pipeline is still running. A finished one is joined and recorded
here too, but the reconciler starts no pipeline that has a task. -/
def startTask (state : State) (pipelineId : Nat) (lease : PipelineLease) : Bool × State :=
  let state := await world state
  let running := match lookup ManagedPipeline.pipelineId state.pipelines pipelineId with
    | some managed => !managed.finished
    | none => false
  if running then (false,state)
  else
    let state := await world
      {state with pipelines := state.pipelines.filter (fun managed => managed.pipelineId ≠ pipelineId)}
    if (lookup ManagedPipeline.pipelineId state.pipelines pipelineId).isSome then (false,state)
    else
      let managed : ManagedPipeline := ⟨pipelineId,lease,false⟩
      (true,State.record {state with pipelines := state.pipelines ++ [managed]} (.started lease))

/- `PipelineSupervisor::stop_with_timeout`: the task is taken out of the map, and it has ended at the return, by
itself, by its cancellation or by the abort. The record reports no error but the timeout, whose text is short. -/
def stopWithTimeout (state : State) (pipelineId : Nat) : State :=
  let state := await world state
  match lookup ManagedPipeline.pipelineId state.pipelines pipelineId with
  | none => state
  | some managed =>
    let state := await world
      {state with pipelines := state.pipelines.filter (fun other => other.pipelineId ≠ pipelineId)}
    if managed.finished then state else state.record (.ended managed.lease)

def release (state : State) (lease : PipelineLease) : State := await world (state.record (.released lease))

def removeOwned (state : State) (pipelineId : Nat) : State :=
  {state with owned := state.owned.filter (fun owned => owned.pipelineId ≠ pipelineId)}

def insertOwned (state : State) (owned : OwnedPipeline) : State :=
  {state with owned := state.owned.filter (fun other => other.pipelineId ≠ owned.pipelineId) ++ [owned]}

def forgetRestart (state : State) (pipelineId : Nat) : State :=
  {state with restart := Function.update state.restart pipelineId none}

variable (config : ReconcilerConfig)

def recordFailure (state : State) (pipelineId : Nat) : State :=
  let previous := (state.restart pipelineId).getD ⟨0,none⟩
  let delay := min (config.restartBackoffInitial * 2 ^ min previous.failures 31) config.restartBackoffMax
  let failed : RestartState :=
    ⟨min (previous.failures + 1) (2 ^ 32 - 1),some ((state.moment world).now + delay)⟩
  {state with restart := Function.update state.restart pipelineId (some failed)}

def markStarted (state : State) (pipelineId : Nat) : State :=
  match state.restart pipelineId with
  | none => state
  | some previous =>
    {state with restart := Function.update state.restart pipelineId (some {previous with retryAt := none})}

def canStart (state : State) (pipelineId now : Nat) : Bool :=
  match (state.restart pipelineId).bind RestartState.retryAt with
  | none => true
  | some retryAt => retryAt ≤ now

def isStable (state : State) (owned : OwnedPipeline) : Bool :=
  config.restartBackoffResetAfter ≤ (state.moment world).now - owned.startedAt

def leaseStopAt (requestStarted : Nat) : Nat := requestStarted + config.leaseTtl - config.leaseRenewInterval

-- `LeaseDeadlineGuard::expired`: the watcher has fired, or its time has come.
def expired (state : State) (pipelineId stopAt : Nat) : Bool :=
  decide (pipelineId ∈ (state.moment world).fired) || decide (stopAt ≤ (state.moment world).now)

def reapOne (state : State) (pipelineId : Nat) : State :=
  match lookup OwnedPipeline.pipelineId state.owned pipelineId with
  | none => state
  | some owned =>
    let stable := isStable world config state owned
    let state := release world (removeOwned state pipelineId) owned.lease
    let state := if stable then forgetRestart state pipelineId else state
    recordFailure world config state pipelineId

-- A panic of the supervisor drops the runtime state.
def reapFinished (state : State) : Except State State :=
  match reapTasks world idText durationText state with
  | (some ids,state) => .ok (ids.foldl (reapOne world config) state)
  | (none,state) => .error {state with owned := [], restart := fun _ => none}

def renewOne (progress : State × List OwnedPipeline) (due : OwnedPipeline) : State × List OwnedPipeline :=
  let moment := progress.1.moment world
  let state := await world progress.1
  let requestStarted := moment.reading due.pipelineId
  match moment.renew with
  | some (some expiresAt) =>
    match lookup OwnedPipeline.pipelineId state.owned due.pipelineId with
    | none => (state,progress.2 ++ [due])
    | some owned =>
      let stopAt := leaseStopAt config requestStarted
      if expired world state due.pipelineId owned.stopAt || expired world state due.pipelineId stopAt then
        (state,progress.2 ++ [due])
      else
        let renewed := fun (other : OwnedPipeline) =>
          if other.pipelineId = due.pipelineId then {other with
            lease := {due.lease with expiresAt := expiresAt}
            nextRenewal := requestStarted + config.leaseRenewInterval
            stopAt := stopAt}
          else other
        ({state with owned := state.owned.map renewed},progress.2)
  | _ => (state,progress.2 ++ [due])

def leaseLost (state : State) (lost : OwnedPipeline) : State :=
  let pipelineId := lost.pipelineId
  let owned := lookup OwnedPipeline.pipelineId state.owned pipelineId
  let state := release world (stopWithTimeout world (removeOwned state pipelineId) pipelineId) lost.lease
  match owned with
  | none => state
  | some owned =>
    let state := if isStable world config state owned then forgetRestart state pipelineId else state
    recordFailure world config state pipelineId

def renewLeases (state : State) : State :=
  let moment := state.moment world
  let due := inOrder moment OwnedPipeline.pipelineId
    (state.owned.filter (fun owned => owned.nextRenewal ≤ moment.reading owned.pipelineId))
  let (state,lost) := due.foldl (renewOne world config) (state,[])
  lost.foldl (leaseLost world config) state

def stopOwned (state : State) (pipelineId : Nat) : State :=
  match lookup OwnedPipeline.pipelineId state.owned pipelineId with
  | none => state
  | some owned => release world (stopWithTimeout world (removeOwned state pipelineId) pipelineId) owned.lease

variable (holderId : Nat)

def failStart (state : State) (lease : PipelineLease) : State :=
  recordFailure world config (release world state lease) lease.pipelineId

def startPipeline (state : State) (definition : PipelineDefinition) : State :=
  let acquireStarted := (state.moment world).now
  let answer := (state.moment world).acquire
  let state := await world state
  match answer with
  | none => recordFailure world config state definition.id
  | some none => state
  | some (some (fencingToken,expiresAt)) =>
    let lease : PipelineLease := ⟨definition.id,holderId,fencingToken,expiresAt⟩
    let state := state.record (.acquired lease)
    let stopAt := leaseStopAt config acquireStarted
    if expired world state definition.id stopAt then failStart world config state lease
    else
      let state := await world state
      let created := (state.moment world).created
      let state := await world state
      if !created then failStart world config state lease
      else if expired world state definition.id stopAt then failStart world config state lease
      else
        let (started,state) := startTask world state definition.id lease
        if !started then failStart world config state lease
        else
          let owned : OwnedPipeline := ⟨definition.id,lease,definition.configRevision,definition.snapshotGeneration,
            (state.moment world).now,acquireStarted + config.leaseRenewInterval,stopAt⟩
          markStarted (insertOwned state owned) definition.id

def reconcileOne (now : Nat) (state : State) (definition : PipelineDefinition) : State :=
  if !definition.desiredRunning then stopOwned world (forgetRestart state definition.id) definition.id
  else
    match lookup OwnedPipeline.pipelineId state.owned definition.id with
    | some owned =>
      if owned.configRevision = definition.configRevision ∧
          owned.snapshotGeneration = definition.snapshotGeneration then state
      else
        let state := forgetRestart (stopOwned world state definition.id) definition.id
        if canStart state definition.id now then startPipeline world config holderId state definition else state
    | none => if canStart state definition.id now then startPipeline world config holderId state definition else state

def reconcile (state : State) : State :=
  let answer := (state.moment world).definitions
  let state := await world state
  match answer with
  | none => state
  | some definitions =>
    let now := (state.moment world).now
    let seen := definitions.map PipelineDefinition.id
    let state := definitions.foldl (reconcileOne world config holderId now) state
    let obsolete := inOrder (state.moment world) id
      ((state.owned.map OwnedPipeline.pipelineId).filter (fun pipelineId => pipelineId ∉ seen))
    let state := obsolete.foldl (fun state pipelineId => forgetRestart (stopOwned world state pipelineId) pipelineId) state
    {state with restart := fun pipelineId => if pipelineId ∈ seen then state.restart pipelineId else none}

def tick (state : State) (pollDue : Bool) : Except State State := do
  let state ← reapFinished world idText durationText config state
  let state := renewLeases world config state
  .ok (if pollDue then reconcile world config holderId state else state)

def stopAll (state : State) : State :=
  let state := await world state
  let unfinished := inOrder (state.moment world) ManagedPipeline.pipelineId
    (state.pipelines.filter (fun managed => !managed.finished))
  unfinished.foldl (fun state managed => state.record (.ended managed.lease)) (await world {state with pipelines := []})

def shutdown (state : State) : State :=
  let owned := inOrder (state.moment world) id (state.owned.map OwnedPipeline.pipelineId)
  stopAll world (owned.foldl (stopOwned world) state)

inductive Action where
  | tick (pollDue : Bool)
  | shutdown
  deriving DecidableEq, Repr

-- An error is the state in which the reconciler has unwound.
def act (state : State) : Action → Except State State
  | .tick pollDue => tick world idText durationText config holderId state pollDue
  | .shutdown => .ok (shutdown world state)

def run (state : State) (actions : List Action) : Except State State :=
  actions.foldlM (act world idText durationText config holderId) state

end World

def reached : Except State State → State
  | .ok state => state
  | .error state => state

end CloudberryEtl.Reconciler
