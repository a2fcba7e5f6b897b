import CloudberryEtl.Reconciler

/-! Lease deadlines against the clocks: the guard of `engine::runtime::reconciler`, its watcher, the one loop of the
reconciler and the statements it sends, in small steps. Time passes between any two steps, a statement runs at any time
after it was sent or not at all, an await of it may fail at any time, and other holders change the leases meanwhile. The
order of reaping, renewing, stopping and starting between two passes is arbitrary; backoffs and jobs are left out. -/
namespace CloudberryEtl.LeaseDeadline
open KeyedTable
open Lease (PipelineLease LeaseTable Readings Request StoreError)
open Reconciler (ReconcilerConfig leaseStopAt)

/- The task of `watch_lease_deadline`: it sleeps until the deadline it has read, has cancelled the job, or is gone. -/
inductive Watcher where
  | asleep (stopAt : Nat)
  | fired
  | returned
  deriving DecidableEq, Repr

/- The guard and its watcher. `changed`: the channel holds a value that the watcher has not seen; `closed`: the guard was
dropped. -/
structure LeaseDeadlineGuard where
  deadline : Nat
  changed : Bool
  closed : Bool
  jobCancellation : Bool
  watcher : Watcher
  deriving DecidableEq, Repr

def LeaseDeadlineGuard.new (stopAt : Nat) : LeaseDeadlineGuard := ⟨stopAt,false,false,false,.asleep stopAt⟩

def LeaseDeadlineGuard.expired (guard : LeaseDeadlineGuard) (now : Nat) : Bool :=
  guard.jobCancellation || decide (guard.deadline ≤ now)

-- `Sender::send`: without a receiver it fails and the value stays.
def LeaseDeadlineGuard.send (guard : LeaseDeadlineGuard) (stopAt : Nat) : Bool × LeaseDeadlineGuard :=
  if guard.watcher = .returned then (false,guard) else (true,{guard with deadline := stopAt, changed := true})

def LeaseDeadlineGuard.drop (guard : LeaseDeadlineGuard) : LeaseDeadlineGuard :=
  {guard with jobCancellation := true, closed := true}

/- A turn of the watcher. The select is biased: a changed deadline is read again before the timer counts. -/
def watchLeaseDeadline (guard : LeaseDeadlineGuard) (now : Nat) : Option LeaseDeadlineGuard :=
  match guard.watcher with
  | .asleep stopAt =>
    if guard.changed then some {guard with changed := false, watcher := .asleep guard.deadline}
    else if guard.closed then some {guard with watcher := .returned}
    else if stopAt ≤ now then some {guard with jobCancellation := true, watcher := .fired}
    else none
  | .fired => some {guard with watcher := .returned}
  | .returned => none

structure OwnedPipeline where
  pipelineId : Nat
  lease : PipelineLease
  nextRenewal : Nat
  deadline : Nat
  deriving DecidableEq, Repr

structure Sent where
  started : Nat
  request : Request
  reply : Option (Except StoreError (Option PipelineLease))

/- The places of `start_pipeline` after the acquisition: before the first `expired()`, at the creation of the job, before
the second `expired()`, and at the start by the supervisor. -/
inductive Stage where
  | acquired
  | creating
  | created
  | handing
  deriving DecidableEq, Repr

structure Starting where
  stage : Stage
  pipelineId : Nat
  lease : PipelineLease
  acquireStarted : Nat
  deadline : Nat

structure Due where
  pipelineId : Nat
  lease : PipelineLease
  deriving DecidableEq, Repr

structure Renewal where
  due : Due
  requestStarted : Nat
  sent : Nat
  deriving DecidableEq, Repr

structure Rearming where
  renewal : Renewal
  renewed : PipelineLease
  deadline : Nat
  isOk : Option Bool

/- `renew_leases`: the due leases not yet asked for, the requests in flight, the guard at hand, the lost leases. -/
structure Pass where
  waiting : List Due
  inFlight : List Renewal
  rearming : Option Rearming
  lost : List Due

/- A pipeline that is no longer owned, or was not to be, until its lease is released and its guard dropped; `lost` are
the leases of the pass that follow it. -/
structure Leaving where
  lease : PipelineLease
  deadline : Option Nat
  release : Option Nat
  lost : List Due

inductive Phase where
  | between
  | acquiring (pipelineId acquireStarted sent : Nat)
  | starting (start : Starting)
  | renewing (pass : Pass)
  | leaving (leave : Leaving)

/- `stored` is the `expires_at` that the database stored last for a pipeline and an owner, `reading` its last reading of
the clock. -/
structure State where
  now : Nat
  table : LeaseTable
  stored : Nat → Nat × Int → Option Nat
  reading : Nat
  sent : List Sent
  guards : List LeaseDeadlineGuard
  owned : List OwnedPipeline
  phase : Phase

/- The database clock shows the local time and `offset`; `interval` is `$ttl * interval '1 second'` on the same scale, which
the database rounds. -/
structure Deployment where
  interval : Nat → Nat
  offset : Nat
  config : ReconcilerConfig
  holderId : Nat

/- That of PostgreSQL for nanoseconds: an interval has whole microseconds, and a half is rounded to the even one. -/
def wholeMicroseconds (duration : Nat) : Nat :=
  let whole := duration / 1000
  let rest := duration % 1000
  1000 * if rest < 500 ∨ (rest = 500 ∧ whole % 2 = 0) then whole else whole + 1

def Deployment.roundedAway (deployment : Deployment) : Nat :=
  deployment.config.leaseTtl - deployment.interval deployment.config.leaseTtl

inductive Action where
  | advance (duration : Nat)
  | others (call : Lease.Call)
  | execute (sent : Nat) (readings : Readings)
  | watch (guard : Nat)
  | startPipeline (pipelineId : Nat)
  | renewLeases (due : List OwnedPipeline)
  | stopOwned (pipelineId : Nat)
  | answered (failed : Bool)
  | renewed (pipelineId : Nat) (failed : Bool)
  | proceed (ok : Bool)

def Action.own : Action → Bool
  | .advance _ => false
  | .others _ => false
  | .execute _ _ => false
  | .watch _ => false
  | _ => true

def holderOf : Request → Nat
  | .tryAcquire _ holderId _ => holderId
  | .renew lease _ => lease.holderId
  | .release lease => lease.holderId

def maxConcurrentLeaseRenewals : Nat := 4

def record (stored : Nat → Nat × Int → Option Nat) (table : LeaseTable) (pipelineId : Nat) (owner : Nat × Int) : Option Nat :=
  match table.leases pipelineId with
  | some row => if row.owner = owner then some row.expiresAt else stored pipelineId owner
  | none => stored pipelineId owner

def outcome (state : State) (sent : Nat) (failed : Bool) : Option (Option PipelineLease) :=
  if failed then some none else (state.sent[sent]?.bind Sent.reply).map (fun reply => reply.toOption.join)

def expiredAt (state : State) (deadline : Nat) : Bool :=
  match state.guards[deadline]? with
  | some guard => guard.expired state.now
  | none => true

def stopAtOf (state : State) (owned : OwnedPipeline) : Nat :=
  (state.guards[owned.deadline]?.map LeaseDeadlineGuard.deadline).getD 0

def send (state : State) (request : Request) : State := {state with sent := state.sent ++ [⟨state.now,request,none⟩]}

def watch (state : State) (index : Nat) : Option State := do
  let guard ← state.guards[index]?
  let guard ← watchLeaseDeadline guard state.now
  some {state with guards := state.guards.set index guard}

def leaveNext (state : State) : List Due → State
  | [] => {state with phase := .between}
  | due :: lost => {state with
      owned := state.owned.filter (fun owned => owned.pipelineId ≠ due.pipelineId)
      phase := .leaving
        ⟨due.lease,(lookup OwnedPipeline.pipelineId state.owned due.pipelineId).map OwnedPipeline.deadline,none,lost⟩}

def stopOwned (state : State) (pipelineId : Nat) : Option State := do
  let owned ← lookup OwnedPipeline.pipelineId state.owned pipelineId
  some {state with
    owned := state.owned.filter (fun other => other.pipelineId ≠ pipelineId)
    phase := .leaving ⟨owned.lease,some owned.deadline,none,[]⟩}

def dropGuard (state : State) : Option Nat → State
  | none => state
  | some index => {state with guards := state.guards.modify index LeaseDeadlineGuard.drop}

def proceedLeaving (state : State) (leave : Leaving) : Option State :=
  match leave.release with
  | none => some {send state (.release leave.lease) with phase := .leaving {leave with release := some state.sent.length}}
  | some _ => none

def released (state : State) (leave : Leaving) (failed : Bool) : Option State := do
  let index ← leave.release
  let _ ← outcome state index failed
  some (leaveNext (dropGuard state leave.deadline) leave.lost)

def failStart (state : State) (start : Starting) : State :=
  {state with phase := .leaving ⟨start.lease,some start.deadline,none,[]⟩}

def takeRenewal (pass : Pass) (pipelineId : Nat) : Option (Renewal × List Renewal) :=
  (pass.inFlight.find? (fun renewal => renewal.due.pipelineId = pipelineId)).map
    (fun renewal => (renewal,pass.inFlight.filter (fun other => other.due.pipelineId ≠ pipelineId)))

def renewalAnswered (state : State) (pass : Pass) (pipelineId : Nat) (failed : Bool) : Option State :=
  match pass.rearming with
  | some _ => none
  | none => do
    let (renewal,inFlight) ← takeRenewal pass pipelineId
    let lease ← outcome state renewal.sent failed
    let lost : Pass := {pass with inFlight := inFlight, lost := pass.lost ++ [renewal.due]}
    match lease,lookup OwnedPipeline.pipelineId state.owned pipelineId with
    | some renewed,some owned =>
      if expiredAt state owned.deadline then some {state with phase := .renewing lost}
      else
        let rearming : Rearming := ⟨renewal,renewed,owned.deadline,none⟩
        some {state with phase := .renewing {pass with inFlight := inFlight, rearming := some rearming}}
    | _,_ => some {state with phase := .renewing lost}

section Deployed
variable (deployment : Deployment)

-- The clock is read while the statement runs, and last after every statement before it.
def readNow (state : State) (readings : Readings) : Prop :=
  readings.first ≤ readings.second ∧ state.reading ≤ readings.second ∧ readings.second ≤ state.now + deployment.offset

instance (state : State) (readings : Readings) : Decidable (readNow deployment state readings) :=
  inferInstanceAs (Decidable (_ ∧ _))

def perform (state : State) (call : Lease.Call) : State :=
  let table := Lease.step deployment.interval state.table call
  {state with table := table, stored := record state.stored table, reading := call.readings.second}

def execute (state : State) (index : Nat) (readings : Readings) : Option State := do
  let sent ← state.sent[index]?
  if sent.reply.isNone ∧ sent.started + deployment.offset ≤ readings.first ∧ readNow deployment state readings then
    let call : Lease.Call := ⟨readings,sent.request⟩
    let reply := (Lease.answer deployment.interval state.table call).map Prod.fst
    some {perform deployment state call with sent := state.sent.set index {sent with reply := some reply}}
  else none

def startPipeline (state : State) (pipelineId : Nat) : Option State :=
  if pipelineId ∈ state.owned.map OwnedPipeline.pipelineId then none
  else some {send state (.tryAcquire pipelineId deployment.holderId deployment.config.leaseTtl) with
    phase := .acquiring pipelineId state.now state.sent.length}

def acquireAnswered (state : State) (pipelineId acquireStarted index : Nat) (failed : Bool) : Option State := do
  match ← outcome state index failed with
  | none => some {state with phase := .between}
  | some lease => some {state with
      guards := state.guards ++ [.new (leaseStopAt deployment.config acquireStarted)]
      phase := .starting ⟨.acquired,pipelineId,lease,acquireStarted,state.guards.length⟩}

def proceedStarting (state : State) (start : Starting) (ok : Bool) : State :=
  match start.stage with
  | .acquired =>
    if expiredAt state start.deadline then failStart state start
    else {state with phase := .starting {start with stage := .creating}}
  | .creating => if ok then {state with phase := .starting {start with stage := .created}} else failStart state start
  | .created =>
    if expiredAt state start.deadline then failStart state start
    else {state with phase := .starting {start with stage := .handing}}
  | .handing =>
    if ok then
      let owned : OwnedPipeline := ⟨start.pipelineId,start.lease,
        start.acquireStarted + deployment.config.leaseRenewInterval,start.deadline⟩
      {state with owned := state.owned ++ [owned], phase := .between}
    else failStart state start

def renewLeases (state : State) (due : List OwnedPipeline) : Option State :=
  if due.Perm (state.owned.filter (fun owned => owned.nextRenewal ≤ state.now)) ∧
      due.Pairwise (fun first second => stopAtOf state first ≤ stopAtOf state second) then
    some {state with phase := .renewing ⟨due.map (fun owned => ⟨owned.pipelineId,owned.lease⟩),[],none,[]⟩}
  else none

def proceedRearming (state : State) (pass : Pass) (rearming : Rearming) : Option State :=
  match rearming.isOk with
  | none => do
    let guard ← state.guards[rearming.deadline]?
    let (isOk,guard) := guard.send (leaseStopAt deployment.config rearming.renewal.requestStarted)
    some {state with
      guards := state.guards.set rearming.deadline guard
      phase := .renewing {pass with rearming := some {rearming with isOk := some isOk}}}
  | some isOk =>
    let due := rearming.renewal.due
    if isOk && !expiredAt state rearming.deadline then
      let renewed := fun (owned : OwnedPipeline) =>
        if owned.pipelineId = due.pipelineId then {owned with
          lease := rearming.renewed
          nextRenewal := rearming.renewal.requestStarted + deployment.config.leaseRenewInterval}
        else owned
      some {state with owned := state.owned.map renewed, phase := .renewing {pass with rearming := none}}
    else some {state with phase := .renewing {pass with rearming := none, lost := pass.lost ++ [due]}}

def proceedRenewing (state : State) (pass : Pass) : Option State :=
  match pass.rearming,pass.waiting with
  | some rearming,_ => proceedRearming deployment state pass rearming
  | none,due :: waiting =>
    if pass.inFlight.length < maxConcurrentLeaseRenewals then
      let renewal : Renewal := ⟨due,state.now,state.sent.length⟩
      some {send state (.renew due.lease deployment.config.leaseTtl) with
        phase := .renewing {pass with waiting := waiting, inFlight := pass.inFlight ++ [renewal]}}
    else none
  | none,[] => if pass.inFlight = [] then some (leaveNext state pass.lost) else none

def act (state : State) : Action → Option State
  | .advance duration => some {state with now := state.now + duration}
  | .others call =>
    if holderOf call.request ≠ deployment.holderId ∧ readNow deployment state call.readings then
      some (perform deployment state call)
    else none
  | .execute index readings => execute deployment state index readings
  | .watch index => watch state index
  | .startPipeline pipelineId =>
    match state.phase with
    | .between => startPipeline deployment state pipelineId
    | _ => none
  | .renewLeases due =>
    match state.phase with
    | .between => renewLeases state due
    | _ => none
  | .stopOwned pipelineId =>
    match state.phase with
    | .between => stopOwned state pipelineId
    | _ => none
  | .answered failed =>
    match state.phase with
    | .acquiring pipelineId acquireStarted index =>
      acquireAnswered deployment state pipelineId acquireStarted index failed
    | .leaving leave => released state leave failed
    | _ => none
  | .renewed pipelineId failed =>
    match state.phase with
    | .renewing pass => renewalAnswered state pass pipelineId failed
    | _ => none
  | .proceed ok =>
    match state.phase with
    | .starting start => some (proceedStarting deployment state start ok)
    | .renewing pass => proceedRenewing deployment state pass
    | .leaving leave => proceedLeaving state leave
    | _ => none

def run (state : State) (actions : List Action) : Option State := actions.foldlM (act deployment) state

def Waits (state : State) : Action → Prop
  | .advance duration => ∀ guard ∈ state.guards, ∀ elapsed < duration, watchLeaseDeadline guard (state.now + elapsed) = none
  | _ => True

theorem waitsUntil {guard : LeaseDeadlineGuard} {now duration : Nat} :
    (∀ elapsed < duration, watchLeaseDeadline guard (now + elapsed) = none) ↔
      duration = 0 ∨ watchLeaseDeadline guard (now + (duration - 1)) = none := by
  constructor
  · intro waits
    rcases Nat.eq_zero_or_pos duration with zero | passes
    · exact .inl zero
    · exact .inr (waits _ (Nat.sub_lt passes Nat.one_pos))
  · rintro (rfl | idle) elapsed before
    · contradiction
    · simp only [watchLeaseDeadline] at idle ⊢
      split at idle
      · split at idle
        · contradiction
        · split at idle
          · contradiction
          · split at idle
            · contradiction
            · simp only [*,Bool.false_eq_true,if_false]
              exact if_neg (by omega)
      · contradiction
      · rfl

instance (state : State) : ∀ action, Decidable (Waits state action)
  | .advance duration => decidable_of_iff
      (∀ guard ∈ state.guards, duration = 0 ∨ watchLeaseDeadline guard (state.now + (duration - 1)) = none)
      (forall₂_congr fun _ _ => waitsUntil.symm)
  | .others _ | .execute _ _ | .watch _ | .startPipeline _ | .renewLeases _ | .stopOwned _ | .answered _ | .renewed _ _
  | .proceed _ => isTrue trivial

def Prompt (state : State) : List Action → Prop
  | [] => True
  | action :: actions => Waits state action ∧ ∀ next, act deployment state action = some next → Prompt next actions

instance : ∀ state actions, Decidable (Prompt deployment state actions)
  | _,[] => isTrue trivial
  | state,action :: actions =>
    match acted : act deployment state action with
    | none => decidable_of_iff (Waits state action) (by simp [Prompt,acted])
    | some next =>
      have : Decidable (Prompt deployment next actions) := instDecidablePrompt next actions
      decidable_of_iff (Waits state action ∧ Prompt deployment next actions) (by simp [Prompt,acted])

end Deployed

def initial (now reading : Nat) (table : LeaseTable) : State :=
  ⟨now,table,record (fun _ _ => none) table,reading,[],[],[],.between⟩

end CloudberryEtl.LeaseDeadline
