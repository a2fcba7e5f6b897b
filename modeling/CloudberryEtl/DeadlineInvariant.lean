import CloudberryEtl.LeaseDeadline
import CloudberryEtl.Ownership

/-! What every step of the clocked reconciler keeps: the deadline of a lease that is held lies a safety margin before the
expiry that the database stored for it, and no watcher sleeps past the deadline of its guard. -/
namespace CloudberryEtl.LeaseDeadline
open KeyedTable Result
open Lease (PipelineLease LeaseTable Readings Request StoreError sameHolder)
open Reconciler (ReconcilerConfig leaseStopAt)
open Ownership (leaseKey)

section Database
variable {interval : Nat → Nat} {table table' : LeaseTable} {stored : Nat → Nat × Int → Option Nat} {readings : Readings}
  {pipelineId holderId ttl : Nat} {owner : Nat × Int} {lease row : PipelineLease}

def Issued (table : LeaseTable) (lease : PipelineLease) : Prop := ∃ row, table.leases lease.pipelineId = some row ∧
  lease.fencingToken ≤ row.fencingToken ∧ (lease.fencingToken = row.fencingToken → row.holderId = lease.holderId)

def Recorded (stored : Nat → Nat × Int → Option Nat) (table : LeaseTable) : Prop := ∀ pipelineId row,
  table.leases pipelineId = some row → stored pipelineId row.owner = some row.expiresAt

theorem durationSecondsOk {duration : Nat} (ok : Lease.durationSeconds duration = .ok ttl) : ttl = duration := by
  simp only [Lease.durationSeconds] at ok
  split at ok
  · exact (Except.ok.inj ok).symm
  · contradiction

theorem acquiredExpiry (ok : Lease.tryAcquireLease interval table readings pipelineId holderId ttl = .ok (some lease,table')) :
    lease.expiresAt = readings.first + interval ttl := by
  obtain ⟨seconds,duration,ok⟩ := bindOk.mp ok
  cases durationSecondsOk duration
  simp only at ok
  split at ok
  · obtain ⟨_,ok⟩ := iteOk.mp ok
    cases Except.ok.inj ok
    rfl
  · split at ok
    · obtain ⟨_,ok⟩ := iteOk.mp ok
      cases Except.ok.inj ok
      rfl
    · cases Except.ok.inj ok

theorem renewedExpiry (ok : Lease.renewLease interval table readings lease ttl = .ok (some row,table')) :
    row.expiresAt = readings.second + interval ttl := by
  obtain ⟨seconds,duration,ok⟩ := bindOk.mp ok
  cases durationSecondsOk duration
  split at ok
  · cases Except.ok.inj ok
  · split at ok
    · cases Except.ok.inj ok
      rfl
    · cases Except.ok.inj ok

theorem issuedRow (found : table.leases lease.pipelineId = some lease) : Issued table lease :=
  ⟨lease,found,Int.le_refl _,fun _ => rfl⟩

theorem issuedStep (issued : Issued table lease) (call : Lease.Call) : Issued (Lease.step interval table call) lease := by
  obtain ⟨row,found,later,holder⟩ := issued
  have effect := Lease.stepEffect interval table call lease.pipelineId
  rw [found] at effect
  generalize moved : (Lease.step interval table call).leases lease.pipelineId = after at effect
  generalize Lease.acquired interval lease.pipelineId table call = gained at effect
  cases effect with
  | idle => exact ⟨row,moved,later,holder⟩
  | @acquire _ next token =>
    have newer : next.fencingToken = row.fencingToken + 1 := token
    exact ⟨next,moved,by omega,fun same => by omega⟩
  | @renew _ renewed same _ _ =>
    exact ⟨renewed,moved,same.2 ▸ later,fun token => same.1.trans (holder (token.trans same.2))⟩
  | @release _ released same _ _ =>
    exact ⟨released,moved,same.2 ▸ later,fun token => same.1.trans (holder (token.trans same.2))⟩

theorem recordRow (found : table.leases pipelineId = some row) : record stored table pipelineId row.owner = some row.expiresAt := by
  simp [record,found]

theorem recordOther (found : table.leases pipelineId = some row) (other : row.owner ≠ owner) :
    record stored table pipelineId owner = stored pipelineId owner := by
  simp [record,found,other]

theorem recordUnmoved (recorded : Recorded stored table) (same : table'.leases pipelineId = table.leases pipelineId) :
    record stored table' pipelineId owner = stored pipelineId owner := by
  unfold record
  rw [same]
  split
  · rename_i row found
    split
    · rename_i here
      rw [← here]
      exact (recorded pipelineId row found).symm
    · rfl
  · rfl

theorem recordedStep : Recorded (record stored table) table := fun _ _ found => recordRow found

theorem storedStep (recorded : Recorded stored table) (issued : Issued table lease) (call : Lease.Call) :
    record stored (Lease.step interval table call) lease.pipelineId lease.owner = stored lease.pipelineId lease.owner ∨
      (∃ asked ttl, call.request = .renew asked ttl ∧ leaseKey asked = leaseKey lease ∧
        record stored (Lease.step interval table call) lease.pipelineId lease.owner =
          some (call.readings.second + interval ttl)) ∨
      ∃ asked, call.request = .release asked ∧ leaseKey asked = leaseKey lease := by
  obtain ⟨readings,request⟩ := call
  cases request with
  | tryAcquire requested holderId ttl =>
    left
    simp only [Lease.step,Lease.answer]
    cases result : Lease.tryAcquireLease interval table readings requested holderId ttl with
    | error error => exact recordUnmoved recorded rfl
    | ok pair =>
      obtain ⟨outcome,table'⟩ := pair
      rcases Lease.acquireSource result with ⟨rfl,rfl⟩ | ⟨gained,rfl,rfl,rfl,_,token⟩
      · exact recordUnmoved recorded rfl
      · by_cases here : gained.pipelineId = lease.pipelineId
        · obtain ⟨row,found,later,_⟩ := issued
          have newer : gained.fencingToken = row.fencingToken + 1 := by simpa [here,found] using token
          have other : gained.owner ≠ lease.owner := by
            intro same
            have := congrArg Prod.snd same
            simp only [PipelineLease.owner] at this
            omega
          exact recordOther (here ▸ Lease.putSame _ gained) other
        · exact recordUnmoved recorded (Lease.putOther here)
  | renew asked ttl =>
    simp only [Lease.step,Lease.answer]
    cases result : Lease.renewLease interval table readings asked ttl with
    | error error => exact .inl (recordUnmoved recorded rfl)
    | ok pair =>
      obtain ⟨outcome,table'⟩ := pair
      rcases Lease.renewSource result with ⟨_,rfl,_⟩ | ⟨row,renewed,found,owned,_,rfl,named,same,rfl⟩
      · exact .inl (recordUnmoved recorded rfl)
      · by_cases here : asked.pipelineId = lease.pipelineId
        · have at' : (table.put renewed).leases lease.pipelineId = some renewed := by
            rw [← here,← named]
            exact Lease.putSame table renewed
          have owners : renewed.owner = asked.owner := (Lease.ownerSame.mp same).trans (Lease.ownerSame.mp owned)
          by_cases mine : asked.owner = lease.owner
          · refine .inr (.inl ⟨asked,ttl,rfl,?_,?_⟩)
            · rw [leaseKey,leaseKey,here]
              exact congrArg (Prod.mk lease.pipelineId) mine
            · rw [← mine,← owners,recordRow at']
              exact congrArg some (renewedExpiry result)
          · exact .inl (recordOther at' (by rwa [owners]))
        · exact .inl (recordUnmoved recorded (Lease.putOther (named.trans_ne here)))
  | release asked =>
    simp only [Lease.step,Lease.answer]
    rcases Lease.releaseSource table readings asked with kept | ⟨row,released,found,owned,named,same,_,changed⟩
    · rw [kept]
      exact .inl (recordUnmoved recorded rfl)
    · rw [changed]
      by_cases here : asked.pipelineId = lease.pipelineId
      · have at' : (table.put released).leases lease.pipelineId = some released := by
          rw [← here,← named]
          exact Lease.putSame table released
        have owners : released.owner = asked.owner := (Lease.ownerSame.mp same).trans (Lease.ownerSame.mp owned)
        by_cases mine : asked.owner = lease.owner
        · refine .inr (.inr ⟨asked,rfl,?_⟩)
          rw [leaseKey,leaseKey,here]
          exact congrArg (Prod.mk lease.pipelineId) mine
        · exact .inl (recordOther at' (by rwa [owners]))
      · exact .inl (recordUnmoved recorded (Lease.putOther (named.trans_ne here)))

theorem answerSource {call : Lease.Call} {outcome : Option PipelineLease}
    (reply : (Lease.answer interval table call).map Prod.fst = .ok outcome) :
    ∃ table', Lease.answer interval table call = .ok (outcome,table') ∧ Lease.step interval table call = table' := by
  simp only [Lease.step]
  cases result : Lease.answer interval table call with
  | error error => rw [result] at reply; contradiction
  | ok pair =>
    rw [result] at reply
    cases Except.ok.inj reply
    exact ⟨pair.2,rfl,rfl⟩

theorem acquireReply (reply : (Lease.answer interval table ⟨readings,.tryAcquire pipelineId holderId ttl⟩).map Prod.fst =
    .ok (some lease)) :
    lease.pipelineId = pipelineId ∧ lease.holderId = holderId ∧
      lease.fencingToken = ((table.leases pipelineId).map PipelineLease.fencingToken).getD 0 + 1 ∧
      (Lease.step interval table ⟨readings,.tryAcquire pipelineId holderId ttl⟩).leases lease.pipelineId = some lease ∧
      lease.expiresAt = readings.first + interval ttl := by
  obtain ⟨table',ok,after⟩ := answerSource reply
  rw [after]
  rcases Lease.acquireSource ok with ⟨nothing,_⟩ | ⟨gained,same,named,rfl,holder,token⟩
  · contradiction
  · cases Option.some.inj same
    exact ⟨named,holder,token,Lease.putSame table lease,acquiredExpiry ok⟩

theorem renewReply (reply : (Lease.answer interval table ⟨readings,.renew lease ttl⟩).map Prod.fst = .ok (some row)) :
    leaseKey row = leaseKey lease ∧
      (Lease.step interval table ⟨readings,.renew lease ttl⟩).leases lease.pipelineId = some row ∧
      row.expiresAt = readings.second + interval ttl := by
  obtain ⟨table',ok,after⟩ := answerSource reply
  rw [after]
  rcases Lease.renewSource ok with ⟨nothing,_⟩ | ⟨stored,renewed,_,owned,_,same,named,kept,rfl⟩
  · contradiction
  · cases Option.some.inj same
    have owner : row.owner = lease.owner := (Lease.ownerSame.mp kept).trans (Lease.ownerSame.mp owned)
    have key : leaseKey row = leaseKey lease := by
      rw [leaseKey,leaseKey,named]
      exact congrArg (Prod.mk lease.pipelineId) owner
    exact ⟨key,named ▸ Lease.putSame table row,renewedExpiry ok⟩

theorem sameLease {other : PipelineLease} (same : leaseKey lease = leaseKey other) :
    lease.pipelineId = other.pipelineId ∧ lease.owner = other.owner := Prod.mk.inj same

end Database

section Invariant
variable (deployment : Deployment)

/- The leases that the reconciler holds, with their deadlines: of an owned pipeline, of one that is being started, and one
that the database has granted to the acquisition in flight. -/
inductive Holds (state : State) : PipelineLease → Nat → Prop where
  | owned {owned guard} (mem : owned ∈ state.owned) (found : state.guards[owned.deadline]? = some guard) :
      Holds state owned.lease guard.deadline
  | starting {start guard} (phase : state.phase = .starting start) (found : state.guards[start.deadline]? = some guard) :
      Holds state start.lease guard.deadline
  | granted {pipelineId acquireStarted index sent lease} (phase : state.phase = .acquiring pipelineId acquireStarted index)
      (found : state.sent[index]? = some sent) (reply : sent.reply = some (.ok (some lease))) :
      Holds state lease (leaseStopAt deployment.config acquireStarted)

structure Covered (state : State) (lease : PipelineLease) (stopAt : Nat) : Prop where
  issued : Issued state.table lease
  holder : lease.holderId = deployment.holderId
  expiry : ∃ expiresAt, state.stored lease.pipelineId lease.owner = some expiresAt ∧
    stopAt + deployment.config.leaseRenewInterval + deployment.offset ≤ expiresAt + deployment.roundedAway ∧
    expiresAt ≤ state.reading + deployment.interval deployment.config.leaseTtl

def SentSound (state : State) (sent : Sent) : Prop :=
  sent.started ≤ state.now ∧
  match sent.request with
  | .tryAcquire _ _ ttl => ttl = deployment.config.leaseTtl
  | .renew _ ttl => ttl = deployment.config.leaseTtl
  | .release lease => Issued state.table lease ∧ (sent.reply = none → ∀ held stopAt, Holds deployment state held stopAt →
      leaseKey lease ≠ leaseKey held)

structure Books (state : State) : Prop where
  recorded : Recorded state.stored state.table
  covered : ∀ lease stopAt, Holds deployment state lease stopAt → Covered deployment state lease stopAt
  sent : ∀ sent ∈ state.sent, SentSound deployment state sent

structure GuardSound (now : Nat) (guard : LeaseDeadlineGuard) : Prop where
  within : guard.deadline ≤ leaseStopAt deployment.config now
  sleeps : ∀ stopAt, guard.watcher = .asleep stopAt → stopAt ≤ guard.deadline
  awake : (∀ stopAt, guard.watcher ≠ .asleep stopAt) → guard.jobCancellation = true
  closed : guard.closed = true → guard.jobCancellation = true

structure Roster (state : State) : Prop where
  guards : ∀ guard ∈ state.guards, GuardSound deployment state.now guard
  keys : UniqueKeys OwnedPipeline.pipelineId state.owned
  deadlines : UniqueKeys OwnedPipeline.deadline state.owned
  owned : ∀ owned ∈ state.owned, owned.lease.pipelineId = owned.pipelineId ∧ owned.deadline < state.guards.length

def Backed (state : State) (due : Due) : Prop :=
  ∃ owned ∈ state.owned, owned.pipelineId = due.pipelineId ∧ leaseKey owned.lease = leaseKey due.lease

def Fresh (state : State) (renewal : Renewal) : Prop :=
  ∀ owned ∈ state.owned, owned.pipelineId = renewal.due.pipelineId → ∀ guard, state.guards[owned.deadline]? = some guard →
    guard.deadline ≤ leaseStopAt deployment.config renewal.requestStarted

structure Promised (state : State) (renewal : Renewal) (renewed : PipelineLease) : Prop where
  same : leaseKey renewed = leaseKey renewal.due.lease
  expiry : ∃ expiresAt, state.stored renewal.due.lease.pipelineId renewal.due.lease.owner = some expiresAt ∧
    renewal.requestStarted + deployment.config.leaseTtl + deployment.offset ≤ expiresAt + deployment.roundedAway

structure InFlightSound (state : State) (renewal : Renewal) : Prop where
  fresh : Fresh deployment state renewal
  sent : ∃ sent, state.sent[renewal.sent]? = some sent ∧ sent.started = renewal.requestStarted ∧
    sent.request = .renew renewal.due.lease deployment.config.leaseTtl ∧
    ∀ renewed, sent.reply = some (.ok (some renewed)) → Promised deployment state renewal renewed

structure RearmingSound (state : State) (rearming : Rearming) : Prop where
  guard : ∃ owned ∈ state.owned, owned.pipelineId = rearming.renewal.due.pipelineId ∧ owned.deadline = rearming.deadline
  past : rearming.renewal.requestStarted ≤ state.now
  promised : Promised deployment state rearming.renewal rearming.renewed
  before : rearming.isOk = none → Fresh deployment state rearming.renewal ∧
    ∀ guard, state.guards[rearming.deadline]? = some guard → rearming.renewal.requestStarted < guard.deadline

def dues (pass : Pass) : List Due :=
  pass.waiting ++ (pass.inFlight.map Renewal.due ++
    ((pass.rearming.map (fun rearming => rearming.renewal.due)).toList ++ pass.lost))

structure PassSound (state : State) (pass : Pass) : Prop where
  apart : ((dues pass).map Due.pipelineId).Nodup
  backed : ∀ due ∈ dues pass, Backed state due
  inFlight : ∀ renewal ∈ pass.inFlight, InFlightSound deployment state renewal
  rearming : ∀ rearming, pass.rearming = some rearming → RearmingSound deployment state rearming

structure LeavingSound (state : State) (leave : Leaving) : Prop where
  issued : Issued state.table leave.lease
  left : ∀ owned ∈ state.owned, owned.pipelineId ≠ leave.lease.pipelineId
  apart : (leave.lost.map Due.pipelineId).Nodup
  backed : ∀ due ∈ leave.lost, Backed state due

structure StartingSound (state : State) (start : Starting) : Prop where
  apart : ∀ owned ∈ state.owned, owned.pipelineId ≠ start.pipelineId ∧ owned.deadline ≠ start.deadline
  named : start.lease.pipelineId = start.pipelineId
  guard : start.deadline < state.guards.length

structure AcquiringSound (state : State) (pipelineId acquireStarted index : Nat) : Prop where
  apart : ∀ owned ∈ state.owned, owned.pipelineId ≠ pipelineId
  sent : ∃ sent, state.sent[index]? = some sent ∧ sent.started = acquireStarted ∧
    sent.request = .tryAcquire pipelineId deployment.holderId deployment.config.leaseTtl ∧
    ∀ lease, sent.reply = some (.ok (some lease)) → lease.pipelineId = pipelineId

def PhaseSound (state : State) : Phase → Prop
  | .between => True
  | .acquiring pipelineId acquireStarted index => AcquiringSound deployment state pipelineId acquireStarted index
  | .starting start => StartingSound state start
  | .renewing pass => PassSound deployment state pass
  | .leaving leave => LeavingSound state leave

structure Sound (state : State) : Prop where
  books : Books deployment state
  roster : Roster deployment state
  phase : PhaseSound deployment state state.phase

end Invariant

section Holding
variable {deployment : Deployment} {state state' : State} {lease : PipelineLease} {stopAt : Nat}

def Quiet : Phase → Prop
  | .acquiring _ _ _ => False
  | .starting _ => False
  | _ => True

def SameDeadlines (guards guards' : List LeaseDeadlineGuard) : Prop := ∀ (index : Nat) (guard : LeaseDeadlineGuard),
  guards'[index]? = some guard → ∃ before : LeaseDeadlineGuard, guards[index]? = some before ∧
    before.deadline = guard.deadline ∧ (before.jobCancellation = true → guard.jobCancellation = true)

theorem holdsQuiet (quiet : Quiet state.phase) (holds : Holds deployment state lease stopAt) :
    ∃ owned ∈ state.owned, ∃ guard, state.guards[owned.deadline]? = some guard ∧ owned.lease = lease ∧
      guard.deadline = stopAt := by
  cases holds with
  | owned mem found => exact ⟨_,mem,_,found,rfl,rfl⟩
  | starting phase _ => rw [phase] at quiet; exact quiet.elim
  | granted phase _ _ => rw [phase] at quiet; exact quiet.elim

theorem holdsSubset (state : State) (quiet : Quiet state'.phase) (owned : ∀ owned ∈ state'.owned, owned ∈ state.owned)
    (guards : SameDeadlines state.guards state'.guards)
    (holds : Holds deployment state' lease stopAt) : Holds deployment state lease stopAt := by
  obtain ⟨pipeline,mem,guard,found,rfl,rfl⟩ := holdsQuiet quiet holds
  obtain ⟨before,was,same,_⟩ := guards _ _ found
  rw [← same]
  exact .owned (owned _ mem) was

theorem holdsFrame (owned : state'.owned = state.owned) (phase : state'.phase = state.phase) (sent : state'.sent = state.sent)
    (guards : SameDeadlines state.guards state'.guards)
    (holds : Holds deployment state' lease stopAt) : Holds deployment state lease stopAt := by
  cases holds with
  | owned mem found =>
    obtain ⟨before,was,same,_⟩ := guards _ _ found
    rw [← same]
    exact .owned (owned ▸ mem) was
  | starting here found =>
    obtain ⟨before,was,same,_⟩ := guards _ _ found
    rw [← same]
    exact .starting (phase ▸ here) was
  | granted here found reply => exact .granted (phase ▸ here) (sent ▸ found) reply

theorem moveBooks (books : Books deployment state) (table : state'.table = state.table) (stored : state'.stored = state.stored)
    (reading : state'.reading = state.reading) (later : state.now ≤ state'.now)
    (sent : ∀ sent ∈ state'.sent, sent ∈ state.sent ∨ SentSound deployment state' sent)
    (holds : ∀ lease stopAt, Holds deployment state' lease stopAt → Covered deployment state lease stopAt ∧
      ∃ held was, Holds deployment state held was ∧ leaseKey held = leaseKey lease) : Books deployment state' := by
  constructor
  · rw [table,stored]
    exact books.recorded
  · intro lease stopAt held
    obtain ⟨⟨issued,holder,expiry⟩,_⟩ := holds lease stopAt held
    exact ⟨table ▸ issued,holder,by rwa [stored,reading]⟩
  · intro one mem
    rcases sent one mem with was | now
    · obtain ⟨started,request⟩ := books.sent one was
      have bounded := Nat.le_trans started later
      cases asked : one.request with
      | tryAcquire _ _ _ => simpa [SentSound,asked,bounded] using request
      | renew _ _ => simpa [SentSound,asked,bounded] using request
      | release lease =>
        simp only [asked] at request
        simp only [SentSound,asked]
        refine ⟨bounded,table ▸ request.1,fun pending other stopAt mine => ?_⟩
        obtain ⟨_,held,before,held',same⟩ := holds other stopAt mine
        rw [← same]
        exact request.2 pending held before held'
    · exact now

theorem keepBooks (books : Books deployment state) (table : state'.table = state.table) (stored : state'.stored = state.stored)
    (reading : state'.reading = state.reading) (later : state.now ≤ state'.now)
    (sent : ∀ sent ∈ state'.sent, sent ∈ state.sent ∨ SentSound deployment state' sent)
    (holds : ∀ lease stopAt, Holds deployment state' lease stopAt → Holds deployment state lease stopAt) :
    Books deployment state' :=
  moveBooks books table stored reading later sent fun lease stopAt held =>
    ⟨books.covered _ _ (holds lease stopAt held),lease,stopAt,holds lease stopAt held,rfl⟩

end Holding

section Statements
variable {deployment : Deployment} {state : State} {lease renewed : PipelineLease} {stopAt expiresAt : Nat} {call : Lease.Call}
  {renewal : Renewal}

structure Harmless (deployment : Deployment) (state : State) (call : Lease.Call) : Prop where
  ordered : state.reading ≤ call.readings.second
  renews : ∀ asked ttl lease stopAt, call.request = .renew asked ttl → Holds deployment state lease stopAt →
    leaseKey asked = leaseKey lease → ttl = deployment.config.leaseTtl
  releases : ∀ asked lease stopAt, call.request = .release asked → Holds deployment state lease stopAt →
    leaseKey asked ≠ leaseKey lease

theorem storedGrows (books : Books deployment state) (harmless : Harmless deployment state call)
    (holds : Holds deployment state lease stopAt) (found : state.stored lease.pipelineId lease.owner = some expiresAt) :
    ∃ later, (perform deployment state call).stored lease.pipelineId lease.owner = some later ∧ expiresAt ≤ later ∧
      later ≤ call.readings.second + deployment.interval deployment.config.leaseTtl := by
  obtain ⟨issued,_,_,current,_,bounded⟩ := books.covered lease stopAt holds
  cases Option.some.inj (found.symm.trans current)
  have ordered := harmless.ordered
  rcases storedStep books.recorded issued call with kept | ⟨asked,ttl,request,same,moved⟩ | ⟨asked,request,same⟩
  · exact ⟨expiresAt,kept.trans found,Nat.le_refl _,by omega⟩
  · cases harmless.renews asked ttl lease stopAt request holds same
    exact ⟨_,moved,by omega,Nat.le_refl _⟩
  · exact absurd same (harmless.releases asked lease stopAt request holds)

theorem coveredPerform (books : Books deployment state) (harmless : Harmless deployment state call)
    (holds : Holds deployment state lease stopAt) : Covered deployment (perform deployment state call) lease stopAt := by
  obtain ⟨issued,holder,expiresAt,found,margin,_⟩ := books.covered lease stopAt holds
  obtain ⟨later,after,grown,bounded⟩ := storedGrows books harmless holds found
  exact ⟨issuedStep issued call,holder,later,after,Nat.le_trans margin (Nat.add_le_add_right grown _),bounded⟩

theorem holdsPerform (holds : Holds deployment (perform deployment state call) lease stopAt) :
    Holds deployment state lease stopAt := by
  have owned : (perform deployment state call).owned = state.owned := rfl
  exact holdsFrame owned rfl rfl (fun _ guard found => ⟨guard,found,rfl,id⟩) holds

theorem performBooks (books : Books deployment state) (harmless : Harmless deployment state call) :
    Books deployment (perform deployment state call) := by
  refine ⟨recordedStep,fun lease stopAt holds => coveredPerform books harmless (holdsPerform holds),fun sent mem => ?_⟩
  obtain ⟨started,request⟩ := books.sent sent mem
  refine ⟨started,?_⟩
  cases asked : sent.request with
  | tryAcquire _ _ _ => simpa [asked] using request
  | renew _ _ => simpa [asked] using request
  | release lease =>
    simp only [asked] at request
    exact ⟨issuedStep request.1 call,fun pending held stopAt holds => request.2 pending held stopAt (holdsPerform holds)⟩

theorem backedHolds {due : Due} (roster : Roster deployment state) (backed : Backed state due) :
    ∃ lease stopAt, Holds deployment state lease stopAt ∧ leaseKey lease = leaseKey due.lease := by
  obtain ⟨owned,mem,_,same⟩ := backed
  obtain ⟨_,room⟩ := roster.owned owned mem
  exact ⟨owned.lease,_,.owned mem (List.getElem?_eq_getElem room),same⟩

theorem promisedPerform (books : Books deployment state) (roster : Roster deployment state)
    (harmless : Harmless deployment state call) (backed : Backed state renewal.due)
    (promised : Promised deployment state renewal renewed) :
    Promised deployment (perform deployment state call) renewal renewed := by
  obtain ⟨lease,stopAt,holds,same⟩ := backedHolds roster backed
  obtain ⟨pipelineId,owner⟩ := sameLease same
  obtain ⟨key,expiresAt,found,bound⟩ := promised
  rw [← pipelineId,← owner] at found
  obtain ⟨later,after,grown,_⟩ := storedGrows books harmless holds found
  rw [pipelineId,owner] at after
  exact ⟨key,later,after,Nat.le_trans bound (Nat.add_le_add_right grown _)⟩

theorem performSound (sound : Sound deployment state) (harmless : Harmless deployment state call) :
    Sound deployment (perform deployment state call) := by
  obtain ⟨books,roster,phase⟩ := sound
  refine ⟨performBooks books harmless,⟨roster.guards,roster.keys,roster.deadlines,roster.owned⟩,?_⟩
  change PhaseSound deployment (perform deployment state call) state.phase
  cases here : state.phase with
  | between => trivial
  | acquiring pipelineId acquireStarted index => rw [here] at phase; exact ⟨phase.apart,phase.sent⟩
  | starting start => rw [here] at phase; exact ⟨phase.apart,phase.named,phase.guard⟩
  | renewing pass =>
    rw [here] at phase
    refine ⟨phase.apart,phase.backed,fun renewal mem => ?_,fun rearming some' => ?_⟩
    · have backed : Backed state renewal.due := phase.backed _ (by simp [dues,List.mem_map_of_mem mem])
      obtain ⟨fresh,sent,found,started,request,promised⟩ := phase.inFlight renewal mem
      exact ⟨fresh,sent,found,started,request,fun renewed reply =>
        promisedPerform books roster harmless backed (promised renewed reply)⟩
    · have backed : Backed state rearming.renewal.due := phase.backed _ (by simp [dues,some'])
      obtain ⟨guard,past,promised,before⟩ := phase.rearming rearming some'
      exact ⟨guard,past,promisedPerform books roster harmless backed promised,before⟩
  | leaving leave =>
    rw [here] at phase
    exact ⟨issuedStep phase.issued call,phase.left,phase.apart,phase.backed⟩

theorem othersHarmless (books : Books deployment state) (foreign : holderOf call.request ≠ deployment.holderId)
    (reads : readNow deployment state call.readings) : Harmless deployment state call := by
  have holders : ∀ asked lease stopAt, holderOf call.request = asked.holderId → Holds deployment state lease stopAt →
      leaseKey asked ≠ leaseKey lease := by
    intro asked lease stopAt holder holds same
    have owner := congrArg Prod.fst (sameLease same).2
    exact foreign (holder.trans (owner.trans (books.covered lease stopAt holds).holder))
  refine ⟨reads.2.1,fun asked ttl lease stopAt request holds same => ?_,fun asked lease stopAt request holds => ?_⟩
  · exact absurd same (holders asked lease stopAt (by rw [request]; rfl) holds)
  · exact holders asked lease stopAt (by rw [request]; rfl) holds

end Statements

section Execution
variable {deployment : Deployment} {state state' : State} {lease : PipelineLease} {stopAt index : Nat} {readings : Readings}
  {sent one : Sent}

theorem executeSource (ok : execute deployment state index readings = some state') :
    ∃ sent, state.sent[index]? = some sent ∧ sent.reply = none ∧ sent.started + deployment.offset ≤ readings.first ∧
      readNow deployment state readings ∧
      state' = {perform deployment state ⟨readings,sent.request⟩ with sent := state.sent.set index {sent with
        reply := some ((Lease.answer deployment.interval state.table ⟨readings,sent.request⟩).map Prod.fst)}} := by
  obtain ⟨sent,found,ok⟩ := Option.bind_eq_some_iff.mp ok
  split at ok
  · rename_i conditions
    obtain ⟨pending,started,reads⟩ := conditions
    exact ⟨sent,found,Option.isNone_iff_eq_none.mp pending,started,reads,(Option.some.inj ok).symm⟩
  · contradiction

theorem ownHarmless (books : Books deployment state) (mem : sent ∈ state.sent) (pending : sent.reply = none)
    (reads : readNow deployment state readings) : Harmless deployment state ⟨readings,sent.request⟩ := by
  obtain ⟨_,request⟩ := books.sent sent mem
  constructor
  · exact reads.2.1
  · intro asked ttl _ _ renews _ _
    simp only at renews
    rwa [renews] at request
  · intro asked lease stopAt releases holds
    simp only at releases
    rw [releases] at request
    exact request.2 pending lease stopAt holds

theorem stopAtMargin (accepted : deployment.config.validate = .ok ()) (requestStarted : Nat) :
    leaseStopAt deployment.config requestStarted + deployment.config.leaseRenewInterval =
      requestStarted + deployment.config.leaseTtl := by
  have third := (Reconciler.renewsWithinThird accepted).2
  simp only [leaseStopAt]
  omega

theorem holdsReplied (holds : Holds deployment {state with sent := state.sent.set index one} lease stopAt) :
    Holds deployment state lease stopAt ∨ ∃ pipelineId acquireStarted,
      state.phase = .acquiring pipelineId acquireStarted index ∧ one.reply = some (.ok (some lease)) ∧
      stopAt = leaseStopAt deployment.config acquireStarted := by
  cases holds with
  | owned mem found => exact .inl (.owned mem found)
  | starting phase found => exact .inl (.starting phase found)
  | @granted pipelineId acquireStarted other _ _ phase found reply =>
    simp only [List.getElem?_set] at found
    split at found
    · rename_i same
      split at found
      · cases Option.some.inj found
        exact .inr ⟨pipelineId,acquireStarted,same ▸ phase,reply,rfl⟩
      · contradiction
    · exact .inl (.granted phase found reply)

theorem grantedCovered {pipelineId : Nat} (accepted : deployment.config.validate = .ok ())
    (request : sent.request = .tryAcquire pipelineId deployment.holderId deployment.config.leaseTtl)
    (after : sent.started + deployment.offset ≤ readings.first) (reads : readNow deployment state readings)
    (reply : (Lease.answer deployment.interval state.table ⟨readings,sent.request⟩).map Prod.fst = .ok (some lease)) :
    Covered deployment (perform deployment state ⟨readings,sent.request⟩) lease
      (leaseStopAt deployment.config sent.started) := by
  rw [request] at reply ⊢
  obtain ⟨_,holder,_,row,expiry⟩ := acquireReply reply
  refine ⟨issuedRow row,holder,lease.expiresAt,recordRow row,?_,?_⟩
  · rw [stopAtMargin accepted,expiry,Deployment.roundedAway]
    omega
  · have ordered := reads.1
    rw [expiry]
    exact Nat.add_le_add_right ordered _

theorem renewalPromised {renewal : Renewal} {renewed : PipelineLease}
    (started : sent.started = renewal.requestStarted)
    (request : sent.request = .renew renewal.due.lease deployment.config.leaseTtl)
    (after : sent.started + deployment.offset ≤ readings.first) (reads : readNow deployment state readings)
    (reply : (Lease.answer deployment.interval state.table ⟨readings,sent.request⟩).map Prod.fst = .ok (some renewed)) :
    Promised deployment (perform deployment state ⟨readings,sent.request⟩) renewal renewed := by
  rw [request] at reply ⊢
  obtain ⟨key,row,expiry⟩ := renewReply reply
  refine ⟨key,renewed.expiresAt,?_,?_⟩
  · rw [← (sameLease key).2]
    exact recordRow row
  · have ordered := reads.1
    rw [expiry,Deployment.roundedAway]
    omega

theorem grantedNewer {pipelineId holderId ttl : Nat} {asked : PipelineLease}
    (reply : (Lease.answer deployment.interval state.table ⟨readings,.tryAcquire pipelineId holderId ttl⟩).map Prod.fst =
      .ok (some lease)) (issued : Issued state.table asked) : leaseKey asked ≠ leaseKey lease := by
  intro same
  obtain ⟨row,found,later,_⟩ := issued
  obtain ⟨named,_,token,_,_⟩ := acquireReply reply
  obtain ⟨pipeline,owner⟩ := sameLease same
  have tokens : asked.fencingToken = lease.fencingToken := congrArg Prod.snd owner
  rw [← named,← pipeline,found] at token
  simp only [Option.map_some,Option.getD_some] at token
  omega

def replied (deployment : Deployment) (state : State) (index : Nat) (readings : Readings) (sent : Sent) : State :=
  {perform deployment state ⟨readings,sent.request⟩ with sent := state.sent.set index {sent with
    reply := some ((Lease.answer deployment.interval state.table ⟨readings,sent.request⟩).map Prod.fst)}}

section Reply
variable (accepted : deployment.config.validate = .ok ())
  (sound : Sound deployment state) (performed : Sound deployment (perform deployment state ⟨readings,sent.request⟩))
  (found : state.sent[index]? = some sent) (after : sent.started + deployment.offset ≤ readings.first)
  (reads : readNow deployment state readings)
include sound found

theorem acquisitionSent {pipelineId acquireStarted : Nat} (here : state.phase = .acquiring pipelineId acquireStarted index) :
    sent.started = acquireStarted ∧
      sent.request = .tryAcquire pipelineId deployment.holderId deployment.config.leaseTtl := by
  have phase := sound.phase
  rw [here] at phase
  obtain ⟨_,other,at',started,request,_⟩ := phase
  cases Option.some.inj (found.symm.trans at')
  exact ⟨started,request⟩

include accepted performed after reads in
theorem repliedCovered (holds : Holds deployment (replied deployment state index readings sent) lease stopAt) :
    Covered deployment (replied deployment state index readings sent) lease stopAt := by
  rcases holdsReplied holds with was | ⟨pipelineId,acquireStarted,here,reply,rfl⟩
  · obtain ⟨issued,holder,expiry⟩ := performed.books.covered lease stopAt was
    exact ⟨issued,holder,expiry⟩
  · obtain ⟨rfl,request⟩ := acquisitionSent sound found here
    obtain ⟨issued,holder,expiry⟩ := grantedCovered accepted request after reads (Option.some.inj reply)
    exact ⟨issued,holder,expiry⟩

include performed in
theorem repliedSent {other : Sent} (member : other ∈ (replied deployment state index readings sent).sent) :
    SentSound deployment (replied deployment state index readings sent) other := by
  rcases List.mem_or_eq_of_mem_set member with was | rfl
  · obtain ⟨started,request⟩ := performed.books.sent other was
    refine ⟨started,?_⟩
    cases asked : other.request with
    | tryAcquire _ _ _ => simpa [asked] using request
    | renew _ _ => simpa [asked] using request
    | release lease =>
      simp only [asked] at request
      refine ⟨request.1,fun waits held stopAt holds => ?_⟩
      rcases holdsReplied holds with was | ⟨pipelineId,acquireStarted,here,reply,rfl⟩
      · exact request.2 waits held stopAt was
      · obtain ⟨_,named⟩ := acquisitionSent sound found here
        have before := (sound.books.sent other ‹_›).2
        simp only [asked] at before
        rw [named] at reply
        exact grantedNewer (Option.some.inj reply) before.1
  · obtain ⟨started,request⟩ := performed.books.sent sent (List.mem_of_getElem? found)
    refine ⟨started,?_⟩
    unfold replied
    cases asked : sent.request with
    | tryAcquire _ _ _ => simpa [asked] using request
    | renew _ _ => simpa [asked] using request
    | release lease =>
      simp only [asked] at request
      exact ⟨request.1,fun waits => by contradiction⟩

include performed after reads in
theorem repliedPhase : PhaseSound deployment (replied deployment state index readings sent) state.phase := by
  have room := (List.getElem?_eq_some_iff.mp found).1
  have phase := performed.phase
  change PhaseSound deployment _ state.phase at phase
  cases here : state.phase with
  | between => trivial
  | acquiring pipelineId acquireStarted other =>
    rw [here] at phase
    obtain ⟨apart,one,at',started,request,named⟩ := phase
    refine ⟨apart,?_⟩
    by_cases same : index = other
    · subst same
      obtain ⟨rfl,request⟩ := acquisitionSent sound found here
      refine ⟨_,List.getElem?_set_self room,rfl,request,?_⟩
      intro lease reply
      have reply := Option.some.inj reply
      rw [request] at reply
      exact (acquireReply reply).1
    · exact ⟨one,by rwa [replied,List.getElem?_set_ne same],started,request,named⟩
  | starting start => rw [here] at phase; exact ⟨phase.apart,phase.named,phase.guard⟩
  | renewing pass =>
    rw [here] at phase
    refine ⟨phase.apart,phase.backed,fun renewal member => ?_,fun rearming some' => ?_⟩
    · obtain ⟨fresh,one,at',started,request,promised⟩ := phase.inFlight renewal member
      refine ⟨fresh,?_⟩
      by_cases same : index = renewal.sent
      · subst same
        cases Option.some.inj (found.symm.trans at')
        refine ⟨_,List.getElem?_set_self room,started,request,?_⟩
        intro renewed reply
        obtain ⟨key,expiry⟩ := renewalPromised started request after reads (Option.some.inj reply)
        exact ⟨key,expiry⟩
      · refine ⟨one,by rwa [replied,List.getElem?_set_ne same],started,request,fun renewed reply => ?_⟩
        obtain ⟨key,expiry⟩ := promised renewed reply
        exact ⟨key,expiry⟩
    · obtain ⟨guard,past,⟨key,expiry⟩,before⟩ := phase.rearming rearming some'
      exact ⟨guard,past,⟨key,expiry⟩,before⟩
  | leaving leave => rw [here] at phase; exact ⟨phase.issued,phase.left,phase.apart,phase.backed⟩

end Reply

theorem executeSound (accepted : deployment.config.validate = .ok ())
    (sound : Sound deployment state) (ok : execute deployment state index readings = some state') :
    Sound deployment state' := by
  obtain ⟨sent,found,pending,after,reads,rfl⟩ := executeSource ok
  have harmless := ownHarmless sound.books (List.mem_of_getElem? found) pending reads
  have performed := performSound sound harmless
  exact ⟨⟨performed.books.recorded,fun _ _ => repliedCovered accepted sound performed found after reads,
      fun _ => repliedSent sound performed found⟩,
    ⟨sound.roster.guards,sound.roster.keys,sound.roster.deadlines,sound.roster.owned⟩,
    repliedPhase sound performed found after reads⟩

end Execution

end CloudberryEtl.LeaseDeadline
