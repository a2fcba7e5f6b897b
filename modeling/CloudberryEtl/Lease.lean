import CloudberryEtl.Result

/-! The pipeline leases of `metadata::store`. A call is one statement; the database clock is read where the statement
calls `clock_timestamp()`, and the readings of all statements together never decrease. -/
namespace CloudberryEtl.Lease
open Result

structure PipelineLease where
  pipelineId : Nat
  holderId : Nat
  fencingToken : Int
  expiresAt : Nat
  deriving DecidableEq, Repr

inductive StoreError where
  | invalidLeaseDuration
  | foreignKeyViolation
  | bigintOutOfRange
  deriving DecidableEq, Repr

-- `pipelines` is the table that `pipeline_id` references; a lease is found by its primary key.
structure LeaseTable where
  pipelines : List Nat
  leases : Nat → Option PipelineLease

def LeaseTable.put (table : LeaseTable) (lease : PipelineLease) : LeaseTable :=
  {table with leases := Function.update table.leases lease.pipelineId (some lease)}

def durationSeconds (duration : Nat) : Except StoreError Nat :=
  if 0 < duration ∧ duration ≤ 86400 * 10 ^ 9 then .ok duration else .error .invalidLeaseDuration

structure Readings where
  first : Nat
  second : Nat
  deriving DecidableEq, Repr

inductive Request where
  | tryAcquire (pipelineId holderId ttl : Nat)
  | renew (lease : PipelineLease) (ttl : Nat)
  | release (lease : PipelineLease)
  deriving DecidableEq, Repr

structure Call where
  readings : Readings
  request : Request
  deriving DecidableEq, Repr

def Request.pipelineId : Request → Nat
  | .tryAcquire pipelineId _ _ => pipelineId
  | .renew lease _ => lease.pipelineId
  | .release lease => lease.pipelineId

def sameHolder (stored lease : PipelineLease) : Prop :=
  stored.holderId = lease.holderId ∧ stored.fencingToken = lease.fencingToken

instance (stored lease : PipelineLease) : Decidable (sameHolder stored lease) :=
  inferInstanceAs (Decidable (_ ∧ _))

section Store
-- the microseconds of `$ttl * interval '1 second'`
variable (interval : Nat → Nat)

-- INSERT … ON CONFLICT DO UPDATE. VALUES reads the clock before WHERE does.
def tryAcquireLease (table : LeaseTable) (readings : Readings) (pipelineId holderId ttl : Nat) :
    Except StoreError (Option PipelineLease × LeaseTable) := do
  let ttl ← durationSeconds ttl
  let expiresAt := readings.first + interval ttl
  match table.leases pipelineId with
  | none =>
    if pipelineId ∉ table.pipelines then .error .foreignKeyViolation
    else
      let lease : PipelineLease := ⟨pipelineId,holderId,1,expiresAt⟩
      .ok (some lease,table.put lease)
  | some stored =>
    if stored.expiresAt ≤ readings.second ∨ stored.holderId = holderId then
      if 2 ^ 63 ≤ stored.fencingToken + 1 then .error .bigintOutOfRange
      else
        let lease : PipelineLease := ⟨pipelineId,holderId,stored.fencingToken + 1,expiresAt⟩
        .ok (some lease,table.put lease)
    else .ok (none,table)

def renewLease (table : LeaseTable) (readings : Readings) (lease : PipelineLease) (ttl : Nat) :
    Except StoreError (Option PipelineLease × LeaseTable) := do
  let ttl ← durationSeconds ttl
  match table.leases lease.pipelineId with
  | none => .ok (none,table)
  | some stored =>
    if sameHolder stored lease ∧ readings.first < stored.expiresAt then
      let renewed : PipelineLease :=
        ⟨lease.pipelineId,stored.holderId,stored.fencingToken,readings.second + interval ttl⟩
      .ok (some renewed,table.put renewed)
    else .ok (none,table)

def releaseLease (table : LeaseTable) (readings : Readings) (lease : PipelineLease) : LeaseTable :=
  match table.leases lease.pipelineId with
  | none => table
  | some stored =>
    if sameHolder stored lease then
      table.put ⟨lease.pipelineId,stored.holderId,stored.fencingToken,readings.first⟩
    else table

def answer (table : LeaseTable) (call : Call) : Except StoreError (Option PipelineLease × LeaseTable) :=
  match call.request with
  | .tryAcquire pipelineId holderId ttl => tryAcquireLease interval table call.readings pipelineId holderId ttl
  | .renew lease ttl => renewLease interval table call.readings lease ttl
  | .release lease => .ok (none,releaseLease table call.readings lease)

def step (table : LeaseTable) (call : Call) : LeaseTable :=
  match answer interval table call with
  | .ok (_,table) => table
  | .error _ => table

def run (table : LeaseTable) (calls : List Call) : LeaseTable := calls.foldl (step interval) table

def acquired (pipelineId : Nat) (table : LeaseTable) (call : Call) : Option PipelineLease :=
  match call.request with
  | .tryAcquire requested holderId ttl =>
    if requested = pipelineId then
      (tryAcquireLease interval table call.readings requested holderId ttl).toOption.bind Prod.fst
    else none
  | _ => none

def acquisitions (pipelineId : Nat) : LeaseTable → List Call → List PipelineLease
  | _,[] => []
  | table,call :: calls =>
    (acquired interval pipelineId table call).toList ++ acquisitions pipelineId (step interval table call) calls

def renews (table : LeaseTable) (readings : Readings) (lease : PipelineLease) (ttl : Nat) : Prop :=
  ∃ renewed table', renewLease interval table readings lease ttl = .ok (some renewed,table')

end Store

def Chronological : Nat → List Call → Prop
  | _,[] => True
  | now,call :: calls => now ≤ call.readings.first ∧ call.readings.first ≤ call.readings.second ∧
      Chronological call.readings.second calls

def lastReading (now : Nat) (calls : List Call) : Nat := calls.foldl (fun _ call => call.readings.second) now

theorem putSame (table : LeaseTable) (lease : PipelineLease) : (table.put lease).leases lease.pipelineId = some lease := by
  simp [LeaseTable.put]

theorem putOther {table : LeaseTable} {lease : PipelineLease} {pipelineId : Nat} (apart : lease.pipelineId ≠ pipelineId) :
    (table.put lease).leases pipelineId = table.leases pipelineId := by
  simp [LeaseTable.put,apart.symm]

inductive Effect (call : Call) : Option PipelineLease → Option PipelineLease → Option PipelineLease → Prop where
  | idle (row) : Effect call row none row
  | acquire {row lease} (next : lease.fencingToken = (row.map PipelineLease.fencingToken).getD 0 + 1) :
      Effect call row (some lease) (some lease)
  | renew {stored renewed} (same : sameHolder renewed stored) (valid : call.readings.first < stored.expiresAt)
      (asked : ∃ lease ttl, call.request = .renew lease ttl ∧ sameHolder stored lease) :
      Effect call (some stored) none (some renewed)
  | release {stored released} (same : sameHolder released stored) (ended : released.expiresAt = call.readings.first)
      (asked : ∃ lease, call.request = .release lease ∧ sameHolder stored lease) :
      Effect call (some stored) none (some released)

section Effects
variable {interval : Nat → Nat} {table table' : LeaseTable} {readings : Readings} {pipelineId holderId ttl : Nat}
  {lease : PipelineLease} {outcome : Option PipelineLease}

theorem acquireSource (ok : tryAcquireLease interval table readings pipelineId holderId ttl = .ok (outcome,table')) :
    (outcome = none ∧ table' = table) ∨
      ∃ lease, outcome = some lease ∧ lease.pipelineId = pipelineId ∧ table' = table.put lease ∧
        lease.holderId = holderId ∧ lease.fencingToken = ((table.leases pipelineId).map PipelineLease.fencingToken).getD 0 + 1 := by
  obtain ⟨_,_,ok⟩ := bindOk.mp ok
  simp only at ok
  split at ok
  · rename_i absent
    obtain ⟨_,ok⟩ := iteOk.mp ok
    cases Except.ok.inj ok
    exact .inr ⟨_,rfl,rfl,rfl,rfl,by simp [absent]⟩
  · rename_i stored present
    split at ok
    · obtain ⟨_,ok⟩ := iteOk.mp ok
      cases Except.ok.inj ok
      exact .inr ⟨_,rfl,rfl,rfl,rfl,by simp [present]⟩
    · cases Except.ok.inj ok
      exact .inl ⟨rfl,rfl⟩

theorem renewSource (ok : renewLease interval table readings lease ttl = .ok (outcome,table')) :
    (outcome = none ∧ table' = table ∧ ∀ stored, table.leases lease.pipelineId = some stored →
      ¬ (sameHolder stored lease ∧ readings.first < stored.expiresAt)) ∨
      ∃ stored renewed, table.leases lease.pipelineId = some stored ∧ sameHolder stored lease ∧
        readings.first < stored.expiresAt ∧ outcome = some renewed ∧ renewed.pipelineId = lease.pipelineId ∧
        sameHolder renewed stored ∧ table' = table.put renewed := by
  obtain ⟨_,_,ok⟩ := bindOk.mp ok
  split at ok
  · rename_i absent
    cases Except.ok.inj ok
    exact .inl ⟨rfl,rfl,by simp [absent]⟩
  · rename_i stored present
    split at ok
    · rename_i renewable
      cases Except.ok.inj ok
      exact .inr ⟨stored,_,present,renewable.1,renewable.2,rfl,rfl,⟨rfl,rfl⟩,rfl⟩
    · rename_i refused
      cases Except.ok.inj ok
      refine .inl ⟨rfl,rfl,fun other found => ?_⟩
      cases Option.some.inj (present.symm.trans found)
      exact refused

theorem releaseSource (table : LeaseTable) (readings : Readings) (lease : PipelineLease) :
    releaseLease table readings lease = table ∨
      ∃ stored released, table.leases lease.pipelineId = some stored ∧ sameHolder stored lease ∧
        released.pipelineId = lease.pipelineId ∧ sameHolder released stored ∧
        released.expiresAt = readings.first ∧ releaseLease table readings lease = table.put released := by
  unfold releaseLease
  split
  · exact .inl rfl
  · rename_i stored present
    split
    · rename_i same
      exact .inr ⟨stored,⟨lease.pipelineId,stored.holderId,stored.fencingToken,readings.first⟩,present,same,rfl,
        ⟨rfl,rfl⟩,rfl,rfl⟩
    · exact .inl rfl

theorem stepEffect (interval : Nat → Nat) (table : LeaseTable) (call : Call) (pipelineId : Nat) :
    Effect call (table.leases pipelineId) (acquired interval pipelineId table call)
      ((step interval table call).leases pipelineId) := by
  obtain ⟨readings,request⟩ := call
  cases request with
  | tryAcquire requested holderId ttl =>
    simp only [step,answer,acquired]
    cases result : tryAcquireLease interval table readings requested holderId ttl with
    | error error =>
      simp only [Except.toOption,Option.bind_none,ite_self]
      exact .idle _
    | ok pair =>
      obtain ⟨outcome,table'⟩ := pair
      simp only [Except.toOption,Option.bind_some]
      rcases acquireSource result with ⟨rfl,rfl⟩ | ⟨lease,rfl,rfl,rfl,_,next⟩
      · simp only [ite_self]
        exact .idle _
      · by_cases same : lease.pipelineId = pipelineId
        · subst same
          rw [putSame,if_pos rfl]
          exact .acquire next
        · rw [putOther same,if_neg same]
          exact .idle _
  | renew lease ttl =>
    simp only [step,answer,acquired]
    cases result : renewLease interval table readings lease ttl with
    | error error => exact .idle _
    | ok pair =>
      obtain ⟨outcome,table'⟩ := pair
      rcases renewSource result with ⟨_,rfl,_⟩ | ⟨stored,renewed,found,asked,valid,_,named,same,rfl⟩
      · exact .idle _
      · by_cases here : lease.pipelineId = pipelineId
        · subst here
          rw [found,← named,putSame]
          exact .renew same valid ⟨lease,ttl,rfl,asked⟩
        · rw [putOther (named.trans_ne here)]
          exact .idle _
  | release lease =>
    simp only [step,answer,acquired]
    rcases releaseSource table readings lease with kept | ⟨stored,released,found,asked,named,same,ended,changed⟩
    · rw [kept]
      exact .idle _
    · rw [changed]
      by_cases here : lease.pipelineId = pipelineId
      · subst here
        rw [found,← named,putSame]
        exact .release same ended ⟨lease,rfl,asked⟩
      · rw [putOther (named.trans_ne here)]
        exact .idle _

end Effects

def PipelineLease.owner (lease : PipelineLease) : Nat × Int := (lease.holderId,lease.fencingToken)

theorem ownerSame {stored lease : PipelineLease} : sameHolder stored lease ↔ stored.owner = lease.owner := by
  simp [sameHolder,PipelineLease.owner]

theorem effectOwner {call before gained after} (effect : Effect call before gained after) :
    after.map PipelineLease.owner = (gained.or before).map PipelineLease.owner := by
  cases effect with
  | idle => rfl
  | acquire _ => rfl
  | renew same _ _ => simp [ownerSame.mp same]
  | release same _ _ => simp [ownerSame.mp same]

def currentToken (row : Option PipelineLease) : Int := (row.map PipelineLease.fencingToken).getD 0

theorem effectToken {call before gained after} (effect : Effect call before gained after) :
    currentToken after = if gained.isSome then currentToken before + 1 else currentToken before := by
  cases effect with
  | idle => rfl
  | acquire next => exact next
  | renew same _ _ => exact same.2
  | release same _ _ => exact same.2

theorem effectGained {call before lease after} (effect : Effect call before (some lease) after) :
    lease.fencingToken = currentToken before + 1 ∧ after = some lease := by
  cases effect with
  | acquire next => exact ⟨next,rfl⟩

theorem effectExpired {call stored after now} (effect : Effect call (some stored) none after)
    (expired : stored.expiresAt ≤ now) (later : now ≤ call.readings.first)
    (ordered : call.readings.first ≤ call.readings.second) :
    ∃ row, after = some row ∧ row.expiresAt ≤ call.readings.second := by
  cases effect with
  | idle => exact ⟨stored,rfl,Nat.le_trans expired (Nat.le_trans later ordered)⟩
  | renew _ valid _ => exact absurd valid (Nat.not_lt.mpr (Nat.le_trans expired later))
  | release _ ended _ => exact ⟨_,rfl,ended ▸ ordered⟩

section Runs
variable (interval : Nat → Nat) (pipelineId : Nat)

theorem runOwner (calls : List Call) : ∀ table,
    ((run interval table calls).leases pipelineId).map PipelineLease.owner =
      ((acquisitions interval pipelineId table calls).getLast?.or (table.leases pipelineId)).map PipelineLease.owner := by
  induction calls with
  | nil => exact fun table => rfl
  | cons call calls ih =>
    intro table
    have first := effectOwner (stepEffect interval table call pipelineId)
    rw [show run interval table (call :: calls) = run interval (step interval table call) calls from rfl,ih,acquisitions,
      List.getLast?_append]
    cases (acquisitions interval pipelineId (step interval table call) calls).getLast? with
    | some last => rfl
    | none =>
      rw [Option.none_or,Option.none_or,first]
      cases acquired interval pipelineId table call <;> rfl

theorem runTokens (calls : List Call) : ∀ table,
    (acquisitions interval pipelineId table calls).map PipelineLease.fencingToken =
      (List.range (acquisitions interval pipelineId table calls).length).map
        (fun (index : Nat) => currentToken (table.leases pipelineId) + 1 + (index : Int)) := by
  induction calls with
  | nil => exact fun table => rfl
  | cons call calls ih =>
    intro table
    have effect := stepEffect interval table call pipelineId
    have token := effectToken effect
    rw [acquisitions]
    cases gained : acquired interval pipelineId table call with
    | none =>
      rw [gained] at token
      simpa [token] using ih (step interval table call)
    | some lease =>
      rw [gained] at effect token
      have next := (effectGained effect).1
      have rest := ih (step interval table call)
      simp only [token,Option.isSome_some,if_true] at rest
      simp only [Option.toList_some,List.singleton_append,List.map_cons,List.length_cons,List.range_succ_eq_map,rest,next,
        List.map_map]
      refine congrArg₂ _ (by simp) (List.map_congr_left fun index _ => ?_)
      simp only [Function.comp_apply]
      omega

theorem runExpired (calls : List Call) : ∀ {table now stored}, Chronological now calls →
    table.leases pipelineId = some stored → stored.expiresAt ≤ now → acquisitions interval pipelineId table calls = [] →
    ∃ row, (run interval table calls).leases pipelineId = some row ∧ row.expiresAt ≤ lastReading now calls := by
  induction calls with
  | nil => exact fun _ found expired _ => ⟨_,found,expired⟩
  | cons call calls ih =>
    intro table now stored ⟨later,ordered,rest⟩ found expired nothing
    obtain ⟨here,nothing⟩ := List.append_eq_nil_iff.mp nothing
    have effect := stepEffect interval table call pipelineId
    rw [found,Option.toList_eq_nil_iff.mp here] at effect
    obtain ⟨row,foundRow,expiredRow⟩ := effectExpired effect expired later ordered
    exact ih rest foundRow expiredRow nothing

theorem renewsIff {interval : Nat → Nat} {table : LeaseTable} {readings : Readings} {lease : PipelineLease} {ttl : Nat} :
    renews interval table readings lease ttl ↔ (∃ seconds, durationSeconds ttl = .ok seconds) ∧
      ∃ stored, table.leases lease.pipelineId = some stored ∧ stored.owner = lease.owner ∧
        readings.first < stored.expiresAt := by
  constructor
  · rintro ⟨renewed,table',ok⟩
    obtain ⟨seconds,valid,_⟩ := bindOk.mp ok
    refine ⟨⟨seconds,valid⟩,?_⟩
    rcases renewSource ok with ⟨nothing,_,_⟩ | ⟨stored,_,found,same,before,_⟩
    · cases nothing
    · exact ⟨stored,found,ownerSame.mp same,before⟩
  · rintro ⟨⟨seconds,valid⟩,stored,found,same,before⟩
    have renewable : sameHolder stored lease ∧ readings.first < stored.expiresAt := ⟨ownerSame.mpr same,before⟩
    simp [renews,renewLease,valid,bind,Except.bind,found,renewable]

theorem otherIgnored {interval : Nat → Nat} {table : LeaseTable} {call : Call} {lease : PipelineLease}
    (asked : call.request = .release lease ∨ ∃ ttl, call.request = .renew lease ttl)
    (other : (table.leases lease.pipelineId).map PipelineLease.owner ≠ some lease.owner) :
    step interval table call = table := by
  have different : ∀ stored, table.leases lease.pipelineId = some stored → ¬ sameHolder stored lease := by
    intro stored found same
    exact other (by rw [found,Option.map_some,ownerSame.mp same])
  obtain ⟨readings,request⟩ := call
  rcases asked with released | ⟨ttl,renewed⟩
  · cases released
    rcases releaseSource table readings lease with kept | ⟨stored,_,found,same,_⟩
    · exact kept
    · exact absurd same (different stored found)
  · cases renewed
    simp only [step,answer]
    cases result : renewLease interval table readings lease ttl with
    | error error => rfl
    | ok pair =>
      rcases renewSource result with ⟨_,kept,_⟩ | ⟨stored,_,found,same,_⟩
      · exact kept
      · exact absurd same (different stored found)

/-- After any calls of any holders: the tokens a pipeline was leased under count its acquisitions, the stored lease is
the one acquired last, exactly its owner can renew and only before its expiry, every other renewal or release is
without effect, and an expired lease is never renewed again. -/
theorem leaseExclusivity (interval : Nat → Nat) (pipelines : List Nat) (calls : List Call) (pipelineId : Nat) :
    let table := run interval ⟨pipelines,fun _ => none⟩ calls
    let leases := acquisitions interval pipelineId ⟨pipelines,fun _ => none⟩ calls
    leases.map PipelineLease.fencingToken = (List.range leases.length).map (fun (index : Nat) => 1 + (index : Int)) ∧
    (table.leases pipelineId).map PipelineLease.owner = leases.getLast?.map PipelineLease.owner ∧
    (∀ call, match acquired interval pipelineId table call with
      | some lease => (step interval table call).leases pipelineId = some lease ∧
          lease.fencingToken = currentToken (table.leases pipelineId) + 1
      | none => currentToken ((step interval table call).leases pipelineId) = currentToken (table.leases pipelineId)) ∧
    (∀ readings lease ttl, lease.pipelineId = pipelineId → (renews interval table readings lease ttl ↔
      (∃ seconds, durationSeconds ttl = .ok seconds) ∧ ∃ last stored, leases.getLast? = some last ∧
        lease.owner = last.owner ∧ table.leases pipelineId = some stored ∧ readings.first < stored.expiresAt)) ∧
    (∀ call lease, (call.request = .release lease ∨ ∃ ttl, call.request = .renew lease ttl) →
      lease.pipelineId = pipelineId → leases.getLast?.map PipelineLease.owner ≠ some lease.owner →
      step interval table call = table) ∧
    (∀ now stored later, table.leases pipelineId = some stored → stored.expiresAt ≤ now → Chronological now later →
      acquisitions interval pipelineId table later = [] → ∀ readings lease ttl, lease.pipelineId = pipelineId →
      lastReading now later ≤ readings.first → ¬ renews interval (run interval table later) readings lease ttl) := by
  intro table leases
  have owner : (table.leases pipelineId).map PipelineLease.owner = leases.getLast?.map PipelineLease.owner := by
    have stored := runOwner interval pipelineId calls ⟨pipelines,fun _ => none⟩
    rwa [Option.or_none] at stored
  refine ⟨?_,owner,fun call => ?_,?_,?_,?_⟩
  · simpa [currentToken] using runTokens interval pipelineId calls ⟨pipelines,fun _ => none⟩
  · have effect := stepEffect interval table call pipelineId
    split
    · rename_i lease gained
      rw [gained] at effect
      exact (effectGained effect).symm
    · rename_i nothing
      rw [nothing] at effect
      exact effectToken effect
  · rintro readings lease ttl rfl
    refine renewsIff.trans (and_congr_right fun _ => ?_)
    constructor
    · rintro ⟨stored,found,same,before⟩
      rw [found] at owner
      obtain ⟨last,lastOne,lastOwner⟩ := Option.map_eq_some_iff.mp owner.symm
      exact ⟨last,stored,lastOne,same.symm.trans lastOwner.symm,found,before⟩
    · rintro ⟨last,stored,lastOne,same,found,before⟩
      rw [found,lastOne] at owner
      exact ⟨stored,found,(Option.some.inj owner).trans same.symm,before⟩
  · rintro call lease asked rfl other
    exact otherIgnored asked (by rwa [owner])
  · rintro now stored later found expired chronological nothing readings lease ttl rfl after renewed
    obtain ⟨row,foundRow,expiredRow⟩ := runExpired interval _ later chronological found expired nothing
    obtain ⟨_,current,foundCurrent,_,before⟩ := renewsIff.mp renewed
    cases Option.some.inj (foundRow.symm.trans foundCurrent)
    exact absurd before (Nat.not_lt.mpr (Nat.le_trans expiredRow after))

end Runs

end CloudberryEtl.Lease
