import CloudberryEtl.Retry

/-! Garbage collection in any reachable state. Every open entry of the reconciliation log was written by an activation
of its pipeline and still describes the table it has quarantined, so a pass under the stored fence never stops at an
entry and drops the old quarantines of its pipeline and nothing else. -/
namespace CloudberryEtl.Collection
open Schema Change TablePlan StagedApply KeyedTable Result TargetStore Manifest ShadowLoad Activation Cleanup Fencing
open ActivatedGroup Maintenance StoreChange Metadata RoundTrip Moves Transactions Reachable Retry
open Checkpoint hiding databaseGeneration

section Pass
variable {platform : Platform} {fences : PipelineId → Option StoredFence} {fence : PipelineFence} {now : Nat}

def collected (now : Nat) (fence : PipelineFence) (store : Store) (entry : Reconciliation) : Store :=
  {withoutTable store entry.quarantine with reconciliationLog := purgedLog now fence entry store.reconciliationLog}

structure OpenEntry (fence : PipelineFence) (store : Store) (entry : Reconciliation) : Prop where
  member : entry ∈ store.reconciliationLog
  unpurged : entry.purgedAt = none
  owner : entry.pipelineId = fence.pipelineId

theorem openOid {store entry} (sound : Sound platform fences none store) (known : OpenEntry fence store entry) :
    ∃ oid, 0 < oid ∧ relationOid store entry.quarantine = some oid ∧ entry.quarantineRelationOid = some oid :=
  (sound.stands _ (sound.logged entry known.member known.unpurged).row).relation

theorem openValid {store entry} (sound : Sound platform fences none store)
    (held : fences fence.pipelineId = some fence.stored) (known : OpenEntry fence store entry) :
    ∃ oid previous, entry.quarantineRelationOid = some oid ∧ relationOid store entry.quarantine = some oid ∧
      validateQuarantineRecord fence entry = .ok (oid,previous) ∧
      quarantineName platform entry.original {leftRecord entry with fencingToken := previous} = .ok entry.quarantine := by
  have logged := sound.logged entry known.member known.unpurged
  obtain ⟨oid,positive,placed,recorded⟩ := openOid sound known
  obtain ⟨previous,given,positive',named⟩ := logged.named
  obtain ⟨current,stored,generation,token⟩ := logged.within
  simp only at stored generation token
  rw [known.owner,held] at stored
  rw [← Option.some.inj stored] at generation token
  refine ⟨oid,previous,recorded,placed,?_,named⟩
  have formed : ¬ (entry.snapshotGroupId = Uuid.nil ∨ entry.schemaFingerprint = "" ∨ entry.fencingToken ≤ 0) := by
    have positive'' := logged.token
    simp only [not_or]
    exact ⟨logged.group,logged.fingerprint,by omega⟩
  have covered : ¬ (entry.pipelineId ≠ fence.pipelineId ∨ fence.topologyGeneration < entry.topologyGeneration ∨
      fence.fencingToken < entry.fencingToken) := by
    simp only [not_or,not_not,not_lt]
    exact ⟨known.owner,generation,token⟩
  unfold validateQuarantineRecord
  simp only [recorded,given,Option.filter,positive,positive',decide_true,if_true]
  rw [if_neg formed,if_neg covered]

theorem collectOk {store entry} {names : List QualifiedName} (sound : Sound platform fences none store)
    (held : fences fence.pipelineId = some fence.stored) (known : OpenEntry fence store entry) :
    collectQuarantine platform now fence (names,store) entry =
      .ok (names ++ [entry.quarantine],collected now fence store entry) := by
  have row := (sound.logged entry known.member known.unpurged).row
  obtain ⟨oid,previous,recorded,placed,validated,named⟩ := openValid sound held known
  obtain ⟨relation,present,number⟩ := Option.map_eq_some_iff.mp placed
  have old : (⟨entry.pipelineId,entry.previousSnapshotGroupId,some oid,entry.sourceRelationId,entry.tableGeneration,
      entry.schemaFingerprint,.quarantined,previous⟩ : ManagedTableRecord) =
      {leftRecord entry with fencingToken := previous} := by simp [leftRecord,recorded]
  have managed : quarantinedRecord store entry = .ok (leftRecord entry) := by
    have state := loadManaged.mpr ⟨Option.isSome_iff_exists.mpr ⟨relation,present⟩,(recordIff sound.names).mpr row⟩
    simp [quarantinedRecord,state,leftRecord]
  have identity : validateRelationIdentity store entry.quarantine (leftRecord entry) = .ok () := by
    simp [validateRelationIdentity,leftRecord,recorded,placed]
  have alone : (store.reconciliationLog.filter (fun other =>
      other.quarantine = entry.quarantine ∧ other.purgedAt = none)).length = 1 := by
    rw [openEntry sound known.member known.unpurged]
    rfl
  obtain ⟨dropped,dropOk,deleteOk⟩ := dropDone (fun other => decide (other.name = entry.quarantine ∧
      other.record.pipelineId = fence.pipelineId ∧ other.record.state = .quarantined ∧
      other.record.relationOid = (leftRecord entry).relationOid)) sound.names (by simp; tauto)
    (Option.isSome_iff_exists.mpr ⟨relation,present⟩) row (by simp [leftRecord,known.owner])
  have purged : purge now fence entry (withoutTable store entry.quarantine) = .ok (collected now fence store entry) := by
    have one : ((withoutTable store entry.quarantine).reconciliationLog.filter (fun other =>
        decide (other.snapshotGroupId = entry.snapshotGroupId ∧ other.original = entry.original ∧
          other.quarantine = entry.quarantine ∧ other.purgedAt = none))).length = 1 := by
      have split : (withoutTable store entry.quarantine).reconciliationLog.filter (fun other =>
          decide (other.snapshotGroupId = entry.snapshotGroupId ∧ other.original = entry.original ∧
            other.quarantine = entry.quarantine ∧ other.purgedAt = none)) =
          (store.reconciliationLog.filter (fun other =>
            other.quarantine = entry.quarantine ∧ other.purgedAt = none)).filter
            (fun other => other.snapshotGroupId = entry.snapshotGroupId ∧ other.original = entry.original) := by
        rw [List.filter_filter]
        refine List.filter_congr fun other _ => ?_
        rw [← Bool.decide_and]
        exact decide_eq_decide.mpr (by tauto)
      rw [split,openEntry sound known.member known.unpurged]
      simp
    refine bindOk.mpr ⟨(),?_,?_⟩
    · rw [one]
      rfl
    · rw [collected,purgedSame now fence alone known.member rfl rfl rfl known.unpurged]
      rfl
  refine bindOk.mpr ⟨_,validated,bindOk.mpr ⟨entry.quarantine,by rw [old]; exact named,?_⟩⟩
  rw [if_neg (by simp)]
  refine bindOk.mpr ⟨_,managed,?_⟩
  rw [if_neg (by simp [leftRecord,recorded])]
  refine bindOk.mpr ⟨(),identity,?_⟩
  rw [if_neg (by rw [alone]; simp)]
  exact bindOk.mpr ⟨_,dropOk,bindOk.mpr ⟨_,deleteOk,bindOk.mpr ⟨_,purged,rfl⟩⟩⟩

theorem openLater {store entry other} (known : OpenEntry fence store other) (apart : other.quarantine ≠ entry.quarantine) :
    OpenEntry fence (collected now fence store entry) other := by
  obtain ⟨member,unpurged⟩ := memOpenPurged.mpr ⟨known.member,known.unpurged,apart⟩
  exact ⟨member,unpurged,known.owner⟩

theorem collectAll (held : fences fence.pipelineId = some fence.stored) (candidates : List Reconciliation) :
    ∀ {names store}, Sound platform fences none store → (∀ entry ∈ candidates, OpenEntry fence store entry) →
    (candidates.map Reconciliation.quarantine).Nodup →
    candidates.foldlM (collectQuarantine platform now fence) (names,store) =
      .ok (names ++ candidates.map Reconciliation.quarantine,candidates.foldl (collected now fence) store) := by
  induction candidates with
  | nil =>
    intro names store _ _ _
    simp [pure,Except.pure]
  | cons entry candidates ih =>
    intro names store sound known distinct
    obtain ⟨apart,distinct⟩ := List.nodup_cons.mp distinct
    have known' : ∀ other ∈ candidates, OpenEntry fence (collected now fence store entry) other := by
      intro other mem
      refine openLater (known other (by simp [mem])) fun same => apart ?_
      rw [← same]
      exact List.mem_map_of_mem mem
    have sound' : Sound platform fences none (collected now fence store entry) := soundPurged sound
    rw [List.foldlM_cons,collectOk sound held (known entry (by simp))]
    refine (ih sound' known' distinct).trans ?_
    simp

theorem collectedStore (candidates : List Reconciliation) : ∀ store : Store,
    candidates.foldl (collected now fence) store = {withoutTables store (candidates.map Reconciliation.quarantine) with
      reconciliationLog := candidates.foldl (fun log entry => purgedLog now fence entry log) store.reconciliationLog} := by
  induction candidates with
  | nil =>
    intro store
    rw [List.map_nil,← withoutEach]
    rfl
  | cons entry candidates ih =>
    intro store
    rw [List.foldl_cons,ih,List.map_cons,← withoutEach,← withoutEach,List.foldl_cons]
    have rest : ∀ (names : List QualifiedName) (log : List Reconciliation) (one : Store),
        names.foldl withoutTable {one with reconciliationLog := log} =
          {names.foldl withoutTable one with reconciliationLog := log} := by
      intro names log one
      rw [withoutEach,withoutEach]
      rfl
    rw [collected,rest]
    rfl

end Pass

section Provenance
variable {platform : Platform} {equal : Operators}

def QuarantinedBy (platform : Platform) (equal : Operators) (start : Target) (operations : List Operation)
    (entry : Reconciliation) : Prop :=
  ∃ before now request after record, operations = before ++ .activateSnapshotGroup now request :: after ∧
    request.fence.pipelineId = entry.pipelineId ∧ record.state = .active ∧
    ⟨entry.original,record⟩ ∈ (run platform equal start before).store.managedTables ∧
    leftRecord entry = {record with state := .quarantined, fencingToken := entry.fencingToken} ∧
    loadRelationState (run platform equal start (before ++ [.activateSnapshotGroup now request])).store entry.quarantine =
      .managed (leftRecord entry)

theorem QuarantinedBy.later {start operations entry} (quarantined : QuarantinedBy platform equal start operations entry)
    (operation : Operation) : QuarantinedBy platform equal start (operations ++ [operation]) entry := by
  obtain ⟨before,now,request,after,record,rfl,facts⟩ := quarantined
  exact ⟨before,now,request,after ++ [operation],record,by simp,facts⟩

theorem calmLog {admits : Admission} {fence store store'} (changes : Changes platform admits fence none store store') {entry}
    (member : entry ∈ store'.reconciliationLog) (unpurged : entry.purgedAt = none) :
    entry ∈ store.reconciliationLog := by
  induction changes with
  | refl => exact member
  | tail _ change ih =>
    refine ih ?_
    cases change with
    | reshaped same => exact same.log ▸ member
    | removed => exact member
    | shadowed => exact member
    | promoted => exact member
    | quarantined moving => contradiction
    | purged => exact (memOpenPurged.mp ⟨member,unpurged⟩).1
    | registered => exact member
    | unregistered => exact member

theorem runSnoc (start : Target) (operations : List Operation) (operation : Operation) :
    run platform equal start (operations ++ [operation]) = step platform equal (run platform equal start operations) operation := by
  simp [run]

theorem openManaged {fences : PipelineId → Option StoredFence} {store entry} (sound : Sound platform fences none store)
    (member : entry ∈ store.reconciliationLog) (unpurged : entry.purgedAt = none) :
    loadRelationState store entry.quarantine = .managed (leftRecord entry) := by
  have row := (sound.logged entry member unpurged).row
  obtain ⟨oid,_,placed,_⟩ := (sound.stands _ row).relation
  obtain ⟨relation,present,_⟩ := Option.map_eq_some_iff.mp placed
  exact loadManaged.mpr ⟨Option.isSome_iff_exists.mpr ⟨relation,present⟩,(recordIff sound.names).mpr row⟩

/-- Every open entry of a reachable log was written by an activation of its pipeline. -/
theorem openQuarantined (platform : Platform) (equal : Operators) {start : Target} (fresh : Fresh start) (operations : List Operation) :
    ∀ entry ∈ (run platform equal start operations).store.reconciliationLog, entry.purgedAt = none →
      QuarantinedBy platform equal start operations entry := by
  induction operations using List.reverseRecOn with
  | nil =>
    intro entry member
    have empty : (run platform equal start []).store.reconciliationLog = [] := fresh.reconciliationLog
    rw [empty] at member
    contradiction
  | append_singleton operations operation ih =>
    intro entry member unpurged
    have sound : SoundTarget platform (run platform equal start operations) :=
      runSound operations (freshSound platform fresh)
    have sound' : SoundTarget platform (run platform equal start (operations ++ [operation])) :=
      runSound _ (freshSound platform fresh)
    have managed := openManaged sound'.store member unpurged
    rw [runSnoc] at member
    have committed : Committed platform anyRequest _ operation (step platform equal _ operation) :=
      stepCommitted sound operation (anyAdmitted _ operation)
    generalize reached : step platform equal (run platform equal start operations) operation = target' at member committed
    cases committed with
    | idle => exact (ih entry member unpurged).later operation
    | fenced => exact (ih entry member unpurged).later operation
    | changed _ changes => exact (ih entry (calmLog changes member unpurged) unpurged).later operation
    | activated kind guard changes =>
      rename_i now request
      subst kind
      cases activation : activateSnapshotGroup platform now (run platform equal start operations) request with
      | error error =>
        simp only [step,commit,activation,Except.toOption,Option.map_none,Option.getD_none] at reached
        rw [← reached] at member
        exact (ih entry member unpurged).later _
      | ok result =>
        simp only [step,commit,activation,Except.toOption,Option.map_some,Option.getD_some] at reached
        obtain ⟨canonical,plans,valid,_,effects⟩ := activationEffects sound.store activation
        have fence : canonical.fence = request.fence := by rw [(canonicalSource valid).shape]
        rw [← reached,effects.log] at member
        rcases List.mem_append.mp member with before | added
        · exact (ih entry before unpurged).later _
        · obtain ⟨plan,planned,rfl⟩ := List.mem_map.mp added
          obtain ⟨row,active,owner⟩ := effects.leaving.each plan planned
          refine ⟨operations,now,request,[],plan.record,rfl,by rw [← fence]; rfl,active,row,?_,managed⟩
          simp [leftRecord,reconciliation,owner]

end Provenance

section Safety
variable {platform : Platform} {equal : Operators}

structure Eligible (now retention : Nat) (fence : PipelineFence) (store : Store) (entry : Reconciliation) : Prop
    extends OpenEntry fence store entry where
  old : entry.recordedAt + retention ≤ now

theorem candidateEligible {now retention fence store limit entry}
    (mem : entry ∈ gcCandidates platform now retention store fence limit) : Eligible now retention fence store entry := by
  obtain ⟨member,selected⟩ := List.mem_filter.mp ((List.mem_insertionSort _).mp (List.mem_of_mem_take mem))
  simp only [decide_eq_true_eq] at selected
  exact ⟨⟨member,selected.2.1,selected.1⟩,selected.2.2.2.2⟩

theorem candidatesDistinct {fences transit now retention fence store limit} (sound : Sound platform fences transit store) :
    ((gcCandidates platform now retention store fence limit).map Reconciliation.quarantine).Nodup := by
  have opened : store.reconciliationLog.filter (fun row => row.pipelineId = fence.pipelineId ∧ row.purgedAt = none ∧
      row.quarantineRelationOid.isSome ∧ row.previousFencingToken.isSome ∧ row.recordedAt + retention ≤ now) =
      (store.reconciliationLog.filter (fun row => row.purgedAt = none)).filter (fun row =>
        row.pipelineId = fence.pipelineId ∧ row.quarantineRelationOid.isSome ∧ row.previousFencingToken.isSome ∧
        row.recordedAt + retention ≤ now) := by
    rw [List.filter_filter]
    refine List.filter_congr fun row _ => ?_
    rw [← Bool.decide_and]
    exact decide_eq_decide.mpr (by tauto)
  refine List.Nodup.sublist ((List.take_sublist _ _).map _) ?_
  refine (((List.perm_insertionSort _ _).map Reconciliation.quarantine).nodup_iff).mpr ?_
  rw [opened]
  exact sound.once.filter _

theorem eligibleCandidate {now retention fence store limit entry} {fences : PipelineId → Option StoredFence}
    (sound : Sound platform fences none store) (eligible : Eligible now retention fence store entry) :
    entry ∈ gcCandidates platform now retention store fence limit ∨
    (gcCandidates platform now retention store fence limit).length = limit := by
  obtain ⟨oid,_,_,recorded⟩ := openOid sound eligible.toOpenEntry
  obtain ⟨previous,given,_⟩ := (sound.logged entry eligible.member eligible.unpurged).named
  have listed : entry ∈ (store.reconciliationLog.filter (fun row => row.pipelineId = fence.pipelineId ∧ row.purgedAt = none ∧
      row.quarantineRelationOid.isSome ∧ row.previousFencingToken.isSome ∧
      row.recordedAt + retention ≤ now)).insertionSort (recordedOrder platform) := by
    refine (List.mem_insertionSort _).mpr (List.mem_filter.mpr ⟨eligible.member,?_⟩)
    simp [eligible.owner,eligible.unpurged,recorded,given,eligible.old]
  unfold gcCandidates
  by_cases short : (store.reconciliationLog.filter (fun row => row.pipelineId = fence.pipelineId ∧ row.purgedAt = none ∧
      row.quarantineRelationOid.isSome ∧ row.previousFencingToken.isSome ∧
      row.recordedAt + retention ≤ now)).length ≤ limit
  · rw [List.take_of_length_le (by rw [List.length_insertionSort]; exact short)]
    exact .inl listed
  · rw [List.length_take,List.length_insertionSort]
    exact .inr (by omega)

theorem lockHeld {target : Target} {fence : PipelineFence} (sound : SoundTarget platform target)
    (held : target.checkpoints.pipelineState fence.pipelineId = some fence.stored) :
    lockPipelineFence target.checkpoints fence = .ok () := by
  obtain ⟨small,positive⟩ := sound.fences _ _ held
  have small' : fence.topologyGeneration < 2 ^ 63 := small
  have positive' : ¬ fence.fencingToken ≤ 0 := Int.not_le.mpr positive
  have inRange : Checkpoint.databaseGeneration fence.topologyGeneration = .ok _ := if_pos small'
  refine bindOk.mpr ⟨_,inRange,bindOk.mpr ⟨(),bindOk.mpr ⟨_,inRange,if_neg positive'⟩,?_⟩⟩
  rw [held]
  exact if_pos ⟨rfl,rfl⟩

structure Collected (now retention limit : Nat) (fence : PipelineFence) (target : Target) (dropped : List QualifiedName)
    (target' : Target) : Prop where
  each : ∀ name ∈ dropped, ∃ entry, Eligible now retention fence target.store entry ∧ entry.quarantine = name ∧
    loadRelationState target.store name = .managed (leftRecord entry) ∧
    relationOid target.store name = entry.quarantineRelationOid
  gone : ∀ name ∈ dropped, loadRelationState target'.store name = .vacant
  others : ∀ name, name ∉ dropped → target'.store.relations name = target.store.relations name ∧
    managedRecord target'.store name = managedRecord target.store name
  manifests : SameManifests target.store target'.store
  checkpoints : target'.checkpoints = target.checkpoints
  complete : ∀ entry, Eligible now retention fence target.store entry →
    entry.quarantine ∈ dropped ∨ dropped.length = limit

theorem recordWithoutTables (store : Store) (names : List QualifiedName) (name : QualifiedName) :
    managedRecord (withoutTables store names) name = if name ∈ names then none else managedRecord store name := by
  by_cases here : name ∈ names
  · rw [if_pos here,managedRecord,Option.map_eq_none_iff]
    refine lookupNone.mpr fun row mem same => ?_
    have outside := (List.mem_filter.mp mem).2
    simp [same,here] at outside
  · rw [if_neg here,managedRecord,managedRecord,withoutTables,lookupFilterKept]
    rintro row rfl
    simpa using here

theorem passCollected {target : Target} {fence : PipelineFence} {now retention limit : Nat}
    (sound : SoundTarget platform target) :
    Collected now retention limit fence target
      ((gcCandidates platform now retention target.store fence limit).map Reconciliation.quarantine)
      {target with store :=
        (gcCandidates platform now retention target.store fence limit).foldl (collected now fence) target.store} := by
  rw [collectedStore]
  refine ⟨fun name mem => ?_,fun name mem => ?_,fun name outside => ⟨if_neg outside,?_⟩,⟨rfl,rfl,rfl⟩,rfl,
    fun entry eligible => ?_⟩
  · obtain ⟨entry,candidate,rfl⟩ := List.mem_map.mp mem
    have eligible := candidateEligible candidate
    obtain ⟨oid,_,placed,recorded⟩ := openOid sound.store eligible.toOpenEntry
    exact ⟨entry,eligible,rfl,openManaged sound.store eligible.member eligible.unpurged,placed.trans recorded.symm⟩
  · exact loadVacant.mpr ⟨if_pos mem,(recordWithoutTables _ _ _).trans (if_pos mem)⟩
  · exact (recordWithoutTables _ _ _).trans (if_neg outside)
  · rw [List.length_map]
    exact (eligibleCandidate sound.store eligible).imp (fun mem => List.mem_map_of_mem mem) id

/-- In every reachable state a garbage collection under the stored fence succeeds. It drops, in the order of the log and
up to the limit, the tables whose open entry is older than the retention, every one of which an activation of the same
pipeline has quarantined, and it touches nothing else. A policy without a retention does nothing. -/
theorem collectionSafe {start : Target} {operations : List Operation} (fresh : Fresh start) {fence : PipelineFence}
    (held : (run platform equal start operations).checkpoints.pipelineState fence.pipelineId = some fence.stored)
    {policy : QuarantineGcPolicy} {retention : Nat} (accepted : policy.retentionMicros = .ok (some retention)) (now : Nat) :
    (∃ target', garbageCollectQuarantinedTables platform now (run platform equal start operations) fence policy =
        .ok (⟨false,(gcCandidates platform now retention (run platform equal start operations).store fence
          policy.maxTables).map Reconciliation.quarantine⟩,target') ∧
      Collected now retention policy.maxTables fence (run platform equal start operations)
        ((gcCandidates platform now retention (run platform equal start operations).store fence
          policy.maxTables).map Reconciliation.quarantine) target') ∧
    (∀ entry, Eligible now retention fence (run platform equal start operations).store entry →
      QuarantinedBy platform equal start operations entry) ∧
    ∀ disabled : QuarantineGcPolicy, disabled.retentionMicros = .ok none →
      garbageCollectQuarantinedTables platform now (run platform equal start operations) fence disabled =
        .ok (⟨true,[]⟩,run platform equal start operations) := by
  have sound : SoundTarget platform (run platform equal start operations) :=
    runSound operations (freshSound platform fresh)
  refine ⟨?_,fun entry eligible =>
    openQuarantined platform equal fresh operations entry eligible.member eligible.unpurged,
    fun disabled none' => bindOk.mpr ⟨_,none',rfl⟩⟩
  generalize run platform equal start operations = target at held sound
  have locked := lockHeld sound held
  have positive : ¬ fence.fencingToken ≤ 0 := Int.not_le.mpr (lockSource locked).2
  have known : ∀ entry ∈ gcCandidates platform now retention target.store fence policy.maxTables,
      OpenEntry fence target.store entry := fun entry mem => (candidateEligible mem).toOpenEntry
  have pass : (gcCandidates platform now retention target.store fence policy.maxTables).foldlM
      (collectQuarantine platform now fence) ([],target.store) = _ :=
    collectAll held _ sound.store known (candidatesDistinct sound.store)
  refine ⟨_,bindOk.mpr ⟨_,accepted,?_⟩,passCollected sound⟩
  simp only
  rw [if_neg positive]
  exact bindOk.mpr ⟨(),mapErrorOk.mpr locked,bindOk.mpr ⟨_,pass,rfl⟩⟩

theorem replacedCollected : ∃ target', garbageCollectQuarantinedTables Resume.sha256Platform 1
    (run Resume.sha256Platform StagedApply.textOperators Resume.emptyTarget replaceAccounts) secondFence ⟨some 1000,1⟩ =
      .ok (⟨false,(gcCandidates Resume.sha256Platform 1 1
        (run Resume.sha256Platform StagedApply.textOperators Resume.emptyTarget replaceAccounts).store secondFence 1).map
          Reconciliation.quarantine⟩,target') ∧
    (gcCandidates Resume.sha256Platform 1 1
      (run Resume.sha256Platform StagedApply.textOperators Resume.emptyTarget replaceAccounts).store secondFence 1).length = 1 := by
  have held : (run Resume.sha256Platform StagedApply.textOperators Resume.emptyTarget replaceAccounts).checkpoints.pipelineState
      secondFence.pipelineId = some secondFence.stored := by decide +kernel
  have accepted : QuarantineGcPolicy.retentionMicros ⟨some 1000,1⟩ = .ok (some 1) := rfl
  obtain ⟨target',ok,_⟩ := (collectionSafe emptyFresh held accepted 1).1
  exact ⟨target',ok,by decide +kernel⟩

end Safety

end CloudberryEtl.Collection
