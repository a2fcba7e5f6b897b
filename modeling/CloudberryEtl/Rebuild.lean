import CloudberryEtl.Retry

/-! A rebuild of tables that are in service: a group of a later generation under the stored fence. Its tables are admitted
and wait for their promotion with the old tables as the ones to replace exactly when every old table was loaded from the
source relation that the new plan names. -/
namespace CloudberryEtl.Rebuild
open Schema Change TablePlan StagedApply KeyedTable Result TargetStore Manifest ShadowLoad Activation Cleanup Fencing
open ActivatedGroup Maintenance StoreChange Metadata RoundTrip Moves Transactions Reachable Retry
open Checkpoint hiding databaseGeneration

def oldTable (store : Store) (table : SnapshotActivationTable) : Option ManagedTableRecord :=
  match loadRelationState store table.target with
  | .managed record => some record
  | _ => none

def Rebuilds (store : Store) (request : SnapshotActivationRequest) : Prop :=
  ∀ table ∈ request.tables, loadRelationState store table.target = .vacant ∨
    ∃ old, loadRelationState store table.target = .managed old ∧ old.pipelineId = request.fence.pipelineId ∧
      old.state = .active ∧ old.tableGeneration < table.tableGeneration

def loadedShadow (request : SnapshotActivationRequest) (table : SnapshotActivationTable) (oid : Nat) : ManagedTableRecord :=
  ⟨request.fence.pipelineId,some request.snapshotGroupId,some oid,table.sourceRelationId,table.tableGeneration,
    table.schemaFingerprint,.shadow,request.fence.fencingToken⟩

def Loaded (store : Store) (request : SnapshotActivationRequest) : Prop :=
  ∀ table ∈ request.tables, ∃ oid, loadRelationState store table.shadow = .managed (loadedShadow request table oid)

def SameSources (store : Store) (request : SnapshotActivationRequest) : Prop :=
  ∀ table ∈ request.tables, ∀ old, loadRelationState store table.target = .managed old →
    old.sourceRelationId = table.sourceRelationId

structure Admissible (platform : Platform) (target : Target) (request : SnapshotActivationRequest) : Prop where
  loads : ∀ table ∈ request.tables, ∀ plan : SnapshotTargetPlan,
    plan.activationTable table.schemaFingerprint = table →
    validateTargetForLoad (loadRelationState target.store table.target) plan
      ⟨request.fence,request.snapshotGroupId,table.schemaFingerprint⟩ = .ok ()
  pending : Loaded target.store request → ∀ table ∈ request.tables, ∃ oid, classifyStored target.store request table =
    .ok (.pending (loadedShadow request table oid) (oldTable target.store table))
  activates : ∀ now outcome target', activateSnapshotGroup platform now target request = .ok (outcome,target') →
    outcome.disposition = .activated ∧
    (∀ table ∈ request.tables, Serves request.fence request.snapshotGroupId target'.store table) ∧
    ∀ table ∈ request.tables, ∀ old, oldTable target.store table = some old →
      ∃ quarantine ∈ outcome.quarantined, loadRelationState target'.store quarantine =
        .managed {old with state := .quarantined, fencingToken := request.fence.fencingToken}

section Target
variable {platform : Platform} {target : Target} {request : SnapshotActivationRequest} {table : SnapshotActivationTable}

theorem oldSome {store old} : oldTable store table = some old ↔ loadRelationState store table.target = .managed old := by
  unfold oldTable
  cases loadRelationState store table.target <;> simp

theorem oldNone {store} (vacant : loadRelationState store table.target = .vacant) : oldTable store table = none := by
  simp [oldTable,vacant]

theorem oldToken {old} (sound : SoundTarget platform target)
    (held : target.checkpoints.pipelineState request.fence.pipelineId = some request.fence.stored)
    (managed : loadRelationState target.store table.target = .managed old)
    (owner : old.pipelineId = request.fence.pipelineId) : ¬ request.fence.fencingToken < old.fencingToken := by
  obtain ⟨current,found,bound⟩ :=
    (sound.store.stands _ ((recordIff sound.store.names).mp (loadManaged.mp managed).2)).bounded
  rw [owner,held] at found
  cases Option.some.inj found
  exact Int.not_lt.mpr bound

theorem oldAdmitted {old} (sound : SoundTarget platform target)
    (held : target.checkpoints.pipelineState request.fence.pipelineId = some request.fence.stored)
    (managed : loadRelationState target.store table.target = .managed old)
    (owner : old.pipelineId = request.fence.pipelineId) (active : old.state = .active)
    (earlier : old.tableGeneration < table.tableGeneration) {plan : SnapshotTargetPlan}
    (planned : plan.activationTable table.schemaFingerprint = table) :
    validateTargetForLoad (loadRelationState target.store table.target) plan
      ⟨request.fence,request.snapshotGroupId,table.schemaFingerprint⟩ = .ok () ↔
    old.sourceRelationId = table.sourceRelationId := by
  have fresh := oldToken sound held managed owner
  have source : plan.sourceRelationId = table.sourceRelationId := by rw [← planned]; rfl
  have generation : plan.sourceGeneration = table.tableGeneration := by rw [← planned]; rfl
  have other : old.tableGeneration ≠ table.tableGeneration := Nat.ne_of_lt earlier
  by_cases same : old.sourceRelationId = table.sourceRelationId <;>
    simp [validateTargetForLoad,managed,validateManagedIdentity,validateManagedFence,requireState,owner,source,same,fresh,
      active,generation,other,bind,Except.bind]

theorem oldWaits {old oid} (sound : SoundTarget platform target)
    (held : target.checkpoints.pipelineState request.fence.pipelineId = some request.fence.stored)
    (managed : loadRelationState target.store table.target = .managed old)
    (owner : old.pipelineId = request.fence.pipelineId) (active : old.state = .active)
    (earlier : old.tableGeneration < table.tableGeneration) (same : old.sourceRelationId = table.sourceRelationId)
    (shadow : loadRelationState target.store table.shadow = .managed (loadedShadow request table oid)) :
    classifyStored target.store request table = .ok (.pending (loadedShadow request table oid) (some old)) := by
  have fresh := oldToken sound held managed owner
  have other : old.tableGeneration ≠ table.tableGeneration := Nat.ne_of_lt earlier
  have later : ¬ table.tableGeneration ≤ old.tableGeneration := Nat.not_le.mpr earlier
  simp [classifyStored,classifyTable,classifyTarget,classifyShadow,managed,shadow,loadedShadow,validateManagedIdentity,
    validateManagedFence,requireState,owner,same,fresh,active,matchesActivation,other,later,bind,Except.bind]

theorem freeWaits {oid} (vacant : loadRelationState target.store table.target = .vacant)
    (shadow : loadRelationState target.store table.shadow = .managed (loadedShadow request table oid)) :
    classifyStored target.store request table = .ok (.pending (loadedShadow request table oid) none) := by
  simp [classifyStored,classifyTable,classifyTarget,classifyShadow,vacant,shadow,loadedShadow,validateManagedIdentity,
    validateManagedFence,requireState,bind,Except.bind]

theorem rebuildActivates {now outcome target'} (rebuilds : Rebuilds target.store request)
    (ok : activateSnapshotGroup platform now target request = .ok (outcome,target')) :
    outcome.disposition = .activated := by
  obtain ⟨canonical,state,states,stale,checks,⟨grouped,_,_⟩ | ⟨_,_,pending⟩⟩ := activationSource ok
  · have shape := (canonicalSource checks.valid).shape
    obtain ⟨table,mem⟩ := List.exists_mem_of_ne_nil _ (canonicalSource checks.valid).tables
    have sorted : table ∈ canonical.tables := by
      rw [shape]
      exact memSortTables.mpr mem
    obtain ⟨found,produced,classified⟩ := relatedFrom (mapMOk.mp checks.classified) sorted
    rw [allActive grouped found produced] at classified
    obtain ⟨_,record,managed,_,_,matching⟩ := activeTable classified
    simp only [matchesActivation,decide_eq_true_eq] at matching
    rcases rebuilds table mem with vacant | ⟨old,held,_,_,earlier⟩
    · rw [vacant] at managed
      contradiction
    · rw [held] at managed
      cases managed
      exact absurd matching.2.2.1 (Nat.ne_of_lt earlier)
  · obtain ⟨_,_,pending⟩ := bindOk.mp pending
    obtain ⟨_,_,pending⟩ := bindOk.mp pending
    obtain ⟨_,_,pending⟩ := bindOk.mp pending
    obtain ⟨_,_,pending⟩ := bindOk.mp pending
    obtain ⟨_,_,pending⟩ := bindOk.mp pending
    obtain ⟨_,_,pending⟩ := bindOk.mp pending
    obtain ⟨_,_,pending⟩ := bindOk.mp pending
    cases Except.ok.inj pending
    rfl

end Target

section Iff
variable {platform : Platform} {equal : Operators}

def plainPlan (table : SnapshotActivationTable) : SnapshotTargetPlan :=
  ⟨table.target,⟨table.shadow,[],[],[],[],""⟩,table.sourceRelationId,table.tableGeneration⟩

/-- In every reachable state, a group of a later generation under the stored fence is admitted to replace the tables it
names exactly when each of them was loaded from the source relation of the new plan. -/
theorem rebuildAdmittedIff {start : Target} {operations : List Operation} (fresh : Fresh start)
    {request : SnapshotActivationRequest}
    (held : (run platform equal start operations).checkpoints.pipelineState request.fence.pipelineId =
      some request.fence.stored)
    (rebuilds : Rebuilds (run platform equal start operations).store request) :
    Admissible platform (run platform equal start operations) request ↔
      SameSources (run platform equal start operations).store request := by
  have sound : SoundTarget platform (run platform equal start operations) :=
    runSound operations (freshSound platform fresh)
  generalize run platform equal start operations = target at held rebuilds sound
  constructor
  · intro admissible table mem old managed
    rcases rebuilds table mem with vacant | ⟨other,found,owner,active,earlier⟩
    · rw [vacant] at managed
      contradiction
    · cases managed.symm.trans found
      exact (oldAdmitted sound held managed owner active earlier rfl).mp (admissible.loads table mem (plainPlan table) rfl)
  · intro same
    refine ⟨fun table mem plan planned => ?_,fun loaded table mem => ?_,fun now outcome target' ok => ?_⟩
    · rcases rebuilds table mem with vacant | ⟨old,managed,owner,active,earlier⟩
      · rw [vacant]
        rfl
      · exact (oldAdmitted sound held managed owner active earlier planned).mpr (same table mem old managed)
    · obtain ⟨oid,shadow⟩ := loaded table mem
      refine ⟨oid,?_⟩
      rcases rebuilds table mem with vacant | ⟨old,managed,owner,active,earlier⟩
      · rw [oldNone vacant]
        exact freeWaits vacant shadow
      · rw [oldSome.mpr managed]
        exact oldWaits sound held managed owner active earlier (same table mem old managed) shadow
    · have sound' : SoundTarget platform target' := by
        have stepped : step platform equal target (.activateSnapshotGroup now request) = target' := by
          simp [step,commit,ok,Except.toOption]
        rw [← stepped]
        exact stepSound sound _
      obtain ⟨canonical,plans,valid,_,effects⟩ := activationEffects sound.store ok
      have completed := completedOf valid effects sound'.store
      refine ⟨rebuildActivates rebuilds ok,completed.serve,fun table mem old managed => ?_⟩
      have managed := oldSome.mp managed
      rcases rebuilds table mem with vacant | ⟨other,found,owner,active,earlier⟩
      · rw [vacant] at managed
        contradiction
      · cases managed.symm.trans found
        have row := (recordIff sound.store.names).mp (loadManaged.mp managed).2
        rcases completed.quarantined _ row owner active with ⟨entry,member,target,matching⟩ | quarantined
        · -- a table that the group serves already would be of the new generation
          simp only [matchesActivation,decide_eq_true_eq] at matching
          rcases rebuilds entry member with vacant | ⟨again,found',_,_,earlier'⟩
          · rw [target,managed] at vacant
            contradiction
          · rw [target,managed] at found'
            cases found'
            exact absurd matching.2.2.1 (Nat.ne_of_lt earlier')
        · exact quarantined

end Iff

section Sample
open Resume

def laterFence : PipelineFence := ⟨7,2,2⟩

def altered : SnapshotActivationTable := ⟨accountsTable.target,⟨"dw","accounts_shadow_2",dwValid,accountsShadow2Valid⟩,16385,2,"accounts v2"⟩

def recreated : SnapshotActivationTable := {altered with sourceRelationId := 16999}

def servedLater : List Operation := serveAccounts ++ [.activatePipelineFence laterFence]

def servedRecord : ManagedTableRecord := ⟨7,some 1,some 1,16385,1,"accounts v1",.active,1⟩

theorem servedHeld : (run sha256Platform textOperators emptyTarget servedLater).checkpoints.pipelineState laterFence.pipelineId =
    some laterFence.stored := by decide +kernel

theorem servedOld : loadRelationState (run sha256Platform textOperators emptyTarget servedLater).store accountsTable.target =
    .managed servedRecord := by decide +kernel

theorem servedRebuilds {table} (target : table.target = accountsTable.target) (later : 1 < table.tableGeneration) :
    Rebuilds (run sha256Platform textOperators emptyTarget servedLater).store (groupRequest laterFence 2 [table]) := by
  intro other mem
  cases List.mem_singleton.mp mem
  refine .inr ⟨servedRecord,?_,rfl,rfl,later⟩
  rw [target]
  exact servedOld

theorem recreatedRejected : Fresh emptyTarget ∧
    Rebuilds (run sha256Platform textOperators emptyTarget servedLater).store (groupRequest laterFence 2 [recreated]) ∧
    ¬ Admissible sha256Platform (run sha256Platform textOperators emptyTarget servedLater)
      (groupRequest laterFence 2 [recreated]) := by
  refine ⟨emptyFresh,servedRebuilds rfl (by decide),fun admissible => ?_⟩
  have loads := admissible.loads recreated (by simp [groupRequest]) (plainPlan recreated) rfl
  have managed : loadRelationState (run sha256Platform textOperators emptyTarget servedLater).store recreated.target =
      .managed servedRecord := servedOld
  rw [managed] at loads
  have failed : validateTargetForLoad (.managed servedRecord) (plainPlan recreated)
      ⟨laterFence,2,recreated.schemaFingerprint⟩ =
        .error (.managedByOtherSource recreated.target.display 16999 16385) := by decide +kernel
  exact nomatch loads.symm.trans failed

theorem alteredAdmitted : Admissible sha256Platform (run sha256Platform textOperators emptyTarget servedLater)
    (groupRequest laterFence 2 [altered]) := by
  have held : (run sha256Platform textOperators emptyTarget servedLater).checkpoints.pipelineState
      (groupRequest laterFence 2 [altered]).fence.pipelineId =
        some (groupRequest laterFence 2 [altered]).fence.stored := by
    have fence : (groupRequest laterFence 2 [altered]).fence = laterFence := rfl
    rw [fence]
    exact servedHeld
  have target : altered.target = accountsTable.target := rfl
  have rebuilds := servedRebuilds target (by decide)
  refine (rebuildAdmittedIff emptyFresh held rebuilds).mpr fun table mem old managed => ?_
  cases List.mem_singleton.mp mem
  rw [target,servedOld] at managed
  cases managed
  rfl

end Sample

end CloudberryEtl.Rebuild
