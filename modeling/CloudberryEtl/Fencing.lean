import CloudberryEtl.Cleanup
import CloudberryEtl.ShadowLoad

/-! Every operation of the target as one transaction of its owner, and what the pipeline fence guarantees over any
interleaving of the transactions of any owners. -/
namespace CloudberryEtl.Fencing
open Schema Change TablePlan StagedApply KeyedTable Result Checkpoint TargetStore Manifest ShadowLoad Activation Cleanup

structure TableApplyBatch where
  plan : ApplyPlan
  rows : List StagingRow
  deriving DecidableEq, Repr

structure ApplyRequest where
  fence : PipelineFence
  checkpoint : NodeCheckpoint
  tables : List TableApplyBatch
  deriving DecidableEq, Repr

def validateRequest (request : ApplyRequest) : Except ApplyError Unit :=
  match firstRepeat [] (request.tables.map (fun table => table.plan.stagingName)) with
  | some name => .error (.duplicateStagingName name)
  | none => .ok ()
where
  firstRepeat (seen : List String) : List String → Option String
    | [] => none
    | name :: rest => if name ∈ seen then some name else firstRepeat (name :: seen) rest

-- The staging table is filled before the first statement that names the target.
def applyTable (equal : Operators) (store : Store) (batch : TableApplyBatch) :
    Except ApplyError Store := do
  if batch.rows.isEmpty then .ok store
  else
    let target := batch.plan.table.target
    match store.relations target with
    | none =>
      let _ ← copyIn batch.plan batch.rows
      .error (.database .undefinedTable)
    | some relation =>
      if relation.table.columns ≠ batch.plan.table.columns then
        let _ ← copyIn batch.plan batch.rows
        .error (.database .undefinedColumn)
      else
        let rows ← executeTable (equal.of batch.plan.table) batch.plan batch.rows relation.rows
        .ok (putRelation store target {relation with rows := rows})

theorem applyTableSource {equal : Operators} {store store' : Store} {batch}
    (ok : applyTable equal store batch = .ok store') :
    (batch.rows = [] ∧ store' = store) ∨ ∃ relation rows, store.relations batch.plan.table.target = some relation ∧
      executeTable (equal.of batch.plan.table) batch.plan batch.rows relation.rows = .ok rows ∧
      store' = putRelation store batch.plan.table.target {relation with rows := rows} := by
  unfold applyTable at ok
  split at ok
  · rename_i empty
    exact .inl ⟨by simpa using empty,(Except.ok.inj ok).symm⟩
  · simp only at ok
    split at ok
    · obtain ⟨_,_,ok⟩ := bindOk.mp ok
      contradiction
    · rename_i relation found
      split at ok
      · obtain ⟨_,_,ok⟩ := bindOk.mp ok
        contradiction
      · obtain ⟨rows,executed,ok⟩ := bindOk.mp ok
        exact .inr ⟨relation,rows,found,executed,(Except.ok.inj ok).symm⟩

def executeApply (equal : Operators) (target : Target) (request : ApplyRequest) :
    Except ApplyError (AdvanceOutcome × Target) := do
  validateRequest request
  (lockPipelineFence target.checkpoints request.fence).mapError .checkpoint
  let store ← request.tables.foldlM (applyTable equal) target.store
  let (outcome,checkpoints) ←
    (advanceNodeCheckpoint target.checkpoints request.fence request.checkpoint).mapError .checkpoint
  .ok (outcome,⟨checkpoints,store⟩)

inductive Operation where
  | activatePipelineFence (fence : PipelineFence)
  | executeApply (request : ApplyRequest)
  | beginSnapshotGroup (request : SnapshotActivationRequest)
  | snapshotApply (plan : SnapshotTargetPlan) (ownership : SnapshotOwnership) (copied : Option (List Row))
  | activateSnapshotGroup (now : Nat) (request : SnapshotActivationRequest)
  | cleanupLoadingSnapshotGroup (request : SnapshotGroupCleanupRequest)
  | cleanupStaleSnapshotGroups (fence : PipelineFence)
  | garbageCollect (now : Nat) (fence : PipelineFence) (policy : QuarantineGcPolicy)

def Operation.fence : Operation → PipelineFence
  | .activatePipelineFence fence => fence
  | .executeApply request => request.fence
  | .beginSnapshotGroup request => request.fence
  | .snapshotApply _ ownership _ => ownership.fence
  | .activateSnapshotGroup _ request => request.fence
  | .cleanupLoadingSnapshotGroup request => request.currentFence
  | .cleanupStaleSnapshotGroups fence => fence
  | .garbageCollect _ fence _ => fence

section System
variable (platform : Platform) (equal : Operators)

def commit (target : Target) : Operation → Option Target
  | .activatePipelineFence fence =>
      (activatePipelineFence target.checkpoints fence).toOption.map (fun checkpoints => ⟨checkpoints,target.store⟩)
  | .executeApply request => (executeApply equal target request).toOption.map Prod.snd
  | .beginSnapshotGroup request => (beginSnapshotGroup platform target request).toOption.map Prod.snd
  | .snapshotApply plan ownership copied => (snapshotApply platform equal target plan ownership copied).toOption
  | .activateSnapshotGroup now request => (activateSnapshotGroup platform now target request).toOption.map Prod.snd
  | .cleanupLoadingSnapshotGroup request => (cleanupLoadingSnapshotGroup platform target request).toOption.map Prod.snd
  | .cleanupStaleSnapshotGroups fence => (cleanupStaleSnapshotGroups platform target fence).toOption.map Prod.snd
  | .garbageCollect now fence policy =>
      (garbageCollectQuarantinedTables platform now target fence policy).toOption.map Prod.snd

def step (target : Target) (operation : Operation) : Target := (commit platform equal target operation).getD target

def run (target : Target) (operations : List Operation) : Target := operations.foldl (step platform equal) target

end System

def Advances (before after : CheckpointTables) : Prop :=
  ∀ key stored, before.nodeCheckpoints key = some stored → ∃ later, after.nodeCheckpoints key = some later ∧
    stored.checkpoint.key = later.checkpoint.key ∧
    stored.checkpoint.systemIdentifier = later.checkpoint.systemIdentifier ∧
    stored.checkpoint.timeline = later.checkpoint.timeline ∧ stored.checkpoint.slotName = later.checkpoint.slotName ∧
    stored.checkpoint.appliedLsn ≤ later.checkpoint.appliedLsn

theorem Advances.refl (tables : CheckpointTables) : Advances tables tables :=
  fun _ stored found => ⟨stored,found,rfl,rfl,rfl,rfl,Nat.le_refl _⟩

theorem Advances.trans {first second third : CheckpointTables} (one : Advances first second)
    (two : Advances second third) : Advances first third := by
  intro key stored found
  obtain ⟨middle,foundMiddle,same,system,timeline,slot,lsn⟩ := one key stored found
  obtain ⟨later,foundLater,same',system',timeline',slot',lsn'⟩ := two key middle foundMiddle
  exact ⟨later,foundLater,same.trans same',system.trans system',timeline.trans timeline',slot.trans slot',
    Nat.le_trans lsn lsn'⟩

/- What a transaction other than a fence activation does to the checkpoint tables. -/
structure Keeps (before after : CheckpointTables) : Prop where
  fences : after.pipelineState = before.pipelineState
  advances : Advances before after

theorem Keeps.refl (tables : CheckpointTables) : Keeps tables tables := ⟨rfl,.refl tables⟩

theorem Keeps.trans {first second third : CheckpointTables} (one : Keeps first second) (two : Keeps second third) :
    Keeps first third := ⟨two.fences.trans one.fences,one.advances.trans two.advances⟩

theorem advanceKeeps {tables fence proposed outcome tables'}
    (ok : advanceNodeCheckpoint tables fence proposed = .ok (outcome,tables')) : Keeps tables tables' := by
  obtain ⟨_,_,_,checked,rfl⟩ := advanceSource ok
  refine ⟨rfl,fun key stored found => ?_⟩
  cases current : tables.nodeCheckpoints proposed.key with
  | none =>
    have apart : key ≠ proposed.key := by
      rintro rfl
      rw [current] at found
      contradiction
    refine ⟨stored,?_,rfl,rfl,rfl,rfl,Nat.le_refl _⟩
    simpa [CheckpointTables.putCheckpoint,writtenCheckpoint,apart] using found
  | some previous =>
    rw [current] at checked
    obtain ⟨sameKey,_,_,_,forward⟩ := checkAdvanceSource checked
    by_cases same : key = proposed.key
    · subst same
      cases Option.some.inj (current.symm.trans found)
      refine ⟨⟨{stored.checkpoint with appliedLsn := proposed.appliedLsn},fence.fencingToken⟩,?_,rfl,rfl,rfl,rfl,forward⟩
      simp [CheckpointTables.putCheckpoint,writtenCheckpoint,sameKey]
    · refine ⟨stored,?_,rfl,rfl,rfl,rfl,Nat.le_refl _⟩
      simpa [CheckpointTables.putCheckpoint,writtenCheckpoint,sameKey,same] using found

theorem advanceBoundariesKeeps {fence : PipelineFence} (boundaries : List NodeCheckpoint) :
    ∀ {tables tables'}, boundaries.foldlM (advanceBoundary fence) tables = .ok tables' → Keeps tables tables' := by
  induction boundaries with
  | nil =>
    intro tables tables' ok
    cases Except.ok.inj ok
    exact .refl tables
  | cons boundary boundaries ih =>
    intro tables tables' ok
    obtain ⟨middle,first,rest⟩ := bindOk.mp ok
    obtain ⟨⟨_,advanced⟩,moved,result⟩ := bindOk.mp first
    cases Except.ok.inj result
    exact (advanceKeeps (mapErrorOk.mp moved)).trans (ih rest)

structure Guarded (fence : PipelineFence) (target target' : Target) : Prop where
  held : target.checkpoints.pipelineState fence.pipelineId = some fence.stored
  keeps : Keeps target.checkpoints target'.checkpoints

theorem guardedStore {fence : PipelineFence} {target : Target} {store : Store} {error : CheckpointError → SnapshotTargetError}
    (locked : (lockPipelineFence target.checkpoints fence).mapError error = .ok ()) :
    Guarded fence target {target with store := store} := ⟨(lockSource (mapErrorOk.mp locked)).1,.refl _⟩

section Operations
variable {platform : Platform} {equal : Operators} {target target' : Target}

theorem executeApplyGuarded {request outcome} (ok : executeApply equal target request = .ok (outcome,target')) :
    Guarded request.fence target target' := by
  obtain ⟨_,_,ok⟩ := bindOk.mp ok
  obtain ⟨_,locked,ok⟩ := bindOk.mp ok
  obtain ⟨_,_,ok⟩ := bindOk.mp ok
  obtain ⟨⟨_,_⟩,advanced,ok⟩ := bindOk.mp ok
  cases Except.ok.inj ok
  exact ⟨(lockSource (mapErrorOk.mp locked)).1,advanceKeeps (mapErrorOk.mp advanced)⟩

theorem beginSnapshotGroupGuarded {request disposition}
    (ok : beginSnapshotGroup platform target request = .ok (disposition,target')) :
    Guarded request.fence target target' := by
  obtain ⟨canonical,valid,ok⟩ := bindOk.mp ok
  obtain ⟨_,locked,ok⟩ := bindOk.mp ok
  rw [(canonicalSource valid).shape] at locked
  obtain ⟨stored,_,ok⟩ := bindOk.mp ok
  split at ok
  · obtain ⟨_,ok⟩ := iteOk.mp ok
    split at ok <;> cases Except.ok.inj ok <;> exact guardedStore locked
  · obtain ⟨_,_,ok⟩ := bindOk.mp ok
    cases Except.ok.inj ok
    exact guardedStore locked

theorem snapshotApplyGuarded {plan ownership copied}
    (ok : snapshotApply platform equal target plan ownership copied = .ok target') :
    Guarded ownership.fence target target' := by
  obtain ⟨_,_,ok⟩ := bindOk.mp ok
  obtain ⟨_,locked,ok⟩ := bindOk.mp ok
  obtain ⟨_,_,ok⟩ := bindOk.mp ok
  split at ok
  · contradiction
  · obtain ⟨_,_,ok⟩ := bindOk.mp ok
    cases Except.ok.inj ok
    exact guardedStore locked

theorem activateSnapshotGroupGuarded {now request outcome}
    (ok : activateSnapshotGroup platform now target request = .ok (outcome,target')) :
    Guarded request.fence target target' := by
  obtain ⟨canonical,valid,ok⟩ := bindOk.mp ok
  obtain ⟨_,locked,ok⟩ := bindOk.mp ok
  rw [(canonicalSource valid).shape] at locked
  obtain ⟨stored,_,ok⟩ := bindOk.mp ok
  obtain ⟨exact',_,ok⟩ := bindOk.mp ok
  obtain ⟨_,_,ok⟩ := bindOk.mp ok
  obtain ⟨_,_,ok⟩ := bindOk.mp ok
  obtain ⟨_,_,ok⟩ := bindOk.mp ok
  split at ok
  · obtain ⟨_,ok⟩ := iteOk.mp ok
    obtain ⟨_,_,ok⟩ := bindOk.mp ok
    obtain ⟨_,_,ok⟩ := bindOk.mp ok
    obtain ⟨_,_,ok⟩ := bindOk.mp ok
    cases Except.ok.inj ok
    exact guardedStore locked
  · obtain ⟨_,ok⟩ := iteOk.mp ok
    obtain ⟨_,_,ok⟩ := bindOk.mp ok
    obtain ⟨⟨_,_⟩,_,ok⟩ := bindOk.mp ok
    obtain ⟨_,_,ok⟩ := bindOk.mp ok
    obtain ⟨_,_,ok⟩ := bindOk.mp ok
    obtain ⟨_,_,ok⟩ := bindOk.mp ok
    obtain ⟨_,advanced,ok⟩ := bindOk.mp ok
    obtain ⟨_,_,ok⟩ := bindOk.mp ok
    cases Except.ok.inj ok
    exact ⟨(lockSource (mapErrorOk.mp locked)).1,advanceBoundariesKeeps _ advanced⟩

theorem cleanupLoadingGuarded {request outcome}
    (ok : cleanupLoadingSnapshotGroup platform target request = .ok (outcome,target')) :
    Guarded request.currentFence target target' := by
  obtain ⟨_,_,ok⟩ := bindOk.mp ok
  obtain ⟨_,locked,ok⟩ := bindOk.mp ok
  obtain ⟨⟨_,_⟩,_,ok⟩ := bindOk.mp ok
  cases Except.ok.inj ok
  exact guardedStore locked

theorem cleanupStaleGuarded {fence outcomes}
    (ok : cleanupStaleSnapshotGroups platform target fence = .ok (outcomes,target')) :
    Guarded fence target target' := by
  obtain ⟨_,ok⟩ := iteOk.mp ok
  obtain ⟨_,_,ok⟩ := bindOk.mp ok
  obtain ⟨_,locked,ok⟩ := bindOk.mp ok
  obtain ⟨⟨_,_⟩,_,ok⟩ := bindOk.mp ok
  cases Except.ok.inj ok
  exact guardedStore locked

theorem garbageCollectGuarded {now fence policy outcome}
    (ok : garbageCollectQuarantinedTables platform now target fence policy = .ok (outcome,target')) :
    target' = target ∨ Guarded fence target target' := by
  obtain ⟨_,_,ok⟩ := bindOk.mp ok
  split at ok
  · cases Except.ok.inj ok
    exact .inl rfl
  · obtain ⟨_,ok⟩ := iteOk.mp ok
    obtain ⟨_,locked,ok⟩ := bindOk.mp ok
    obtain ⟨⟨_,_⟩,_,ok⟩ := bindOk.mp ok
    cases Except.ok.inj ok
    exact .inr (guardedStore locked)

end Operations

inductive Transition (target : Target) (operation : Operation) : Target → Prop where
  | idle : Transition target operation target
  | guarded {committed : Target} (guard : Guarded operation.fence target committed) :
      Transition target operation committed
  | activates
      (newer : ∀ current, target.checkpoints.pipelineState operation.fence.pipelineId = some current →
        current.topologyGeneration ≤ operation.fence.topologyGeneration ∧
        current.fencingToken ≤ operation.fence.fencingToken) :
      Transition target operation {target with checkpoints := target.checkpoints.putFence operation.fence}

theorem stepTransition (platform : Platform) (equal : Operators) (target : Target)
    (operation : Operation) : Transition target operation (step platform equal target operation) := by
  unfold step
  cases committed : commit platform equal target operation with
  | none => exact .idle
  | some target' =>
    rw [Option.getD_some]
    cases operation with
    | activatePipelineFence fence =>
      obtain ⟨checkpoints,ok,rfl⟩ := Option.map_eq_some_iff.mp committed
      obtain ⟨newer,rfl⟩ := activateSource (toOptionSome.mp ok)
      exact .activates newer
    | executeApply request =>
      obtain ⟨result,ok,rfl⟩ := Option.map_eq_some_iff.mp committed
      exact .guarded (executeApplyGuarded (toOptionSome.mp ok))
    | beginSnapshotGroup request =>
      obtain ⟨result,ok,rfl⟩ := Option.map_eq_some_iff.mp committed
      exact .guarded (beginSnapshotGroupGuarded (toOptionSome.mp ok))
    | snapshotApply plan ownership copied =>
      exact .guarded (snapshotApplyGuarded (toOptionSome.mp committed))
    | activateSnapshotGroup now request =>
      obtain ⟨result,ok,rfl⟩ := Option.map_eq_some_iff.mp committed
      exact .guarded (activateSnapshotGroupGuarded (toOptionSome.mp ok))
    | cleanupLoadingSnapshotGroup request =>
      obtain ⟨result,ok,rfl⟩ := Option.map_eq_some_iff.mp committed
      exact .guarded (cleanupLoadingGuarded (toOptionSome.mp ok))
    | cleanupStaleSnapshotGroups fence =>
      obtain ⟨result,ok,rfl⟩ := Option.map_eq_some_iff.mp committed
      exact .guarded (cleanupStaleGuarded (toOptionSome.mp ok))
    | garbageCollect now fence policy =>
      obtain ⟨⟨outcome,later⟩,ok,same⟩ := Option.map_eq_some_iff.mp committed
      cases same
      rcases garbageCollectGuarded (toOptionSome.mp ok) with same | guard
      · exact same ▸ .idle
      · exact .guarded guard

def FencesRise (before after : CheckpointTables) : Prop :=
  ∀ pipeline stored, before.pipelineState pipeline = some stored → ∃ later, after.pipelineState pipeline = some later ∧
    stored.topologyGeneration ≤ later.topologyGeneration ∧ stored.fencingToken ≤ later.fencingToken

theorem FencesRise.refl (tables : CheckpointTables) : FencesRise tables tables :=
  fun _ stored found => ⟨stored,found,Nat.le_refl _,Int.le_refl _⟩

theorem FencesRise.trans {first second third : CheckpointTables} (one : FencesRise first second)
    (two : FencesRise second third) : FencesRise first third := by
  intro pipeline stored found
  obtain ⟨middle,foundMiddle,generation,token⟩ := one pipeline stored found
  obtain ⟨later,foundLater,generation',token'⟩ := two pipeline middle foundMiddle
  exact ⟨later,foundLater,Nat.le_trans generation generation',Int.le_trans token token'⟩

theorem transitionRises {target target' : Target} {operation : Operation}
    (transition : Transition target operation target') :
    FencesRise target.checkpoints target'.checkpoints ∧ Advances target.checkpoints target'.checkpoints := by
  cases transition with
  | idle => exact ⟨.refl _,.refl _⟩
  | guarded guard =>
    refine ⟨fun pipeline stored found => ?_,guard.keeps.advances⟩
    exact ⟨stored,by rw [guard.keeps.fences,found],Nat.le_refl _,Int.le_refl _⟩
  | activates newer =>
    refine ⟨fun pipeline stored found => ?_,.refl _⟩
    by_cases same : pipeline = operation.fence.pipelineId
    · subst same
      exact ⟨operation.fence.stored,by simp [CheckpointTables.putFence],newer stored found⟩
    · exact ⟨stored,by simpa [CheckpointTables.putFence,same] using found,Nat.le_refl _,Int.le_refl _⟩

theorem transitionForeign {target target' : Target} {operation : Operation} {stored : StoredFence}
    (transition : Transition target operation target')
    (found : target.checkpoints.pipelineState operation.fence.pipelineId = some stored)
    (foreign : operation.fence.stored ≠ stored)
    (kept : target'.checkpoints.pipelineState operation.fence.pipelineId = some stored) : target' = target := by
  -- A transaction whose fence is not the stored one leaves the target alone, unless it replaces that fence.
  cases transition with
  | idle => rfl
  | guarded guard =>
    rw [guard.held] at found
    exact absurd (Option.some.inj found) foreign
  | activates newer =>
    simp only [CheckpointTables.putFence,Function.update_self,Option.some.injEq] at kept
    exact absurd kept foreign

section Runs
variable (platform : Platform) (equal : Operators)

theorem runRises (operations : List Operation) : ∀ start,
    FencesRise start.checkpoints (run platform equal start operations).checkpoints ∧
      Advances start.checkpoints (run platform equal start operations).checkpoints := by
  induction operations with
  | nil => exact fun start => ⟨.refl _,.refl _⟩
  | cons operation operations ih =>
    intro start
    obtain ⟨rises,advances⟩ := transitionRises (stepTransition platform equal start operation)
    obtain ⟨rest,restAdvances⟩ := ih (step platform equal start operation)
    exact ⟨rises.trans rest,advances.trans restAdvances⟩

def carries (pipeline : PipelineId) (stored : StoredFence) (operation : Operation) : Bool :=
  operation.fence.pipelineId ≠ pipeline ∨ operation.fence.stored = stored

theorem runCarried {pipeline : PipelineId} {stored : StoredFence} (operations : List Operation) : ∀ start,
    start.checkpoints.pipelineState pipeline = some stored →
    (run platform equal start operations).checkpoints.pipelineState pipeline = some stored →
    run platform equal start operations = run platform equal start (operations.filter (carries pipeline stored)) := by
  induction operations with
  | nil => exact fun _ _ _ => rfl
  | cons operation operations ih =>
    intro start found kept
    let middle := step platform equal start operation
    have transition := stepTransition platform equal start operation
    -- the fence in between lies between two equal ones
    have between : middle.checkpoints.pipelineState pipeline = some stored := by
      obtain ⟨later,foundLater,generation,token⟩ := (transitionRises transition).1 pipeline stored found
      obtain ⟨last,foundLast,generation',token'⟩ := (runRises platform equal operations middle).1 pipeline later foundLater
      cases Option.some.inj (kept.symm.trans foundLast)
      have same : later = stored := by
        cases later
        cases stored
        simp only [StoredFence.mk.injEq] at *
        omega
      exact same ▸ foundLater
    by_cases carried : carries pipeline stored operation
    · rw [List.filter_cons_of_pos carried]
      exact ih middle between kept
    · rw [List.filter_cons_of_neg carried]
      simp only [carries,ne_eq,Bool.decide_or,Bool.or_eq_true,decide_eq_true_eq,not_or,not_not] at carried
      obtain ⟨rfl,foreign⟩ := carried
      have unchanged : middle = start := transitionForeign transition found foreign between
      rw [show run platform equal start (operation :: operations) = run platform equal middle operations from rfl,
        unchanged] at kept ⊢
      exact ih start found kept

/-- Fencing safety over any interleaving: fences and checkpoints only rise, a checkpoint keeps its source identity, and
as long as a fence stays stored only the transactions that carry it change the target. -/
theorem fencingSafety (start : Target) (operations : List Operation) :
    (∀ pipeline stored, start.checkpoints.pipelineState pipeline = some stored →
      ∃ later, (run platform equal start operations).checkpoints.pipelineState pipeline = some later ∧
        stored.topologyGeneration ≤ later.topologyGeneration ∧ stored.fencingToken ≤ later.fencingToken) ∧
    (∀ pipeline stored, start.checkpoints.pipelineState pipeline = some stored →
      (run platform equal start operations).checkpoints.pipelineState pipeline = some stored →
      run platform equal start operations =
        run platform equal start (operations.filter (carries pipeline stored))) ∧
    (∀ key stored, start.checkpoints.nodeCheckpoints key = some stored →
      ∃ later, (run platform equal start operations).checkpoints.nodeCheckpoints key = some later ∧
        stored.checkpoint.key = later.checkpoint.key ∧
        stored.checkpoint.systemIdentifier = later.checkpoint.systemIdentifier ∧
        stored.checkpoint.timeline = later.checkpoint.timeline ∧
        stored.checkpoint.slotName = later.checkpoint.slotName ∧
        stored.checkpoint.appliedLsn ≤ later.checkpoint.appliedLsn) :=
  ⟨(runRises platform equal operations start).1,fun _ _ => runCarried platform equal operations start,
    (runRises platform equal operations start).2⟩

end Runs

end CloudberryEtl.Fencing
