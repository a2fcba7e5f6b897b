import CloudberryEtl.Provenance

/-! The relation of a loaded shadow from its load to its activation: the transactions of other pipelines leave it in
place, and the activation gives it the name of its target. -/
namespace CloudberryEtl.Placement
open Schema Change TablePlan StagedApply KeyedTable Result TargetStore Manifest ShadowLoad Activation Cleanup Fencing
open ActivatedGroup StoreChange Metadata Moves Reachable CarriedRelations Provenance
open Checkpoint hiding databaseGeneration

section Activation
variable {now : Nat} {request : SnapshotActivationRequest}

theorem movedRelations (store : Store) (source destination name : QualifiedName) (relation : Relation)
    (record : ManagedTableRecord) : (withTable (withoutTable store source) destination relation record).relations name =
      if name = destination then some relation else if name = source then none else store.relations name := by
  by_cases arrived : name = destination
  · simp [withTable,arrived]
  · by_cases left : name = source
    · subst left
      simp [withTable,withoutTable,arrived]
    · simp [withTable,withoutTable,arrived,left]

theorem quarantineRelations {store plan store'} (apart : plan.quarantine ≠ plan.original)
    (schema : plan.quarantine.schema = plan.original.schema) (ok : applyQuarantine now request store plan = .ok store')
    {name : QualifiedName} (notOriginal : name ≠ plan.original) (notQuarantine : name ≠ plan.quarantine) :
    store'.relations name = store.relations name := by
  obtain ⟨_,relation,_,rfl⟩ := quarantineSource apart schema ok
  exact (movedRelations store plan.original plan.quarantine name relation plan.record).trans
    ((if_neg notQuarantine).trans (if_neg notOriginal))

theorem promoteRelations {store promotion store'} (ready : ActivatedGroup.Ready request promotion)
    (ok : promote now request store promotion = .ok store') :
    store'.relations promotion.table.target = store.relations promotion.table.shadow ∧
      ∀ name ∈ relationNames request.tables, name ≠ promotion.table.target → name ≠ promotion.table.shadow →
        store'.relations name = store.relations name := by
  obtain ⟨apart,schema,renamed⟩ := validTable ready.valid
  obtain ⟨middle,promoted,replaced,promoteOk,ok⟩ := promoteSource ok
  rw [promoteShadow,if_pos renamed] at promoteOk
  obtain ⟨_,relation,found,rfl⟩ := moveSource apart schema promoteOk ok
  have before : ∀ name ∈ relationNames request.tables, name ≠ promotion.table.target →
      middle.relations name = store.relations name := by
    intro name mem away
    cases replaced with
    | fresh => rfl
    | quarantined given quarantined =>
      rename_i plan
      obtain ⟨original,schema,reserved⟩ := ready.replaced plan given
      have distinct : plan.quarantine ≠ plan.original := fun same =>
        reserved (same.trans original ▸ targetNamed ready.member)
      exact quarantineRelations distinct (schema.trans (congrArg _ original.symm)) quarantined
        (fun same => away (same.trans original)) (fun same => reserved (same ▸ mem))
  refine ⟨?_,fun name mem notTarget notShadow => ?_⟩
  · rw [movedRelations,if_pos rfl,← found]
    exact before _ (shadowNamed ready.member) apart.symm
  · rw [movedRelations,if_neg notTarget,if_neg notShadow]
    exact before name mem notTarget

theorem promotionsRelations (promotions : List Promotion) : ∀ {store store'},
    (∀ promotion ∈ promotions, ActivatedGroup.Ready request promotion) →
    (relationNames (promotions.map Promotion.table)).Nodup →
    promotions.foldlM (promote now request) store = .ok store' →
    (∀ promotion ∈ promotions, store'.relations promotion.table.target = store.relations promotion.table.shadow) ∧
    ∀ name ∈ relationNames request.tables, name ∉ relationNames (promotions.map Promotion.table) →
      store'.relations name = store.relations name := by
  induction promotions with
  | nil =>
    intro store store' _ _ ok
    cases Except.ok.inj ok
    exact ⟨by simp,fun _ _ _ => rfl⟩
  | cons promotion promotions ih =>
    intro store store' ready distinct ok
    obtain ⟨middle,first,rest⟩ := bindOk.mp ok
    have split : relationNames ((promotion :: promotions).map Promotion.table) =
        [promotion.table.target,promotion.table.shadow] ++ relationNames (promotions.map Promotion.table) := rfl
    rw [split] at distinct
    obtain ⟨_,distinct,disjoint⟩ := List.nodup_append.mp distinct
    have here := ready promotion (by simp)
    obtain ⟨moved,kept⟩ := promoteRelations here first
    obtain ⟨others,kept'⟩ := ih (fun other mem => ready other (by simp [mem])) distinct rest
    refine ⟨fun other mem => ?_,fun name mem outside => ?_⟩
    · rcases List.mem_cons.mp mem with rfl | later
      · rw [kept' _ (targetNamed here.member) (fun mem => disjoint _ (by simp) _ mem rfl),moved]
      · have shadow := shadowNamed (List.mem_map_of_mem (f := Promotion.table) later)
        rw [others other later]
        exact kept _ (shadowNamed (ready other mem).member) (fun same => disjoint _ (by simp) _ shadow same.symm)
          (fun same => disjoint _ (by simp) _ shadow same.symm)
    · rw [split,List.mem_append,not_or] at outside
      obtain ⟨own,outside⟩ := outside
      simp only [List.mem_cons,List.not_mem_nil,or_false,not_or] at own
      exact (kept' name mem outside).trans (kept name mem own.1 own.2)

theorem stalesRelations (plans : List QuarantinePlan) {name : QualifiedName} : ∀ {store store'},
    (∀ plan ∈ plans, name ≠ plan.original ∧ name ≠ plan.quarantine ∧ plan.quarantine ≠ plan.original ∧
      plan.quarantine.schema = plan.original.schema) →
    plans.foldlM (applyQuarantine now request) store = .ok store' → store'.relations name = store.relations name := by
  induction plans with
  | nil =>
    intro store store' _ ok
    cases Except.ok.inj ok
    rfl
  | cons plan plans ih =>
    intro store store' planned ok
    obtain ⟨middle,first,rest⟩ := bindOk.mp ok
    obtain ⟨notOriginal,notQuarantine,apart,schema⟩ := planned plan (by simp)
    rw [ih (fun other mem => planned other (by simp [mem])) rest]
    exact quarantineRelations apart schema first notOriginal notQuarantine

theorem activationRelations {platform : Platform} {target target' : Target} {outcome}
    (ok : activateSnapshotGroup platform now target request = .ok (outcome,target'))
    (loaded : ∃ table ∈ request.tables, (managedRecord target.store table.shadow).isSome) :
    outcome.disposition = .activated ∧
      ∀ table ∈ request.tables, target'.store.relations table.target = target.store.relations table.shadow := by
  obtain ⟨canonical,state,states,stale,checks,outcomes⟩ := activationSource ok
  have source := canonicalSource checks.valid
  have tables : canonical.tables = sortTables request.tables := congrArg (·.tables) source.shape
  have member : ∀ table, table ∈ canonical.tables ↔ table ∈ request.tables := by
    intro table
    rw [tables,sortTables,List.mem_insertionSort]
  rcases outcomes with ⟨grouped,_,_⟩ | ⟨grouped,_,pending⟩
  · -- a group that is active already has no shadow
    obtain ⟨table,mem,present⟩ := loaded
    obtain ⟨state,produced,classified⟩ := relatedFrom (mapMOk.mp checks.classified) ((member table).mpr mem)
    rw [Retry.allActive grouped state produced] at classified
    rw [(loadVacant.mp (activeTable classified).1).2] at present
    contradiction
  · obtain ⟨_,_,pending⟩ := bindOk.mp pending
    obtain ⟨⟨promotions,reserved⟩,preflight,pending⟩ := bindOk.mp pending
    obtain ⟨plans,stalePreflight,pending⟩ := bindOk.mp pending
    obtain ⟨promoted,promotedOk,pending⟩ := bindOk.mp pending
    obtain ⟨quarantined,quarantinedOk,pending⟩ := bindOk.mp pending
    obtain ⟨checkpoints,_,pending⟩ := bindOk.mp pending
    obtain ⟨store,marked,pending⟩ := bindOk.mp pending
    cases Except.ok.inj pending
    have again := canonicalIdempotent checks.valid
    obtain ⟨promotedTables,kept,ready⟩ :=
      pendingReady again checks.classified (noneActive grouped) (List.subset_append_left _ _) preflight
    have distinct : (relationNames (promotions.map Promotion.table)).Nodup := by
      have sorted : sortTables canonical.tables = canonical.tables := congrArg (·.tables) (canonicalSource again).shape.symm
      rw [promotedTables,← sorted]
      exact (canonicalSource again).names
    have moved := (promotionsRelations promotions ready distinct promotedOk).1
    have planned := staleReady checks.listed kept (stalePlanned stale stalePreflight)
    refine ⟨rfl,fun table mem => ?_⟩
    have listed : table ∈ promotions.map Promotion.table := promotedTables ▸ (member table).mpr mem
    obtain ⟨promotion,memPromotion,rfl⟩ := List.mem_map.mp listed
    have stays : quarantined.relations promotion.table.target = promoted.relations promotion.table.target := by
      refine stalesRelations plans (fun plan memPlan => ?_) quarantinedOk
      obtain ⟨foreign,schema,apart,unnamed⟩ := planned plan memPlan
      exact ⟨foreign _ ((member _).mpr mem),fun same => unnamed (same ▸ targetNamed ((member _).mpr mem)),apart.symm,schema⟩
    rw [(markSource marked).2]
    exact stays.trans (moved promotion memPromotion)

end Activation

section Others
variable {platform : Platform} {equal : Operators} {pipeline : PipelineId} {name : QualifiedName}
  {record : ManagedTableRecord}

def Avoids (name : QualifiedName) (operation : Operation) : Prop :=
  ∀ request, operation = .executeApply request → ∀ batch ∈ request.tables, batch.plan.table.target ≠ name

structure Undisturbed (pipeline : PipelineId) (name : QualifiedName) (record : ManagedTableRecord) (target target' : Target) :
    Prop where
  relation : target'.store.relations name = target.store.relations name
  record : managedRecord target'.store name = some record
  fence : target'.checkpoints.pipelineState pipeline = target.checkpoints.pipelineState pipeline

theorem stepFence {target : Target} {operation : Operation} (other : operation.fence.pipelineId ≠ pipeline) :
    (step platform equal target operation).checkpoints.pipelineState pipeline =
      target.checkpoints.pipelineState pipeline := by
  have transition := stepTransition platform equal target operation
  generalize step platform equal target operation = target' at transition
  cases transition with
  | idle => rfl
  | guarded guard => rw [guard.keeps.fences]
  | activates => simp [CheckpointTables.putFence,other.symm]

theorem stepUndisturbed {target : Target} (sound : SoundTarget platform target) (numbered : Numbered target.store)
    {operation : Operation} (other : operation.fence.pipelineId ≠ pipeline)
    (managed : managedRecord target.store name = some record) (own : record.pipelineId = pipeline)
    (away : Avoids name operation) : Undisturbed pipeline name record target (step platform equal target operation) := by
  have committed : Committed platform anyRequest target operation (step platform equal target operation) :=
    stepCommitted sound operation (anyAdmitted target operation)
  have spares := (committedSound sound committed).2
  have effect : Effect platform equal target operation (step platform equal target operation) := stepEffect target operation
  have fence : (step platform equal target operation).checkpoints.pipelineState pipeline =
      target.checkpoints.pipelineState pipeline := stepFence other
  obtain ⟨oid,_,placed,_⟩ := (sound.store.stands ⟨name,record⟩ ((recordIff sound.store.names).mp managed)).relation
  have foreign : Foreign operation.fence.pipelineId target.store name := by
    refine ⟨by rw [placed]; rfl,fun found here same => other ?_⟩
    rw [managed] at here
    rw [← same,← Option.some.inj here,own]
  obtain ⟨sameOid,sameRecord⟩ := spares name (.inl foreign)
  generalize step platform equal target operation = target' at effect fence sameOid sameRecord
  refine ⟨?_,sameRecord.trans managed,fence⟩
  obtain ⟨relation,here,number⟩ := Option.map_eq_some_iff.mp placed
  obtain ⟨relation',here',number'⟩ := Option.map_eq_some_iff.mp (sameOid.trans placed)
  cases effect with
  | carried _ carried =>
    obtain ⟨old,there⟩ := carried.back name relation' here'
    have same : old = name := numbered.apart old name oid
      (Option.map_eq_some_iff.mpr ⟨relation',there,number'⟩) placed
    rw [here',← there,same]
  | applied is ok =>
    rename_i request outcome
    obtain ⟨_,_,ok⟩ := bindOk.mp ok
    obtain ⟨_,_,ok⟩ := bindOk.mp ok
    obtain ⟨store,folded,ok⟩ := bindOk.mp ok
    obtain ⟨⟨_,_⟩,_,ok⟩ := bindOk.mp ok
    cases Except.ok.inj ok
    obtain ⟨before,there,oids,tables,rows⟩ := applyTablesRows request.tables folded here'
    have none' : request.tables.filter (fun batch => batch.plan.table.target = name) = [] :=
      List.filter_eq_nil_iff.mpr fun batch mem => by simpa using away request is batch mem
    rw [none'] at rows
    have same : before.rows = relation'.rows := Except.ok.inj rows
    rw [here',there]
    cases before
    cases relation'
    simp_all
  | loaded is ok =>
    rename_i plan ownership copied
    have loads := loadsSource ok
    by_cases shadow : name = plan.shadow.target
    · rw [shadow,loads.shadow] at here'
      cases Option.some.inj here'
      have below := numbered.below name oid placed
      have : target.store.nextOid = oid := number'
      omega
    · exact loads.others name shadow

theorem Undisturbed.refl {target : Target} (managed : managedRecord target.store name = some record) :
    Undisturbed pipeline name record target target := ⟨rfl,managed,rfl⟩

theorem Undisturbed.trans {first second third : Target} (one : Undisturbed pipeline name record first second)
    (two : Undisturbed pipeline name record second third) : Undisturbed pipeline name record first third :=
  ⟨two.relation.trans one.relation,two.record,two.fence.trans one.fence⟩

theorem runNumbered (operations : List Operation) : ∀ {target : Target}, Numbered target.store →
    Numbered (run platform equal target operations).store := by
  induction operations with
  | nil => exact fun numbered => numbered
  | cons operation operations ih => exact fun numbered => ih (stepNumbered numbered operation)

theorem runUndisturbed (own : record.pipelineId = pipeline) (operations : List Operation) : ∀ {target : Target},
    SoundTarget platform target → Numbered target.store → managedRecord target.store name = some record →
    (∀ operation ∈ operations, operation.fence.pipelineId ≠ pipeline ∧ Avoids name operation) →
    Undisturbed pipeline name record target (run platform equal target operations) := by
  induction operations with
  | nil => exact fun _ _ managed _ => .refl managed
  | cons operation operations ih =>
    intro target sound numbered managed others
    obtain ⟨other,away⟩ := others operation List.mem_cons_self
    have first : Undisturbed pipeline name record target (step platform equal target operation) :=
      stepUndisturbed sound numbered other managed own away
    exact first.trans (ih (stepSound sound operation) (stepNumbered numbered operation) first.record
      fun later mem => others later (List.mem_cons_of_mem _ mem))

theorem ownersUndisturbed {fence : PipelineFence} {target : Target} (sound : SoundTarget platform target)
    (numbered : Numbered target.store) {operations : List Operation}
    (held : target.checkpoints.pipelineState fence.pipelineId = some fence.stored)
    (holds : (run platform equal target operations).checkpoints.pipelineState fence.pipelineId = some fence.stored)
    (others : ∀ operation ∈ operations, operation.fence ≠ fence ∧ Avoids name operation)
    (managed : managedRecord target.store name = some record) (own : record.pipelineId = fence.pipelineId) :
    Undisturbed fence.pipelineId name record target (run platform equal target operations) := by
  rw [runCarried platform equal operations target held holds]
  refine runUndisturbed own _ sound numbered managed fun operation mem => ?_
  obtain ⟨mem,carried⟩ := List.mem_filter.mp mem
  obtain ⟨other,away⟩ := others operation mem
  refine ⟨fun same => other ?_,away⟩
  -- an operation of the pipeline under the stored fence carries this very fence
  simp only [carries,ne_eq,Bool.decide_or,Bool.or_eq_true,decide_eq_true_eq] at carried
  have stored := carried.resolve_left (fun apart => apart same)
  cases fence
  cases given : operation.fence
  simp_all [PipelineFence.stored]

end Others

end CloudberryEtl.Placement
