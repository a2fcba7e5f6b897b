import CloudberryEtl.Reachable

/-! What the transactions of the target do to its relations: cleanups, collections and activations rename and drop them
as they are, a load creates one with the rows of its COPY, and an apply rewrites the rows under the names of its
request. -/
namespace CloudberryEtl.CarriedRelations
open Schema Change TablePlan StagedApply KeyedTable Result TargetStore Manifest ShadowLoad Activation Cleanup Fencing
open Checkpoint hiding databaseGeneration

structure Numbered (store : Store) : Prop where
  apart : ∀ one two oid, relationOid store one = some oid → relationOid store two = some oid → one = two
  below : ∀ name oid, relationOid store name = some oid → oid < store.nextOid

structure Carried (store store' : Store) : Prop where
  back : ∀ name relation, store'.relations name = some relation → ∃ old, store.relations old = some relation
  numbered : Numbered store → Numbered store'
  nextOid : store'.nextOid = store.nextOid

theorem Carried.refl (store : Store) : Carried store store := ⟨fun name _ found => ⟨name,found⟩,fun numbered => numbered,rfl⟩

theorem Carried.trans {first second third : Store} (one : Carried first second) (two : Carried second third) :
    Carried first third := by
  refine ⟨?_,fun numbered => two.numbered (one.numbered numbered),two.nextOid.trans one.nextOid⟩
  intro name relation found
  obtain ⟨middle,there⟩ := two.back name relation found
  exact one.back middle relation there

theorem carriedSame {store store' : Store} (relations : store'.relations = store.relations)
    (nextOid : store'.nextOid = store.nextOid) : Carried store store' := by
  refine ⟨fun name relation found => ⟨name,relations ▸ found⟩,fun numbered => ⟨?_,?_⟩,nextOid⟩
  · intro one two oid
    simpa [relationOid,relations] using numbered.apart one two oid
  · intro name oid
    simpa [relationOid,relations,nextOid] using numbered.below name oid

theorem carriedFold {α σ ε : Type} (store : σ → Store) {step : σ → α → Except ε σ}
    (each : ∀ {state item state'}, step state item = .ok state' → Carried (store state) (store state')) (items : List α) :
    ∀ {state state'}, items.foldlM step state = .ok state' → Carried (store state) (store state') := by
  induction items with
  | nil =>
    intro state state' ok
    cases Except.ok.inj ok
    exact .refl _
  | cons item items ih =>
    intro state state' ok
    obtain ⟨middle,first,rest⟩ := bindOk.mp ok
    exact (each first).trans (ih rest)

theorem dropCarried {store name store'} (ok : dropTable store name = .ok store') : Carried store store' := by
  unfold dropTable at ok
  split at ok <;> try contradiction
  cases Except.ok.inj ok
  have kept : ∀ other relation, Function.update store.relations name none other = some relation →
      store.relations other = some relation := by
    intro other relation found
    by_cases same : other = name
    · simp [same] at found
    · simpa [same] using found
  have numbers : ∀ other oid, relationOid {store with relations := Function.update store.relations name none} other =
      some oid → relationOid store other = some oid := by
    intro other oid found
    obtain ⟨relation,here,number⟩ := Option.map_eq_some_iff.mp found
    exact Option.map_eq_some_iff.mpr ⟨relation,kept other relation here,number⟩
  refine ⟨fun other relation found => ⟨other,kept other relation found⟩,fun numbered => ⟨?_,?_⟩,rfl⟩
  · exact fun one two oid left right => numbered.apart one two oid (numbers one oid left) (numbers two oid right)
  · exact fun other oid found => numbered.below other oid (numbers other oid found)

theorem renameCarried {store table newName store'} (ok : renameTable store table newName = .ok store') :
    Carried store store' := by
  unfold renameTable at ok
  simp only at ok
  generalize destination : ({table with name := newName.name, nameValid := newName.nameValid} : QualifiedName) = renamed at ok
  split at ok
  · contradiction
  · rename_i relation found
    obtain ⟨free,ok⟩ := iteOk.mp ok
    obtain ⟨_,ok⟩ := iteOk.mp ok
    cases Except.ok.inj ok
    have apart : table ≠ renamed := by
      rintro rfl
      simp [found] at free
    -- the new name stands for the old one
    let source := fun other => if other = renamed then table else other
    have back : ∀ other relation', (putRelation {store with relations := Function.update store.relations table none} renamed
        relation).relations other = some relation' → store.relations (source other) = some relation' := by
      intro other relation' here
      by_cases moved : other = renamed
      · simpa [source,moved,putRelation,found] using here
      · by_cases gone : other = table
        · simp [putRelation,gone,apart] at here
        · simpa [source,moved,putRelation,gone] using here
    have numbers : ∀ other oid, relationOid (putRelation {store with relations := Function.update store.relations table none}
        renamed relation) other = some oid → relationOid store (source other) = some oid ∧ other ≠ table := by
      intro other oid here
      obtain ⟨relation',placed,number⟩ := Option.map_eq_some_iff.mp here
      refine ⟨Option.map_eq_some_iff.mpr ⟨relation',back other relation' placed,number⟩,?_⟩
      rintro rfl
      simp [putRelation,apart] at placed
    refine ⟨fun other relation' here => ⟨source other,back other relation' here⟩,fun numbered => ⟨?_,?_⟩,rfl⟩
    · intro one two oid left right
      obtain ⟨left,notLeft⟩ := numbers one oid left
      obtain ⟨right,notRight⟩ := numbers two oid right
      have same := numbered.apart _ _ oid left right
      by_cases here : one = renamed
      · by_cases there : two = renamed
        · rw [here,there]
        · simp only [source,here,there,if_true,if_false] at same
          exact absurd same.symm notRight
      · by_cases there : two = renamed
        · simp only [source,here,there,if_true,if_false] at same
          exact absurd same notLeft
        · simpa only [source,here,there,if_false] using same
    · exact fun other oid here => numbered.below _ oid (numbers other oid here).1

theorem deleteCarried {store store'} {selects : ManagedTable → Bool} (ok : deleteManaged store selects = .ok store') :
    Carried store store' := by
  obtain ⟨_,_,ok⟩ := bindOk.mp ok
  cases Except.ok.inj ok
  exact carriedSame rfl rfl

theorem relocateCarried {store source destination record state token store'}
    (ok : relocateMetadata store source destination record state token = .ok store') : Carried store store' := by
  obtain ⟨middle,deleted,ok⟩ := bindOk.mp ok
  obtain ⟨_,_,ok⟩ := bindOk.mp ok
  obtain ⟨_,ok⟩ := iteOk.mp ok
  cases Except.ok.inj ok
  exact (deleteCarried deleted).trans (carriedSame rfl rfl)

theorem quarantineCarried {now request store plan store'} (ok : applyQuarantine now request store plan = .ok store') :
    Carried store store' := by
  obtain ⟨renamed,first,ok⟩ := bindOk.mp ok
  obtain ⟨relocated,second,ok⟩ := bindOk.mp ok
  obtain ⟨_,_,ok⟩ := bindOk.mp ok
  obtain ⟨_,_,ok⟩ := bindOk.mp ok
  obtain ⟨_,ok⟩ := iteOk.mp ok
  cases Except.ok.inj ok
  exact ((renameCarried first).trans (relocateCarried second)).trans (carriedSame rfl rfl)

theorem promoteCarried {now request store promotion store'} (ok : promote now request store promotion = .ok store') :
    Carried store store' := by
  obtain ⟨quarantined,promoted,replaced,moving,relocating⟩ := ActivatedGroup.promoteSource ok
  have before : Carried store quarantined := by
    cases replaced with
    | fresh => exact .refl _
    | quarantined _ ok => exact quarantineCarried ok
  have here : Carried quarantined promoted := by
    unfold promoteShadow at moving
    split at moving
    · exact renameCarried moving
    · cases Except.ok.inj moving
      exact .refl _
  exact (before.trans here).trans (relocateCarried relocating)

section Operations
variable {platform : Platform} {target target' : Target}

theorem beginCarried {request disposition} (ok : beginSnapshotGroup platform target request = .ok (disposition,target')) :
    Carried target.store target'.store := by
  obtain ⟨canonical,_,ok⟩ := bindOk.mp ok
  obtain ⟨_,_,ok⟩ := bindOk.mp ok
  obtain ⟨stored,_,ok⟩ := bindOk.mp ok
  split at ok
  · obtain ⟨_,ok⟩ := iteOk.mp ok
    split at ok <;> cases Except.ok.inj ok <;> exact .refl _
  · obtain ⟨store,inserted,ok⟩ := bindOk.mp ok
    cases Except.ok.inj ok
    obtain ⟨_,_,inserted⟩ := bindOk.mp inserted
    cases Except.ok.inj inserted
    exact carriedSame rfl rfl

theorem activateCarried {now request outcome}
    (ok : activateSnapshotGroup platform now target request = .ok (outcome,target')) :
    Carried target.store target'.store := by
  have quarantines : ∀ {canonical : SnapshotActivationRequest} (plans : List QuarantinePlan) {store store' : Store},
      plans.foldlM (applyQuarantine now canonical) store = .ok store' → Carried store store' :=
    fun plans _ _ => carriedFold id quarantineCarried plans
  obtain ⟨canonical,state,states,stale,_,outcomes⟩ := ActivatedGroup.activationSource ok
  rcases outcomes with ⟨_,_,retry⟩ | ⟨_,_,pending⟩
  · obtain ⟨_,_,retry⟩ := bindOk.mp retry
    obtain ⟨plans,_,retry⟩ := bindOk.mp retry
    obtain ⟨store,quarantined,retry⟩ := bindOk.mp retry
    cases Except.ok.inj retry
    exact quarantines plans quarantined
  · obtain ⟨_,_,pending⟩ := bindOk.mp pending
    obtain ⟨⟨promotions,_⟩,_,pending⟩ := bindOk.mp pending
    obtain ⟨plans,_,pending⟩ := bindOk.mp pending
    obtain ⟨promoted,promoting,pending⟩ := bindOk.mp pending
    obtain ⟨quarantined,quarantining,pending⟩ := bindOk.mp pending
    obtain ⟨checkpoints,_,pending⟩ := bindOk.mp pending
    obtain ⟨marked,marking,pending⟩ := bindOk.mp pending
    cases Except.ok.inj pending
    obtain ⟨_,rfl⟩ := StoreChange.markSource marking
    have first : Carried target.store promoted := carriedFold id promoteCarried promotions promoting
    exact (first.trans (quarantines plans quarantining)).trans (carriedSame rfl rfl)

theorem cleanupLockedCarried {store store' request outcome}
    (ok : cleanupLoadingSnapshotGroupLocked platform store request = .ok (outcome,store')) : Carried store store' := by
  obtain ⟨stored,_,ok⟩ := bindOk.mp ok
  obtain ⟨_,_,ok⟩ := bindOk.mp ok
  obtain ⟨_,ok⟩ := iteOk.mp ok
  obtain ⟨owned,_,ok⟩ := bindOk.mp ok
  simp only at ok
  split at ok
  · contradiction
  obtain ⟨dropped,dropping,ok⟩ := bindOk.mp ok
  obtain ⟨last,deleting,ok⟩ := bindOk.mp ok
  cases Except.ok.inj ok
  have first : Carried store dropped := by
    refine carriedFold id (fun {state item state'} shadow => ?_) _ dropping
    obtain ⟨middle,drop,delete⟩ := bindOk.mp shadow
    exact (dropCarried drop).trans (deleteCarried delete)
  refine first.trans ?_
  unfold deleteManifest at deleting
  obtain ⟨_,deleting⟩ := iteOk.mp deleting
  obtain ⟨_,deleting⟩ := iteOk.mp deleting
  obtain ⟨_,_,deleting⟩ := bindOk.mp deleting
  obtain ⟨_,_,deleting⟩ := bindOk.mp deleting
  cases Except.ok.inj deleting
  exact carriedSame rfl rfl

theorem cleanupLoadingCarried {request outcome}
    (ok : cleanupLoadingSnapshotGroup platform target request = .ok (outcome,target')) :
    Carried target.store target'.store := by
  obtain ⟨_,_,ok⟩ := bindOk.mp ok
  obtain ⟨_,_,ok⟩ := bindOk.mp ok
  obtain ⟨⟨_,store⟩,locked,ok⟩ := bindOk.mp ok
  cases Except.ok.inj ok
  exact cleanupLockedCarried locked

theorem cleanupStaleCarried {fence outcomes} (ok : cleanupStaleSnapshotGroups platform target fence = .ok (outcomes,target')) :
    Carried target.store target'.store := by
  obtain ⟨_,ok⟩ := iteOk.mp ok
  obtain ⟨_,_,ok⟩ := bindOk.mp ok
  obtain ⟨_,_,ok⟩ := bindOk.mp ok
  obtain ⟨state,cleaned,ok⟩ := bindOk.mp ok
  cases Except.ok.inj ok
  refine carriedFold Prod.snd (fun {state header state'} ok => ?_) _ cleaned
  obtain ⟨_,_,ok⟩ := bindOk.mp ok
  obtain ⟨⟨outcome,store⟩,done,ok⟩ := bindOk.mp ok
  cases Except.ok.inj ok
  exact cleanupLockedCarried done

theorem garbageCollectCarried {now fence policy outcome}
    (ok : garbageCollectQuarantinedTables platform now target fence policy = .ok (outcome,target')) :
    Carried target.store target'.store := by
  obtain ⟨_,_,ok⟩ := bindOk.mp ok
  split at ok
  · cases Except.ok.inj ok
    exact .refl _
  · obtain ⟨_,ok⟩ := iteOk.mp ok
    obtain ⟨_,_,ok⟩ := bindOk.mp ok
    obtain ⟨state,collected,ok⟩ := bindOk.mp ok
    cases Except.ok.inj ok
    refine carriedFold Prod.snd (fun {state row state'} ok => ?_) _ collected
    obtain ⟨⟨_,_⟩,_,ok⟩ := bindOk.mp ok
    obtain ⟨_,_,ok⟩ := bindOk.mp ok
    obtain ⟨_,ok⟩ := iteOk.mp ok
    obtain ⟨_,_,ok⟩ := bindOk.mp ok
    obtain ⟨_,ok⟩ := iteOk.mp ok
    obtain ⟨_,_,ok⟩ := bindOk.mp ok
    obtain ⟨_,ok⟩ := iteOk.mp ok
    obtain ⟨dropped,drop,ok⟩ := bindOk.mp ok
    obtain ⟨deleted,delete,ok⟩ := bindOk.mp ok
    obtain ⟨purged,purge,ok⟩ := bindOk.mp ok
    cases Except.ok.inj ok
    obtain ⟨_,_,purge⟩ := bindOk.mp purge
    cases Except.ok.inj purge
    exact ((dropCarried drop).trans (deleteCarried delete)).trans (carriedSame rfl rfl)

end Operations

section Contents
variable {platform : Platform} {equal : Operators}

def applyRows (equal : Operators) (batches : List TableApplyBatch) (rows : List Row) :
    Except ApplyError (List Row) :=
  batches.foldlM (fun rows batch => executeTable (equal.of batch.plan.table) batch.plan batch.rows rows) rows

theorem applyRowsAppend {equal : Operators} {first rest : List TableApplyBatch} {rows middle final : List Row}
    (one : applyRows equal first rows = .ok middle) (two : applyRows equal rest middle = .ok final) :
    applyRows equal (first ++ rest) rows = .ok final := by
  unfold applyRows at *
  rw [List.foldlM_append]
  exact bindOk.mpr ⟨middle,one,two⟩

theorem applyTableRows {store store' : Store} {batch} (ok : applyTable equal store batch = .ok store') {name relation'}
    (found : store'.relations name = some relation') : ∃ relation, store.relations name = some relation ∧
      relation'.oid = relation.oid ∧ relation'.table = relation.table ∧
      applyRows equal ([batch].filter (fun batch => batch.plan.table.target = name)) relation.rows = .ok relation'.rows := by
  rcases applyTableSource ok with ⟨empty,rfl⟩ | ⟨relation,rows,here,executed,rfl⟩
  · refine ⟨relation',found,rfl,rfl,?_⟩
    by_cases named : batch.plan.table.target = name
    · simp [applyRows,named,executeTable,empty,bind,Except.bind,pure,Except.pure]
    · simp [applyRows,named,pure,Except.pure]
  · by_cases named : batch.plan.table.target = name
    · subst named
      have same : relation' = {relation with rows := rows} := by simpa [putRelation] using found.symm
      subst same
      refine ⟨relation,here,rfl,rfl,?_⟩
      simp [applyRows,executed,bind,Except.bind,pure,Except.pure]
    · refine ⟨relation',by simpa [putRelation,Ne.symm named] using found,rfl,rfl,?_⟩
      simp [applyRows,named,pure,Except.pure]

theorem applyTablesRows (tables : List TableApplyBatch) : ∀ {store store' : Store},
    tables.foldlM (applyTable equal) store = .ok store' → ∀ {name relation'}, store'.relations name = some relation' →
    ∃ relation, store.relations name = some relation ∧ relation'.oid = relation.oid ∧ relation'.table = relation.table ∧
      applyRows equal (tables.filter (fun batch => batch.plan.table.target = name)) relation.rows = .ok relation'.rows := by
  induction tables with
  | nil =>
    intro store store' ok name relation' found
    cases Except.ok.inj ok
    exact ⟨relation',found,rfl,rfl,rfl⟩
  | cons batch tables ih =>
    intro store store' ok name relation' found
    obtain ⟨between,first,rest⟩ := bindOk.mp ok
    obtain ⟨middle,here,oid,table,later⟩ := ih rest found
    obtain ⟨relation,there,oid',table',now⟩ := applyTableRows first here
    refine ⟨relation,there,oid.trans oid',table.trans table',?_⟩
    have split : (batch :: tables).filter (fun batch => batch.plan.table.target = name) =
        [batch].filter (fun batch => batch.plan.table.target = name) ++
          tables.filter (fun batch => batch.plan.table.target = name) := by
      rw [← List.filter_append]
      rfl
    rw [split]
    exact applyRowsAppend now later

theorem prerequisiteRelations {ownership store prerequisite store'}
    (ok : ensurePrerequisiteType platform ownership store prerequisite = .ok store') :
    store'.relations = store.relations ∧ store'.nextOid = store.nextOid := by
  have updated : ∀ (store : Store) name checksum token,
      (updateManagedType store name checksum token).relations = store.relations ∧
        (updateManagedType store name checksum token).nextOid = store.nextOid := by
    intro store name checksum token
    unfold updateManagedType
    split <;> exact ⟨rfl,rfl⟩
  obtain ⟨action,_,ok⟩ := bindOk.mp ok
  cases action with
  | create =>
    cases Except.ok.inj ok
    exact ⟨rfl,rfl⟩
  | reuse =>
    cases Except.ok.inj ok
    exact updated _ _ _ _
  | reconcile =>
    obtain ⟨reconciled,first,ok⟩ := bindOk.mp ok
    cases Except.ok.inj ok
    unfold reconcilePrerequisiteType at first
    split at first
    · contradiction
    · obtain ⟨_,_,first⟩ := bindOk.mp first
      obtain ⟨_,_,first⟩ := bindOk.mp first
      obtain ⟨_,_,first⟩ := bindOk.mp first
      cases Except.ok.inj first
      exact updated _ _ _ _

theorem prerequisitesRelations {ownership} (prerequisites : List UserTypePlan) : ∀ {store store' : Store},
    prerequisites.foldlM (ensurePrerequisiteType platform ownership) store = .ok store' →
    store'.relations = store.relations ∧ store'.nextOid = store.nextOid := by
  induction prerequisites with
  | nil =>
    intro store store' ok
    cases Except.ok.inj ok
    exact ⟨rfl,rfl⟩
  | cons prerequisite prerequisites ih =>
    intro store store' ok
    obtain ⟨middle,first,rest⟩ := bindOk.mp ok
    obtain ⟨relations,number⟩ := prerequisiteRelations first
    obtain ⟨relations',number'⟩ := ih rest
    exact ⟨relations'.trans relations,number'.trans number⟩

structure Loads (store : Store) (plan : SnapshotTargetPlan) (ownership : SnapshotOwnership) (copied : List Row)
    (store' : Store) : Prop where
  shadow : store'.relations plan.shadow.target = some ⟨store.nextOid,plan.shadow,copied⟩
  record : managedRecord store' plan.shadow.target = some ⟨ownership.fence.pipelineId,some ownership.snapshotGroupId,
    some store.nextOid,plan.sourceRelationId,plan.sourceGeneration,ownership.schemaFingerprint,.shadow,
    ownership.fence.fencingToken⟩
  others : ∀ name, name ≠ plan.shadow.target → store'.relations name = store.relations name
  records : ∀ name, name ≠ plan.shadow.target → managedRecord store' name = managedRecord store name
  nextOid : store'.nextOid = store.nextOid + 1

theorem clearedOthers {store cleared : Store} {plan ownership} (clearing : Cleared store plan ownership cleared) :
    cleared.nextOid = store.nextOid ∧ ∀ name, name ≠ plan.shadow.target → cleared.relations name = store.relations name ∧
      managedRecord cleared name = managedRecord store name := by
  cases clearing with
  | kept => exact ⟨rfl,fun _ _ => ⟨rfl,rfl⟩⟩
  | removed _ removing =>
    obtain ⟨dropped,dropOk,deleteOk⟩ := bindOk.mp removing
    unfold dropTable at dropOk
    split at dropOk <;> try contradiction
    cases Except.ok.inj dropOk
    obtain ⟨_,_,deleteOk⟩ := bindOk.mp deleteOk
    cases Except.ok.inj deleteOk
    refine ⟨rfl,fun name apart => ⟨by simp [apart],?_⟩⟩
    have without := StoreChange.recordWithout store plan.shadow.target name
    rw [if_neg apart] at without
    rw [← without]
    simp [managedRecord,StoreChange.withoutTable]

theorem loadsSource {target target' : Target} {plan ownership copied}
    (ok : snapshotApply platform equal target plan ownership (some copied) = .ok target') :
    Loads target.store plan ownership copied target'.store := by
  obtain ⟨stored,cleared,ensured,built,created,steps⟩ := snapshotApplySource ok
  obtain ⟨rows,store,some',copying,rfl⟩ := steps.copying
  cases Option.some.inj some'
  obtain ⟨clearedOid,clearing⟩ := clearedOthers steps.clearing
  obtain ⟨ensuredRelations,ensuredOid⟩ := prerequisitesRelations _ steps.ensuring
  have ensuredRows : ensured.managedTables = cleared.managedTables :=
    (Transactions.reshapedFold Transactions.prerequisiteReshaped _ steps.ensuring).managedTables
  obtain ⟨vacant,made⟩ := Transactions.createSource steps.building steps.registering
  have number : ensured.nextOid = target.store.nextOid := ensuredOid.trans clearedOid
  unfold copyShadow at copying
  have placed : created.relations plan.shadow.target = some ⟨ensured.nextOid,plan.shadow,[]⟩ := by
    rw [made]
    simp [StoreChange.withTable]
  rw [placed] at copying
  simp only [List.nil_append] at copying
  obtain ⟨_,copying⟩ := iteOk.mp copying
  obtain ⟨_,copying⟩ := iteOk.mp copying
  obtain ⟨_,copying⟩ := iteOk.mp copying
  cases Except.ok.inj copying
  have records := fun name => StoreChange.recordWith (ActivatedGroup.loadVacant.mp vacant).2 name
    ⟨ensured.nextOid,plan.shadow,[]⟩
  refine ⟨by simp [putRelation,number],?_,?_,?_,by simp [putRelation,made,number]⟩
  · rw [made,← number]
    exact (records _ _).trans (if_pos rfl)
  · intro name apart
    rw [← (clearing name apart).1,← ensuredRelations]
    simp [putRelation,made,StoreChange.withTable,apart]
  · intro name apart
    rw [← (clearing name apart).2,made]
    refine (records name _).trans ((if_neg apart).trans ?_)
    rw [managedRecord,managedRecord,ensuredRows]

end Contents

end CloudberryEtl.CarriedRelations
