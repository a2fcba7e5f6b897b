import CloudberryEtl.ActivatedGroup

/-! The transactions a job runs around an active group: applies, fence activations, cleanups of interrupted loads and
garbage collections of quarantined tables. None of them touches a serving table or the manifest of an active group. -/
namespace CloudberryEtl.Maintenance
open Schema Change TablePlan StagedApply KeyedTable Result TargetStore Manifest Activation Cleanup Fencing ActivatedGroup
open Checkpoint hiding databaseGeneration

structure Maintained (before after : Store) : Prop where
  serving : ∀ name record, loadRelationState before name = .managed record → record.state = .active →
    loadRelationState after name = .managed record
  vacant : ∀ name, loadRelationState before name = .vacant → loadRelationState after name = .vacant
  headers : ∀ group header, lookup SnapshotGroup.snapshotGroupId before.snapshotGroups group = some header →
    header.state = .active → lookup SnapshotGroup.snapshotGroupId after.snapshotGroups group = some header
  tables : ∀ group header, lookup SnapshotGroup.snapshotGroupId before.snapshotGroups group = some header →
    header.state = .active → after.groupTables.filter (fun row => row.snapshotGroupId = group) =
      before.groupTables.filter (fun row => row.snapshotGroupId = group)
  nodes : ∀ group header, lookup SnapshotGroup.snapshotGroupId before.snapshotGroups group = some header →
    header.state = .active → after.groupNodes.filter (fun row => row.snapshotGroupId = group) =
      before.groupNodes.filter (fun row => row.snapshotGroupId = group)
  actives : ∀ fence, activeGroups after fence = activeGroups before fence

theorem Maintained.refl (store : Store) : Maintained store store :=
  ⟨fun _ _ found _ => found,fun _ found => found,fun _ _ found _ => found,fun _ _ _ _ => rfl,fun _ _ _ _ => rfl,fun _ => rfl⟩

theorem Maintained.trans {first second third : Store} (one : Maintained first second) (two : Maintained second third) :
    Maintained first third where
  serving name record found active := two.serving name record (one.serving name record found active) active
  vacant name found := two.vacant name (one.vacant name found)
  headers group header found active := two.headers group header (one.headers group header found active) active
  tables group header found active :=
    (two.tables group header (one.headers group header found active) active).trans (one.tables group header found active)
  nodes group header found active :=
    (two.nodes group header (one.headers group header found active) active).trans (one.nodes group header found active)
  actives fence := (two.actives fence).trans (one.actives fence)

theorem maintainedFoldBy {α σ ε : Type} (store : σ → Store) {step : σ → α → Except ε σ}
    (each : ∀ {state item state'}, step state item = .ok state' → Maintained (store state) (store state'))
    (items : List α) : ∀ {state state'}, items.foldlM step state = .ok state' → Maintained (store state) (store state') := by
  induction items with
  | nil =>
    intro state state' ok
    cases Except.ok.inj ok
    exact .refl _
  | cons item items ih =>
    intro state state' ok
    obtain ⟨middle,first,rest⟩ := bindOk.mp ok
    exact (each first).trans (ih rest)

theorem maintainedSame {before after : Store} (states : ∀ name, loadRelationState after name = loadRelationState before name)
    (manifests : SameManifests before after) : Maintained before after where
  serving name record found _ := (states name).trans found
  vacant name found := (states name).trans found
  headers group header found _ := by rw [manifests.headers,found]
  tables group header _ _ := by rw [manifests.tables]
  nodes group header _ _ := by rw [manifests.nodes]
  actives fence := by rw [activeGroups,manifests.headers,activeGroups]

theorem applyTableMaintained {equal : Operators} {store batch store'}
    (ok : applyTable equal store batch = .ok store') : Maintained store store' := by
  unfold applyTable at ok
  split at ok
  · cases Except.ok.inj ok
    exact .refl store
  · simp only at ok
    split at ok
    · obtain ⟨_,_,ok⟩ := bindOk.mp ok
      contradiction
    · rename_i relation found
      split at ok
      · obtain ⟨_,_,ok⟩ := bindOk.mp ok
        contradiction
      · obtain ⟨rows,_,ok⟩ := bindOk.mp ok
        cases Except.ok.inj ok
        refine maintainedSame (fun name => loadSame ?_ rfl) ⟨rfl,rfl,rfl⟩
        by_cases same : name = batch.plan.table.target
        · simp [putRelation,same,found]
        · simp [putRelation,same]

def Idle (store : Store) (name : QualifiedName) : Prop :=
  ∀ record, loadRelationState store name = .managed record → record.state ≠ .active

structure Dropped (name : QualifiedName) (store store' : Store) : Prop where
  maintained : Maintained store store'
  idle : ∀ other, Idle store other → Idle store' other
  manifests : SameManifests store store'

theorem dropMaintained {store dropped store' name} {selects : ManagedTable → Bool} (idle : Idle store name)
    (named : ∀ row, selects row → row.name = name) (dropOk : dropTable store name = .ok dropped)
    (deleteOk : deleteManaged dropped selects = .ok store') : Dropped name store store' := by
  unfold dropTable at dropOk
  split at dropOk <;> try contradiction
  rename_i present
  cases Except.ok.inj dropOk
  obtain ⟨_,_,deleteOk⟩ := bindOk.mp deleteOk
  cases Except.ok.inj deleteOk
  let store' : Store := {store with
    relations := Function.update store.relations name none
    managedTables := store.managedTables.filter (fun row => !selects row)}
  have others : ∀ other, other ≠ name → loadRelationState store' other = loadRelationState store other := by
    intro other apart
    have kept : lookup ManagedTable.name (store.managedTables.filter (fun row => !selects row)) other =
        lookup ManagedTable.name store.managedTables other := by
      refine lookupFilterKept fun row same => ?_
      by_contra chosen
      exact apart (same.symm.trans (named row (by simpa using chosen)))
    exact loadSame (by simp [store',apart]) (by simp [store',managedRecord,kept])
  have gone : ∀ record, loadRelationState store' name ≠ .managed record := by
    intro record found
    simpa [store'] using (loadManaged.mp found).1
  have maintained : Maintained store store' := by
    refine ⟨fun other record same active => ?_,fun other same => ?_,fun _ _ found _ => found,fun _ _ _ _ => rfl,
      fun _ _ _ _ => rfl,fun _ => rfl⟩
    · have apart : other ≠ name := by
        rintro rfl
        exact idle record same active
      exact (others other apart).trans same
    · have apart : other ≠ name := by
        rintro rfl
        simp [(loadVacant.mp same).1] at present
      exact (others other apart).trans same
  refine ⟨maintained,fun other before record found => ?_,⟨rfl,rfl,rfl⟩⟩
  by_cases same : other = name
  · subst same
    exact absurd found (gone record)
  · exact before record ((others other same).symm.trans found)

theorem dropShadowsMaintained {pipeline group} (shadows : List QualifiedName) : ∀ {store store'},
    (∀ shadow ∈ shadows, Idle store shadow) → shadows.foldlM (dropShadow pipeline group) store = .ok store' →
    Maintained store store' ∧ SameManifests store store' := by
  induction shadows with
  | nil =>
    intro store store' _ ok
    cases Except.ok.inj ok
    exact ⟨.refl store,.refl store⟩
  | cons shadow shadows ih =>
    intro store store' idle ok
    obtain ⟨middle,first,rest⟩ := bindOk.mp ok
    obtain ⟨_,dropOk,deleteOk⟩ := bindOk.mp first
    have dropped := dropMaintained (idle shadow (by simp)) (by simp; tauto) dropOk deleteOk
    obtain ⟨maintained,manifests⟩ := ih (fun other mem => dropped.idle other (idle other (by simp [mem]))) rest
    exact ⟨dropped.maintained.trans maintained,dropped.manifests.trans manifests⟩

section Platform
variable {platform : Platform}

theorem loadedHeader {store group stored} (ok : loadSnapshotGroup platform store group = .ok stored) :
    ∃ header, lookup SnapshotGroup.snapshotGroupId store.snapshotGroups group = some header ∧
      group ≠ Uuid.nil ∧ readSnapshotGroup platform store header = .ok stored := by
  obtain ⟨found,optional,ok⟩ := bindOk.mp ok
  unfold loadSnapshotGroupOptional at optional
  obtain ⟨valid,optional⟩ := iteOk.mp optional
  split at optional
  · cases Except.ok.inj optional
    contradiction
  · rename_i header known
    cases read : readSnapshotGroup platform store header with
    | error _ => simp [read,Except.map] at optional
    | ok result =>
      simp only [read,Except.map] at optional
      cases Except.ok.inj optional
      cases Except.ok.inj ok
      exact ⟨header,known,valid,read⟩

theorem readSource {store header stored} (ok : readSnapshotGroup platform store header = .ok stored) :
    stored.state = header.state ∧ ∀ (store' : Store) (state : SnapshotGroupState),
      store'.groupTables.filter (fun row => row.snapshotGroupId = header.snapshotGroupId) =
        store.groupTables.filter (fun row => row.snapshotGroupId = header.snapshotGroupId) →
      store'.groupNodes.filter (fun row => row.snapshotGroupId = header.snapshotGroupId) =
        store.groupNodes.filter (fun row => row.snapshotGroupId = header.snapshotGroupId) →
      readSnapshotGroup platform store' {header with state := state} = .ok ⟨state,stored.request⟩ := by
  have read := ok
  unfold readSnapshotGroup at ok
  simp only at ok
  obtain ⟨counts,ok⟩ := iteOk.mp ok
  obtain ⟨token,ok⟩ := iteOk.mp ok
  obtain ⟨tableCount,ok⟩ := iteOk.mp ok
  obtain ⟨nodeCount,ok⟩ := iteOk.mp ok
  split at ok <;> try contradiction
  rename_i canonical valid
  obtain ⟨exact',ok⟩ := iteOk.mp ok
  cases Except.ok.inj ok
  refine ⟨rfl,fun store' state tables nodes => ?_⟩
  have same : reconstruct platform store' {header with state := state} = reconstruct platform store header := by
    simp only [reconstruct,groupTablesOf,groupNodesOf,tables,nodes]
  unfold readSnapshotGroup
  simp only [same]
  rw [if_neg counts,if_neg token,if_neg tableCount,if_neg nodeCount,valid]
  simp only
  rw [if_neg exact']

theorem readSame {store store' header stored} (ok : readSnapshotGroup platform store header = .ok stored)
    (tables : store'.groupTables.filter (fun row => row.snapshotGroupId = header.snapshotGroupId) =
      store.groupTables.filter (fun row => row.snapshotGroupId = header.snapshotGroupId))
    (nodes : store'.groupNodes.filter (fun row => row.snapshotGroupId = header.snapshotGroupId) =
      store.groupNodes.filter (fun row => row.snapshotGroupId = header.snapshotGroupId)) :
    readSnapshotGroup platform store' header = .ok stored := by
  obtain ⟨state,again⟩ := readSource ok
  cases stored
  cases header
  subst state
  exact again store' _ tables nodes

theorem deleteManifestMaintained {store stored pipeline group header store'}
    (known : lookup SnapshotGroup.snapshotGroupId store.snapshotGroups group = some header)
    (loading : header.state = .loading) (ok : deleteManifest store stored pipeline group = .ok store') :
    Maintained store store' := by
  unfold deleteManifest at ok
  obtain ⟨_,ok⟩ := iteOk.mp ok
  obtain ⟨_,ok⟩ := iteOk.mp ok
  obtain ⟨_,_,ok⟩ := bindOk.mp ok
  obtain ⟨_,_,ok⟩ := bindOk.mp ok
  cases Except.ok.inj ok
  have foreign : ∀ other (active : SnapshotGroup),
      lookup SnapshotGroup.snapshotGroupId store.snapshotGroups other = some active → active.state = .active →
      other ≠ group := by
    rintro other active found state rfl
    cases known.symm.trans found
    rw [loading] at state
    contradiction
  refine ⟨fun _ _ found _ => found,fun _ found => found,fun other active found state => ?_,
    fun other active found state => ?_,fun other active found state => ?_,fun fence => ?_⟩
  · rw [← found]
    refine lookupFilterKept fun row same => ?_
    have apart := foreign other active found state
    simp [same,apart]
  · have apart := foreign other active found state
    simp only [List.filter_filter]
    refine List.filter_congr fun row _ => ?_
    by_cases same : row.snapshotGroupId = other <;> simp [same,apart]
  · have apart := foreign other active found state
    simp only [List.filter_filter]
    refine List.filter_congr fun row _ => ?_
    by_cases same : row.snapshotGroupId = other <;> simp [same,apart]
  · simp only [activeGroups,List.filter_filter]
    refine List.filter_congr fun row _ => ?_
    by_cases active : row.state = .active <;> simp [active]

theorem cleanupLockedMaintained {store request outcome store'}
    (ok : cleanupLoadingSnapshotGroupLocked platform store request = .ok (outcome,store')) : Maintained store store' := by
  obtain ⟨stored,loaded,ok⟩ := bindOk.mp ok
  obtain ⟨_,_,ok⟩ := bindOk.mp ok
  obtain ⟨loading,ok⟩ := iteOk.mp ok
  push Not at loading
  obtain ⟨owned,shadows,ok⟩ := bindOk.mp ok
  simp only at ok
  split at ok
  · contradiction
  · obtain ⟨dropped,dropOk,ok⟩ := bindOk.mp ok
    obtain ⟨last,deleteOk,ok⟩ := bindOk.mp ok
    cases Except.ok.inj ok
    have idle : ∀ shadow ∈ owned.filterMap id, Idle store shadow := by
      intro shadow mem record found active
      obtain ⟨_,produced,rfl⟩ := List.mem_filterMap.mp mem
      obtain ⟨table,_,ok⟩ := relatedMem (mapMOk.mp shadows) produced
      unfold ownedShadow at ok
      split at ok <;> try contradiction
      · cases Except.ok.inj ok
      · rename_i record' found'
        obtain ⟨_,owner,ok⟩ := bindOk.mp ok
        obtain ⟨_,_,ok⟩ := bindOk.mp ok
        cases Except.ok.inj ok
        cases found.symm.trans found'
        unfold validateShadowOwnership at owner
        simp only at owner
        obtain ⟨_,owner⟩ := iteOk.mp owner
        obtain ⟨matching,_⟩ := iteOk.mp owner
        push Not at matching
        rw [matching.2.2.2.2.1] at active
        contradiction
    obtain ⟨maintained,manifests⟩ := dropShadowsMaintained _ idle dropOk
    obtain ⟨header,known,_,read⟩ := loadedHeader loaded
    have state := (readSource read).1.symm.trans loading
    exact maintained.trans (deleteManifestMaintained (by rw [manifests.headers,known]) state deleteOk)

theorem collectMaintained {now fence state row state'}
    (ok : collectQuarantine platform now fence state row = .ok state') : Maintained state.2 state'.2 := by
  obtain ⟨⟨oid,previous⟩,_,ok⟩ := bindOk.mp ok
  obtain ⟨expected,_,ok⟩ := bindOk.mp ok
  obtain ⟨_,ok⟩ := iteOk.mp ok
  obtain ⟨managed,quarantined,ok⟩ := bindOk.mp ok
  obtain ⟨_,ok⟩ := iteOk.mp ok
  obtain ⟨_,_,ok⟩ := bindOk.mp ok
  obtain ⟨_,ok⟩ := iteOk.mp ok
  obtain ⟨dropped,dropOk,ok⟩ := bindOk.mp ok
  obtain ⟨deleted,deleteOk,ok⟩ := bindOk.mp ok
  obtain ⟨purged,purgeOk,ok⟩ := bindOk.mp ok
  cases Except.ok.inj ok
  obtain ⟨_,_,purgeOk⟩ := bindOk.mp purgeOk
  cases Except.ok.inj purgeOk
  have idle : Idle state.2 row.quarantine := by
    intro record found active
    unfold quarantinedRecord at quarantined
    simp only [found] at quarantined
    split at quarantined <;> try contradiction
    rename_i other
    rw [active] at other
    contradiction
  have dropped := dropMaintained idle (by simp; tauto) dropOk deleteOk
  exact dropped.maintained.trans (maintainedSame (fun _ => rfl) ⟨rfl,rfl,rfl⟩)

def isMaintenance : Operation → Bool
  | .activatePipelineFence _ | .executeApply _ | .cleanupLoadingSnapshotGroup _ | .cleanupStaleSnapshotGroups _
  | .garbageCollect _ _ _ => true
  | .beginSnapshotGroup _ | .snapshotApply _ _ _ | .activateSnapshotGroup _ _ => false

theorem applyMaintained {equal : Operators} {target request outcome target'}
    (ok : executeApply equal target request = .ok (outcome,target')) : Maintained target.store target'.store := by
  obtain ⟨_,_,ok⟩ := bindOk.mp ok
  obtain ⟨_,_,ok⟩ := bindOk.mp ok
  obtain ⟨store,applied,ok⟩ := bindOk.mp ok
  obtain ⟨⟨_,_⟩,_,ok⟩ := bindOk.mp ok
  cases Except.ok.inj ok
  exact maintainedFoldBy id applyTableMaintained request.tables applied

theorem cleanupStaleMaintained {target fence outcomes target'}
    (ok : cleanupStaleSnapshotGroups platform target fence = .ok (outcomes,target')) :
    Maintained target.store target'.store := by
  obtain ⟨_,ok⟩ := iteOk.mp ok
  obtain ⟨_,_,ok⟩ := bindOk.mp ok
  obtain ⟨_,_,ok⟩ := bindOk.mp ok
  obtain ⟨state,cleaned,ok⟩ := bindOk.mp ok
  cases Except.ok.inj ok
  refine maintainedFoldBy Prod.snd (fun {state header state'} ok => ?_) _ cleaned
  obtain ⟨_,_,ok⟩ := bindOk.mp ok
  obtain ⟨⟨outcome,store⟩,locked,ok⟩ := bindOk.mp ok
  cases Except.ok.inj ok
  exact cleanupLockedMaintained locked

theorem garbageCollectMaintained {now target fence policy outcome target'}
    (ok : garbageCollectQuarantinedTables platform now target fence policy = .ok (outcome,target')) :
    Maintained target.store target'.store := by
  obtain ⟨_,_,ok⟩ := bindOk.mp ok
  split at ok
  · cases Except.ok.inj ok
    exact .refl _
  · obtain ⟨_,ok⟩ := iteOk.mp ok
    obtain ⟨_,_,ok⟩ := bindOk.mp ok
    obtain ⟨state,collected,ok⟩ := bindOk.mp ok
    cases Except.ok.inj ok
    exact maintainedFoldBy Prod.snd collectMaintained _ collected

theorem stepMaintained {equal : Operators} {target : Target} {operation : Operation}
    (maintenance : isMaintenance operation) : Maintained target.store (step platform equal target operation).store := by
  unfold step
  cases committed : commit platform equal target operation with
  | none => exact .refl _
  | some target' =>
    rw [Option.getD_some]
    cases operation with
    | activatePipelineFence fence =>
      obtain ⟨checkpoints,_,rfl⟩ := Option.map_eq_some_iff.mp committed
      exact .refl _
    | executeApply request =>
      obtain ⟨⟨outcome,later⟩,ok,rfl⟩ := Option.map_eq_some_iff.mp committed
      exact applyMaintained (toOptionSome.mp ok)
    | cleanupLoadingSnapshotGroup request =>
      obtain ⟨⟨outcome,later⟩,ok,rfl⟩ := Option.map_eq_some_iff.mp committed
      obtain ⟨_,_,ok⟩ := bindOk.mp (toOptionSome.mp ok)
      obtain ⟨_,_,ok⟩ := bindOk.mp ok
      obtain ⟨⟨_,store⟩,locked,ok⟩ := bindOk.mp ok
      cases Except.ok.inj ok
      exact cleanupLockedMaintained locked
    | cleanupStaleSnapshotGroups fence =>
      obtain ⟨⟨outcome,later⟩,ok,rfl⟩ := Option.map_eq_some_iff.mp committed
      exact cleanupStaleMaintained (toOptionSome.mp ok)
    | garbageCollect now fence policy =>
      obtain ⟨⟨outcome,later⟩,ok,rfl⟩ := Option.map_eq_some_iff.mp committed
      exact garbageCollectMaintained (toOptionSome.mp ok)
    | beginSnapshotGroup request => contradiction
    | snapshotApply plan ownership copied => contradiction
    | activateSnapshotGroup now request => contradiction

theorem runMaintained {equal : Operators} (operations : List Operation) : ∀ {target : Target},
    (∀ operation ∈ operations, isMaintenance operation) →
    Maintained target.store (run platform equal target operations).store := by
  induction operations with
  | nil => exact fun _ => .refl _
  | cons operation operations ih =>
    intro target maintenance
    exact (stepMaintained (maintenance operation (by simp))).trans
      (ih (fun other mem => maintenance other (by simp [mem])))

end Platform

end CloudberryEtl.Maintenance
