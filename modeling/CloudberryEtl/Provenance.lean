import CloudberryEtl.CarriedRelations
import CloudberryEtl.Rebuild

/-! Where the rows of a managed table come from, over any interleaving of the transactions of any owners: from one COPY
that was committed for its group, its source table and its generation, and from the applies on the relation since. -/
namespace CloudberryEtl.Provenance
open Schema Change TablePlan StagedApply KeyedTable Result TargetStore Manifest ShadowLoad Activation Cleanup Fencing
open StoreChange Metadata Transactions Reachable CarriedRelations
open Checkpoint hiding databaseGeneration

/- A load in a run: the transactions before it, its plan, its owner and its rows, and the transactions after it. -/
structure Load where
  before : List Operation
  plan : SnapshotTargetPlan
  ownership : SnapshotOwnership
  copied : List Row
  after : List Operation

def Load.operation (load : Load) : Operation := .snapshotApply load.plan load.ownership (some load.copied)

def Load.operations (load : Load) : List Operation := load.before ++ load.operation :: load.after

def Load.extend (load : Load) (operation : Operation) : Load := {load with after := load.after ++ [operation]}

structure Load.Matches (load : Load) (record : ManagedTableRecord) : Prop where
  pipelineId : record.pipelineId = load.ownership.fence.pipelineId
  snapshotGroupId : record.snapshotGroupId = some load.ownership.snapshotGroupId
  sourceRelationId : record.sourceRelationId = load.plan.sourceRelationId
  tableGeneration : record.tableGeneration = load.plan.sourceGeneration
  schemaFingerprint : record.schemaFingerprint = load.ownership.schemaFingerprint

section System
variable (platform : Platform) (equal : Operators)

def batchesOn (target : Target) (oid : Nat) : Operation → List TableApplyBatch
  | .executeApply request =>
    if (executeApply equal target request).toOption.isSome then
      request.tables.filter (fun batch => relationOid target.store batch.plan.table.target = some oid)
    else []
  | _ => []

def batchesSince (oid : Nat) : Target → List Operation → List TableApplyBatch
  | _,[] => []
  | target,operation :: rest =>
    batchesOn equal target oid operation ++ batchesSince oid (step platform equal target operation) rest

structure LoadedFrom (start : Target) (load : Load) (relation : Relation) : Prop where
  committed : (commit platform equal (run platform equal start load.before) load.operation).isSome
  oid : relation.oid = (run platform equal start load.before).store.nextOid
  table : relation.table = load.plan.shadow
  rows : applyRows equal (batchesSince platform equal relation.oid
    (run platform equal start (load.before ++ [load.operation])) load.after) load.copied = .ok relation.rows

def Provenant (start : Target) (operations : List Operation) (store : Store) : Prop :=
  ∀ row ∈ store.managedTables, ∃ relation load, store.relations row.name = some relation ∧
    row.record.relationOid = some relation.oid ∧ load.operations = operations ∧
    LoadedFrom platform equal start load relation ∧ load.Matches row.record

end System

section Runs
variable {platform : Platform} {equal : Operators}

theorem runAppend (start : Target) (first rest : List Operation) :
    run platform equal start (first ++ rest) = run platform equal (run platform equal start first) rest :=
  List.foldl_append ..

theorem batchesSinceSnoc (oid : Nat) (operations : List Operation) (operation : Operation) : ∀ target,
    batchesSince platform equal oid target (operations ++ [operation]) =
      batchesSince platform equal oid target operations ++
        batchesOn equal (run platform equal target operations) oid operation := by
  induction operations with
  | nil =>
    intro target
    simp [batchesSince,run]
  | cons first rest ih =>
    intro target
    rw [List.cons_append,batchesSince,batchesSince,ih,List.append_assoc]
    rfl

theorem extendOperations (load : Load) (operation : Operation) :
    (load.extend operation).operations = load.operations ++ [operation] := by
  simp [Load.operations,Load.extend,Load.operation]

theorem Load.Matches.extend {load : Load} {record : ManagedTableRecord} (tells : load.Matches record)
    (operation : Operation) : (load.extend operation).Matches record :=
  ⟨tells.pipelineId,tells.snapshotGroupId,tells.sourceRelationId,tells.tableGeneration,tells.schemaFingerprint⟩

theorem LoadedFrom.extend {start : Target} {load : Load} {relation relation' : Relation} {operation : Operation}
    (loaded : LoadedFrom platform equal start load relation) (oid : relation'.oid = relation.oid)
    (table : relation'.table = relation.table)
    (rows : applyRows equal (batchesOn equal (run platform equal start load.operations) relation.oid operation) relation.rows =
      .ok relation'.rows) : LoadedFrom platform equal start (load.extend operation) relation' := by
  refine ⟨loaded.committed,oid.trans loaded.oid,table.trans loaded.table,?_⟩
  have reached : run platform equal start load.operations =
      run platform equal (run platform equal start (load.before ++ [load.operation])) load.after := by
    rw [← runAppend]
    simp [Load.operations]
  rw [reached] at rows
  show applyRows equal (batchesSince platform equal relation'.oid
    (run platform equal start (load.before ++ [load.operation])) (load.after ++ [operation])) load.copied = _
  rw [oid,batchesSinceSnoc]
  exact applyRowsAppend loaded.rows rows

inductive Effect (platform : Platform) (equal : Operators) (target : Target) (operation : Operation) :
    Target → Prop where
  | carried {target' : Target} (quiet : ∀ oid, batchesOn equal target oid operation = [])
      (carried : Carried target.store target'.store) : Effect platform equal target operation target'
  | applied {request outcome target'} (is : operation = .executeApply request)
      (ok : executeApply equal target request = .ok (outcome,target')) : Effect platform equal target operation target'
  | loaded {plan ownership copied target'} (is : operation = .snapshotApply plan ownership (some copied))
      (ok : snapshotApply platform equal target plan ownership (some copied) = .ok target') :
      Effect platform equal target operation target'

theorem stepEffect (target : Target) (operation : Operation) :
    Effect platform equal target operation (step platform equal target operation) := by
  unfold step
  cases committed : commit platform equal target operation with
  | none =>
    refine .carried (fun oid => ?_) (.refl _)
    cases operation with
    | executeApply request =>
      have failed : (executeApply equal target request).toOption = none := Option.map_eq_none_iff.mp committed
      simp [batchesOn,failed]
    | _ => rfl
  | some target' =>
    rw [Option.getD_some]
    cases operation with
    | activatePipelineFence fence =>
      obtain ⟨checkpoints,_,rfl⟩ := Option.map_eq_some_iff.mp committed
      exact .carried (fun _ => rfl) (.refl _)
    | executeApply request =>
      obtain ⟨⟨outcome,later⟩,ok,rfl⟩ := Option.map_eq_some_iff.mp committed
      exact .applied rfl (toOptionSome.mp ok)
    | beginSnapshotGroup request =>
      obtain ⟨⟨_,later⟩,ok,rfl⟩ := Option.map_eq_some_iff.mp committed
      exact .carried (fun _ => rfl) (beginCarried (toOptionSome.mp ok))
    | snapshotApply plan ownership copied =>
      have ok := toOptionSome.mp committed
      obtain ⟨_,_,_,_,_,steps⟩ := snapshotApplySource ok
      obtain ⟨rows,_,rfl,_,_⟩ := steps.copying
      exact .loaded rfl ok
    | activateSnapshotGroup now request =>
      obtain ⟨⟨_,later⟩,ok,rfl⟩ := Option.map_eq_some_iff.mp committed
      exact .carried (fun _ => rfl) (activateCarried (toOptionSome.mp ok))
    | cleanupLoadingSnapshotGroup request =>
      obtain ⟨⟨_,later⟩,ok,rfl⟩ := Option.map_eq_some_iff.mp committed
      exact .carried (fun _ => rfl) (cleanupLoadingCarried (toOptionSome.mp ok))
    | cleanupStaleSnapshotGroups fence =>
      obtain ⟨⟨_,later⟩,ok,rfl⟩ := Option.map_eq_some_iff.mp committed
      exact .carried (fun _ => rfl) (cleanupStaleCarried (toOptionSome.mp ok))
    | garbageCollect now fence policy =>
      obtain ⟨⟨_,later⟩,ok,rfl⟩ := Option.map_eq_some_iff.mp committed
      exact .carried (fun _ => rfl) (garbageCollectCarried (toOptionSome.mp ok))

theorem numberedSame {store store' : Store} (numbered : Numbered store)
    (oids : ∀ name, relationOid store' name = relationOid store name) (nextOid : store'.nextOid = store.nextOid) :
    Numbered store' := by
  refine ⟨?_,?_⟩
  · intro one two oid left right
    exact numbered.apart one two oid (oids one ▸ left) (oids two ▸ right)
  · intro name oid found
    rw [nextOid]
    exact numbered.below name oid (oids name ▸ found)

theorem numberedLoaded {store store' : Store} {plan ownership copied} (numbered : Numbered store)
    (loads : Loads store plan ownership copied store') : Numbered store' := by
  have before : ∀ name oid, relationOid store' name = some oid → name ≠ plan.shadow.target →
      relationOid store name = some oid := by
    intro name oid found apart
    obtain ⟨relation,here,number⟩ := Option.map_eq_some_iff.mp found
    exact Option.map_eq_some_iff.mpr ⟨relation,(loads.others name apart).symm.trans here,number⟩
  have created : ∀ oid, relationOid store' plan.shadow.target = some oid → oid = store.nextOid := by
    intro oid found
    simpa [relationOid,loads.shadow] using found.symm
  refine ⟨?_,?_⟩
  · intro one two oid left right
    by_cases here : one = plan.shadow.target
    · by_cases there : two = plan.shadow.target
      · rw [here,there]
      · have fresh := created oid (here ▸ left)
        have old := numbered.below two oid (before two oid right there)
        omega
    · by_cases there : two = plan.shadow.target
      · have fresh := created oid (there ▸ right)
        have old := numbered.below one oid (before one oid left here)
        omega
      · exact numbered.apart one two oid (before one oid left here) (before two oid right there)
  · intro name oid found
    rw [loads.nextOid]
    by_cases here : name = plan.shadow.target
    · rw [created oid (here ▸ found)]
      exact Nat.lt_succ_self _
    · exact Nat.lt_succ_of_lt (numbered.below name oid (before name oid found here))

theorem stepNumbered {target : Target} (numbered : Numbered target.store) (operation : Operation) :
    Numbered (step platform equal target operation).store := by
  have effect : Effect platform equal target operation (step platform equal target operation) := stepEffect target operation
  cases effect with
  | carried _ carried => exact carried.numbered numbered
  | applied _ ok =>
    have same := applyReshaped ok
    exact numberedSame numbered same.oids same.nextOid
  | loaded _ ok => exact numberedLoaded numbered (loadsSource ok)

def Renewed (store : Store) (row' : ManagedTable) : Prop :=
  (∃ row ∈ store.managedTables,
    row'.record = {row.record with state := row'.record.state, fencingToken := row'.record.fencingToken}) ∨
  ∃ oid, store.nextOid ≤ oid ∧ row'.record.relationOid = some oid

structure Renews (store store' : Store) : Prop where
  nextOid : store.nextOid ≤ store'.nextOid
  rows : ∀ row' ∈ store'.managedTables, Renewed store row'

theorem renewedOld {store : Store} {row : ManagedTable} (mem : row ∈ store.managedTables) : Renewed store row :=
  .inl ⟨row,mem,rfl⟩

theorem Renews.refl (store : Store) : Renews store store := ⟨Nat.le_refl _,fun _ mem => renewedOld mem⟩

theorem Renews.trans {first second third : Store} (one : Renews first second) (two : Renews second third) :
    Renews first third := by
  refine ⟨Nat.le_trans one.nextOid two.nextOid,?_⟩
  intro row mem
  rcases two.rows row mem with ⟨middle,member,same⟩ | ⟨oid,new,recorded⟩
  · rcases one.rows middle member with ⟨old,member',same'⟩ | ⟨oid,new,recorded⟩
    · refine .inl ⟨old,member',?_⟩
      rw [same,same']
    · exact .inr ⟨oid,new,by rw [same]; exact recorded⟩
  · exact .inr ⟨oid,Nat.le_trans one.nextOid new,recorded⟩

theorem renewedMoved {store : Store} {source destination : QualifiedName} {record moved : ManagedTableRecord}
    (relation : Relation) (found : managedRecord store source = some record)
    (same : moved = {record with state := moved.state, fencingToken := moved.fencingToken}) :
    ∀ row' ∈ (withTable (withoutTable store source) destination relation moved).managedTables, Renewed store row' := by
  intro row' mem
  rcases memWith.mp mem with mem | rfl
  · exact renewedOld (memWithout.mp mem).1
  · obtain ⟨row,here,rfl⟩ := Option.map_eq_some_iff.mp found
    exact .inl ⟨row,lookupMem here,same⟩

theorem changeRenews {admits : Admission} {fence transit store store'}
    (change : Change platform admits fence transit store store') : Renews store store' := by
  cases change with
  | reshaped same =>
    refine ⟨Nat.le_of_eq same.nextOid.symm,?_⟩
    rw [same.managedTables]
    exact fun _ mem => renewedOld mem
  | removed => exact ⟨Nat.le_refl _,fun _ mem => renewedOld (memWithout.mp mem).1⟩
  | @shadowed header table plan =>
    refine ⟨Nat.le_succ _,?_⟩
    intro row' mem
    change row' ∈ (withTable store table.shadow ⟨store.nextOid,plan,[]⟩ (shadowRecord header table store.nextOid)).managedTables
      at mem
    rcases memWith.mp mem with mem | rfl
    · exact renewedOld mem
    · exact .inr ⟨store.nextOid,Nat.le_refl _,rfl⟩
  | promoted _ _ _ found => exact ⟨Nat.le_refl _,renewedMoved _ found rfl⟩
  | @quarantined _ _ _ relation _ _ _ found => exact ⟨Nat.le_refl _,renewedMoved relation found rfl⟩
  | purged => exact ⟨Nat.le_refl _,fun _ mem => renewedOld (memWithout.mp mem).1⟩
  | registered => exact ⟨Nat.le_refl _,fun _ mem => renewedOld mem⟩
  | unregistered => exact ⟨Nat.le_refl _,fun _ mem => renewedOld mem⟩

theorem changesRenew {admits : Admission} {fence transit store store'}
    (changes : Changes platform admits fence transit store store') : Renews store store' := by
  induction changes with
  | refl => exact .refl _
  | tail _ change ih => exact ih.trans (changeRenews change)

theorem stepRenews {target : Target} (sound : SoundTarget platform target) (operation : Operation) :
    Renews target.store (step platform equal target operation).store := by
  have committed : Committed platform _ target operation (step platform equal target operation) :=
    stepCommitted sound operation (anyAdmitted target operation)
  generalize step platform equal target operation = target' at committed
  cases committed with
  | idle => exact .refl _
  | fenced => exact .refl _
  | changed _ changes => exact changesRenew changes
  | activated _ _ changes =>
    cases changes with
    | retried changes => exact changesRenew changes
    | marked _ _ _ changes _ _ marking =>
      rw [(markSource marking).2]
      exact ⟨(changesRenew changes).nextOid,(changesRenew changes).rows⟩

section Step
variable {start target : Target} {past : List Operation} {row' : ManagedTable}

theorem knownLoad (numbered : Numbered target.store) (before : Provenant platform equal start past target.store)
    (renewed : Renewed target.store row') {name relation} (recorded : row'.record.relationOid = some relation.oid)
    (there : target.store.relations name = some relation) : ∃ load : Load, load.operations = past ∧
      LoadedFrom platform equal start load relation ∧ load.Matches row'.record := by
  have placed : relationOid target.store name = some relation.oid := Option.map_eq_some_iff.mpr ⟨relation,there,rfl⟩
  rcases renewed with ⟨row,mem,same⟩ | ⟨oid,new,recorded'⟩
  · obtain ⟨other,load,here,number,past,loaded,tells⟩ := before row mem
    have sameOid : other.oid = relation.oid := by
      rw [same] at recorded
      exact Option.some.inj (number.symm.trans recorded)
    have sameName := numbered.apart row.name name relation.oid
      (Option.map_eq_some_iff.mpr ⟨other,here,sameOid⟩) placed
    rw [sameName,there] at here
    cases Option.some.inj here
    refine ⟨load,past,loaded,?_⟩
    rw [same]
    exact ⟨tells.pipelineId,tells.snapshotGroupId,tells.sourceRelationId,tells.tableGeneration,tells.schemaFingerprint⟩
  · have old := numbered.below name relation.oid placed
    rw [recorded] at recorded'
    have := Option.some.inj recorded'
    omega

theorem stepProvenant (sound : SoundTarget platform target) (numbered : Numbered target.store)
    (reached : run platform equal start past = target) (before : Provenant platform equal start past target.store)
    (operation : Operation) :
    Provenant platform equal start (past ++ [operation]) (step platform equal target operation).store := by
  have sound' : SoundTarget platform (step platform equal target operation) := stepSound sound operation
  have renews : Renews target.store (step platform equal target operation).store := stepRenews sound operation
  have effect : Effect platform equal target operation (step platform equal target operation) := stepEffect target operation
  generalize step platform equal target operation = target' at sound' renews effect
  intro row' mem
  obtain ⟨oid,_,placed,recorded⟩ := (sound'.store.stands row' mem).relation
  obtain ⟨relation',here,rfl⟩ := Option.map_eq_some_iff.mp placed
  have renewed := renews.rows row' mem
  cases effect with
  | carried quiet carried =>
    obtain ⟨name,there⟩ := carried.back _ _ here
    obtain ⟨load,ran,loaded,tells⟩ := knownLoad numbered before renewed recorded there
    refine ⟨relation',load.extend operation,here,recorded,by rw [extendOperations,ran],?_,tells.extend operation⟩
    refine loaded.extend rfl rfl ?_
    rw [ran,reached,quiet]
    rfl
  | applied is ok =>
    rename_i request outcome
    obtain ⟨_,_,applied⟩ := bindOk.mp ok
    obtain ⟨_,_,applied⟩ := bindOk.mp applied
    obtain ⟨store,folded,applied⟩ := bindOk.mp applied
    obtain ⟨⟨_,_⟩,_,applied⟩ := bindOk.mp applied
    cases Except.ok.inj applied
    obtain ⟨relation,there,number,table,rows⟩ := applyTablesRows request.tables folded here
    obtain ⟨load,ran,loaded,tells⟩ := knownLoad numbered before renewed (number ▸ recorded) there
    refine ⟨relation',load.extend operation,here,recorded,by rw [extendOperations,ran],?_,tells.extend operation⟩
    refine loaded.extend number table ?_
    have own : batchesOn equal target relation.oid operation =
        request.tables.filter (fun batch => batch.plan.table.target = row'.name) := by
      have committed : (executeApply equal target request).toOption.isSome := by rw [toOptionSome.mpr ok]; rfl
      rw [is,batchesOn,if_pos committed]
      refine List.filter_congr fun batch _ => decide_eq_decide.mpr ⟨fun same => ?_,fun same => ?_⟩
      · exact numbered.apart _ _ relation.oid same (Option.map_eq_some_iff.mpr ⟨relation,there,rfl⟩)
      · exact Option.map_eq_some_iff.mpr ⟨relation,same ▸ there,rfl⟩
    rw [ran,reached,own]
    exact rows
  | loaded is ok =>
    rename_i plan ownership copied
    have loads := loadsSource ok
    by_cases shadow : row'.name = plan.shadow.target
    · rw [shadow,loads.shadow] at here
      cases Option.some.inj here
      have same : row'.record = ⟨ownership.fence.pipelineId,some ownership.snapshotGroupId,some target.store.nextOid,
          plan.sourceRelationId,plan.sourceGeneration,ownership.schemaFingerprint,.shadow,ownership.fence.fencingToken⟩ := by
        have own := (recordIff sound'.store.names).mpr mem
        rw [shadow,loads.record] at own
        exact (Option.some.inj own).symm
      refine ⟨⟨target.store.nextOid,plan.shadow,copied⟩,⟨past,plan,ownership,copied,[]⟩,by rw [shadow,loads.shadow],recorded,
        by rw [is]; rfl,⟨?_,by rw [reached],rfl,rfl⟩,?_⟩
      · rw [reached]
        show (snapshotApply platform equal target plan ownership (some copied)).toOption.isSome
        rw [toOptionSome.mpr ok]
        rfl
      · rw [same]
        exact ⟨rfl,rfl,rfl,rfl,rfl⟩
    · have there := (loads.others _ shadow).symm.trans here
      obtain ⟨load,ran,loaded,tells⟩ := knownLoad numbered before renewed recorded there
      refine ⟨relation',load.extend operation,here,recorded,by rw [extendOperations,ran],?_,tells.extend operation⟩
      refine loaded.extend rfl rfl ?_
      rw [is]
      rfl

end Step

theorem runProvenant {start : Target} (fresh : Fresh start) (numbered : Numbered start.store) (operations : List Operation) :
    SoundTarget platform (run platform equal start operations) ∧ Numbered (run platform equal start operations).store ∧
      Provenant platform equal start operations (run platform equal start operations).store := by
  induction operations using List.reverseRecOn with
  | nil =>
    refine ⟨freshSound platform fresh,numbered,?_⟩
    intro row mem
    rw [show (run platform equal start []).store.managedTables = [] from fresh.managedTables] at mem
    contradiction
  | append_singleton past operation ih =>
    obtain ⟨sound,numbered,before⟩ := ih
    have last : run platform equal start (past ++ [operation]) =
        step platform equal (run platform equal start past) operation := runAppend start past [operation]
    rw [last]
    exact ⟨stepSound sound operation,stepNumbered numbered operation,stepProvenant sound numbered rfl before operation⟩

/-- In every state that any owners reach, a managed table holds the rows of the one load its record tells of, with the
batches applied to it since: no row of another group, of an unfinished COPY or of another relation. -/
theorem managedRowsLoadedOnce {start : Target} (fresh : Fresh start) (numbered : Numbered start.store)
    (operations : List Operation) : ∀ row ∈ (run platform equal start operations).store.managedTables,
    ∃ relation load, (run platform equal start operations).store.relations row.name = some relation ∧
      row.record.relationOid = some relation.oid ∧ load.operations = operations ∧
      LoadedFrom platform equal start load relation ∧ load.Matches row.record :=
  (runProvenant fresh numbered operations).2.2

end Runs

section Sample
open Resume ActivatedGroup Rebuild

theorem emptyNumbered : Numbered emptyTarget.store :=
  ⟨fun _ _ _ here _ => absurd here (by simp [relationOid,emptyTarget]),fun _ _ here => absurd here (by simp [relationOid,emptyTarget])⟩

theorem servedLoadedOnce : ∃ relation load,
    (run sha256Platform textOperators emptyTarget servedLater).store.relations accountsTable.target = some relation ∧
      load.operations = servedLater ∧ LoadedFrom sha256Platform textOperators emptyTarget load relation ∧
      load.ownership.snapshotGroupId = 1 ∧ load.plan.sourceRelationId = 16385 := by
  obtain ⟨_,record⟩ := loadManaged.mp servedOld
  obtain ⟨row,there,same⟩ := Option.map_eq_some_iff.mp record
  obtain ⟨relation,load,here,_,ran,loaded,tells⟩ :=
    managedRowsLoadedOnce emptyFresh emptyNumbered servedLater row (lookupMem there)
  rw [same] at tells
  rw [lookupKey there] at here
  exact ⟨relation,load,here,ran,loaded,(Option.some.inj tells.snapshotGroupId).symm,tells.sourceRelationId.symm⟩

end Sample

end CloudberryEtl.Provenance
