import CloudberryEtl.Moves

/-! Every committed transaction on the target as a chain of changes, and so what holds of the metadata after any
interleaving of the transactions of any owners. -/
namespace CloudberryEtl.Transactions
open Schema Change TablePlan StagedApply KeyedTable Result TargetStore Manifest ShadowLoad Activation Cleanup Fencing
open ActivatedGroup Maintenance StoreChange Metadata RoundTrip Moves
open Checkpoint hiding databaseGeneration

theorem reshapedFold {α ε : Type} {step : Store → α → Except ε Store}
    (each : ∀ {store item store'}, step store item = .ok store' → Reshaped store store') (items : List α) :
    ∀ {store store'}, items.foldlM step store = .ok store' → Reshaped store store' := by
  induction items with
  | nil =>
    intro store store' ok
    cases Except.ok.inj ok
    exact Reshaped.refl store
  | cons item items ih =>
    intro store store' ok
    obtain ⟨middle,first,rest⟩ := bindOk.mp ok
    exact (each first).trans (ih rest)

theorem reshapedRows {store : Store} {name relation} {rows : List Row} (found : store.relations name = some relation) :
    Reshaped store (putRelation store name {relation with rows := rows}) := by
  refine ⟨fun other => ?_,rfl,rfl,⟨rfl,rfl,rfl⟩,rfl⟩
  by_cases same : other = name
  · subst same
    simp [relationOid,putRelation,found]
  · simp [relationOid,putRelation,same]

theorem applyTableReshaped {equal : Operators} {store batch store'}
    (ok : applyTable equal store batch = .ok store') : Reshaped store store' := by
  unfold applyTable at ok
  split at ok
  · cases Except.ok.inj ok
    exact Reshaped.refl store
  · simp only at ok
    split at ok
    · obtain ⟨_,_,ok⟩ := bindOk.mp ok
      contradiction
    · rename_i relation found
      split at ok
      · obtain ⟨_,_,ok⟩ := bindOk.mp ok
        contradiction
      · obtain ⟨rows,_,ok⟩ := bindOk.mp ok
        cases Except.ok.inj ok
        exact reshapedRows found

theorem copyReshaped {equal : Operators} {store shadow rows store'}
    (ok : copyShadow equal store shadow rows = .ok store') : Reshaped store store' := by
  unfold copyShadow at ok
  split at ok
  · contradiction
  · rename_i relation found
    obtain ⟨_,ok⟩ := iteOk.mp ok
    obtain ⟨_,ok⟩ := iteOk.mp ok
    obtain ⟨_,ok⟩ := iteOk.mp ok
    cases Except.ok.inj ok
    exact reshapedRows found

theorem putTypeReshaped (store : Store) (name : QualifiedName) (record : ManagedTypeRecord) :
    Reshaped store (putType store name record) := ⟨fun _ => rfl,rfl,rfl,⟨rfl,rfl,rfl⟩,rfl⟩

theorem updateTypeReshaped (store : Store) (name : QualifiedName) (checksum : Bytes) (token : Int) :
    Reshaped store (updateManagedType store name checksum token) := by
  unfold updateManagedType
  split
  · exact Reshaped.refl store
  · exact putTypeReshaped _ _ _

theorem reconcileReshaped {store prerequisite store'} (ok : reconcilePrerequisiteType store prerequisite = .ok store') :
    Reshaped store store' := by
  unfold reconcilePrerequisiteType at ok
  split at ok
  · contradiction
  · obtain ⟨_,_,ok⟩ := bindOk.mp ok
    obtain ⟨_,_,ok⟩ := bindOk.mp ok
    obtain ⟨_,_,ok⟩ := bindOk.mp ok
    cases Except.ok.inj ok
    exact ⟨fun _ => rfl,rfl,rfl,⟨rfl,rfl,rfl⟩,rfl⟩

theorem prerequisiteReshaped {platform ownership store prerequisite store'}
    (ok : ensurePrerequisiteType platform ownership store prerequisite = .ok store') : Reshaped store store' := by
  obtain ⟨action,_,ok⟩ := bindOk.mp ok
  cases action with
  | create =>
    cases Except.ok.inj ok
    exact ⟨fun _ => rfl,rfl,rfl,⟨rfl,rfl,rfl⟩,rfl⟩
  | reuse =>
    cases Except.ok.inj ok
    exact updateTypeReshaped _ _ _ _
  | reconcile =>
    obtain ⟨reconciled,first,ok⟩ := bindOk.mp ok
    cases Except.ok.inj ok
    exact (reconcileReshaped first).trans (updateTypeReshaped _ _ _ _)

theorem dropSource {store dropped store' name} {selects : ManagedTable → Bool}
    (names : UniqueKeys ManagedTable.name store.managedTables) (named : ∀ row, selects row → row.name = name)
    (dropOk : dropTable store name = .ok dropped) (deleteOk : deleteManaged dropped selects = .ok store') :
    store' = withoutTable store name ∧ ∃ row ∈ store.managedTables, selects row := by
  unfold dropTable at dropOk
  split at dropOk <;> try contradiction
  cases Except.ok.inj dropOk
  obtain ⟨_,counted,deleteOk⟩ := bindOk.mp deleteOk
  cases Except.ok.inj deleteOk
  have one : (store.managedTables.filter selects).length = 1 := oneRow counted
  obtain ⟨row,mem⟩ := List.exists_mem_of_length_pos (Nat.lt_of_lt_of_eq Nat.zero_lt_one one.symm)
  obtain ⟨mem,selected⟩ := List.mem_filter.mp mem
  have same : store.managedTables.filter (fun row => !selects row) =
      store.managedTables.filter (fun row => row.name ≠ name) := by
    refine List.filter_congr fun other mem' => ?_
    by_cases here : other.name = name
    · have equal : other = row := by
        have left := lookupOfMem names mem'
        rw [here,← named row selected,lookupOfMem names mem] at left
        exact (Option.some.inj left).symm
      subst equal
      simp [here,selected]
    · have outside : selects other = false := by
        by_contra chosen
        exact here (named other (by simpa using chosen))
      simp [here,outside]
  refine ⟨?_,row,mem,selected⟩
  unfold withoutTable
  rw [← same]

theorem dropDone {store : Store} {name} {row : ManagedTable} (selects : ManagedTable → Bool)
    (names : UniqueKeys ManagedTable.name store.managedTables) (named : ∀ row, selects row → row.name = name)
    (present : (store.relations name).isSome) (mem : row ∈ store.managedTables) (selected : selects row) :
    ∃ dropped, dropTable store name = .ok dropped ∧ deleteManaged dropped selects = .ok (withoutTable store name) := by
  have only : store.managedTables.filter selects = [row] := by
    have split : store.managedTables.filter selects =
        (store.managedTables.filter (fun other => other.name = name)).filter selects := by
      rw [List.filter_filter]
      refine List.filter_congr fun other _ => ?_
      by_cases chosen : selects other
      · simp [chosen,named other chosen]
      · simp [chosen]
    rw [split,filterKey names,← named row selected,lookupOfMem names mem]
    simp [selected]
  obtain ⟨dropped,dropOk⟩ : ∃ dropped, dropTable store name = .ok dropped := ⟨_,if_pos present⟩
  have rows : dropped.managedTables = store.managedTables := by
    rw [dropTable,if_pos present] at dropOk
    rw [← Except.ok.inj dropOk]
  have deleteOk : deleteManaged dropped selects =
      .ok {dropped with managedTables := dropped.managedTables.filter (fun row => !selects row)} := by
    refine bindOk.mpr ⟨(),?_,rfl⟩
    rw [rows,only]
    rfl
  refine ⟨dropped,dropOk,?_⟩
  rw [deleteOk,(dropSource names named dropOk deleteOk).1]

theorem createSource {store plan ownership built created} (building : createTable store plan.shadow = .ok built)
    (registering : registerShadow built plan ownership = .ok created) :
    loadRelationState store plan.shadow.target = .vacant ∧
    created = {withTable store plan.shadow.target ⟨store.nextOid,plan.shadow,[]⟩ ⟨ownership.fence.pipelineId,
      some ownership.snapshotGroupId,some store.nextOid,plan.sourceRelationId,plan.sourceGeneration,
      ownership.schemaFingerprint,.shadow,ownership.fence.fencingToken⟩ with nextOid := store.nextOid + 1} := by
  obtain ⟨free,building⟩ := iteOk.mp building
  obtain ⟨_,building⟩ := iteOk.mp building
  cases Except.ok.inj building
  obtain ⟨generation,converted,registering⟩ := bindOk.mp registering
  cases (databaseGenerationOk converted).2
  have placed : relationOid {putRelation store plan.shadow.target ⟨store.nextOid,plan.shadow,[]⟩ with
      nextOid := store.nextOid + 1} plan.shadow.target = some store.nextOid := by simp [relationOid,putRelation]
  simp only [placed] at registering
  obtain ⟨unmanaged,registering⟩ := iteOk.mp registering
  cases Except.ok.inj registering
  refine ⟨loadVacant.mpr ⟨by simpa using free,?_⟩,rfl⟩
  simpa [managedRecord,putRelation] using unmanaged

section Operations
variable {platform : Platform} {equal : Operators} {fences : PipelineId → Option StoredFence}
  {admits : Admission}

theorem headerIff {store : Store} {transit} (sound : Sound platform fences transit store) {group header} :
    lookup SnapshotGroup.snapshotGroupId store.snapshotGroups group = some header ↔
      header ∈ store.snapshotGroups ∧ header.snapshotGroupId = group := lookupIff sound.groups

theorem loadedSource {store transit group stored} (sound : Sound platform fences transit store)
    (ok : loadSnapshotGroup platform store group = .ok stored) :
    ∃ header ∈ store.snapshotGroups, header.snapshotGroupId = group ∧ stored.state = header.state ∧
      Stored platform store header stored.request := by
  obtain ⟨header,known,_,read⟩ := loadedHeader ok
  obtain ⟨member,same⟩ := (headerIff sound).mp known
  obtain ⟨request,manifest⟩ := sound.manifests header member
  obtain ⟨rfl,_⟩ := readOnly manifest read
  exact ⟨header,member,same,rfl,manifest⟩

theorem applyReshaped {target : Target} {request outcome target'}
    (ok : executeApply equal target request = .ok (outcome,target')) : Reshaped target.store target'.store := by
  obtain ⟨_,_,ok⟩ := bindOk.mp ok
  obtain ⟨_,_,ok⟩ := bindOk.mp ok
  obtain ⟨store,applied,ok⟩ := bindOk.mp ok
  obtain ⟨⟨_,_⟩,_,ok⟩ := bindOk.mp ok
  cases Except.ok.inj ok
  exact reshapedFold applyTableReshaped request.tables applied

theorem applyChanges {target : Target} {request outcome target'} {transit : Option Uuid}
    (ok : executeApply equal target request = .ok (outcome,target')) :
    Changes platform admits request.fence transit target.store target'.store := .single (.reshaped (applyReshaped ok))

theorem absentGroup {store group} (ok : loadSnapshotGroupOptional platform store group = .ok none) :
    ∀ other ∈ store.snapshotGroups, other.snapshotGroupId ≠ group := by
  unfold loadSnapshotGroupOptional at ok
  obtain ⟨_,ok⟩ := iteOk.mp ok
  split at ok
  · rename_i absent
    exact lookupNone.mp absent
  · rename_i header _
    cases read : readSnapshotGroup platform store header <;> simp [read,Except.map] at ok

def AdmittedBy (admits : Admission) (store : Store) (request : SnapshotActivationRequest) : Prop :=
  ∀ canonical, canonicalRequest request = .ok canonical →
    (∀ other ∈ store.snapshotGroups, other.snapshotGroupId ≠ canonical.snapshotGroupId) → admits store canonical

theorem beginChanges {target : Target} {request disposition target'} (admitted : AdmittedBy admits target.store request)
    (ok : beginSnapshotGroup platform target request = .ok (disposition,target')) :
    Changes platform admits request.fence none target.store target'.store := by
  obtain ⟨canonical,valid,ok⟩ := bindOk.mp ok
  obtain ⟨_,_,ok⟩ := bindOk.mp ok
  obtain ⟨found,optional,ok⟩ := bindOk.mp ok
  have own : canonical.fence = request.fence := by rw [(canonicalSource valid).shape]
  cases found with
  | some stored =>
    obtain ⟨_,ok⟩ := iteOk.mp ok
    split at ok <;> cases Except.ok.inj ok <;> exact .refl
  | none =>
    obtain ⟨store,inserted,ok⟩ := bindOk.mp ok
    cases Except.ok.inj ok
    obtain ⟨_,_,inserted⟩ := bindOk.mp inserted
    cases Except.ok.inj inserted
    have absent := absentGroup optional
    exact .single (.registered (canonicalIdempotent valid) own absent (admitted canonical valid absent) rfl)

theorem loadChanges {target : Target} {plan ownership copied target'}
    (sound : Sound platform fences none target.store)
    (ok : snapshotApply platform equal target plan ownership copied = .ok target') :
    Changes platform admits ownership.fence none target.store target'.store := by
  obtain ⟨stored,cleared,ensured,built,created,steps⟩ := snapshotApplySource ok
  obtain ⟨rows,store,_,copying,rfl⟩ := steps.copying
  obtain ⟨header,member,group,state,manifest⟩ := loadedSource sound steps.loaded
  have membership := steps.membership
  unfold validateApplyMembership at membership
  obtain ⟨same,membership⟩ := iteOk.mp membership
  push Not at same
  split at membership
  · contradiction
  rename_i table found
  obtain ⟨exact',_⟩ := iteOk.mp membership
  push Not at exact'
  have loading : header.state = .loading := by
    have other := steps.loading
    rw [state] at other
    cases kind : header.state with
    | loading => rfl
    | active => exact absurd kind other
  have first : Changes platform admits ownership.fence none target.store cleared ∧
      SameManifests target.store cleared := by
    cases steps.clearing with
    | kept => exact ⟨.refl,.refl _⟩
    | removed replaces removing =>
      obtain ⟨dropped,dropOk,deleteOk⟩ := bindOk.mp removing
      obtain ⟨rfl,_⟩ := dropSource sound.names (by simp) dropOk deleteOk
      refine ⟨.single ?_,⟨rfl,rfl,rfl⟩⟩
      unfold validateShadowForRebuild at replaces
      simp only at replaces
      split at replaces <;> try contradiction
      rename_i record managed
      obtain ⟨_,identity,replaces⟩ := bindOk.mp replaces
      obtain ⟨_,_,replaces⟩ := bindOk.mp replaces
      obtain ⟨_,required,_⟩ := bindOk.mp replaces
      obtain ⟨owner,_⟩ := iteOk.mp identity
      push Not at owner
      refine .removed (loadManaged.mp managed).2 owner fun quarantined => ?_
      unfold requireState at required
      split at required
      · rename_i shadow
        rw [shadow] at quarantined
        contradiction
      · contradiction
  have second := reshapedFold prerequisiteReshaped plan.shadow.prerequisites steps.ensuring
  obtain ⟨vacant,created'⟩ := createSource steps.building steps.registering
  have headers : ensured.snapshotGroups = target.store.snapshotGroups :=
    second.manifests.headers.trans first.2.headers
  have tables : ensured.groupTables = target.store.groupTables := second.manifests.tables.trans first.2.tables
  have fence : header.fence = ownership.fence := manifest.fence.trans same.2
  have listed : ⟨header.snapshotGroupId,table⟩ ∈ ensured.groupTables := by
    rw [tables]
    exact manifest.listed.mpr (List.mem_of_find?_eq_some found)
  have third : Change platform admits ownership.fence none ensured created := by
    have name : table.shadow = plan.shadow.target := by rw [exact']; rfl
    have record : (⟨ownership.fence.pipelineId,some ownership.snapshotGroupId,some ensured.nextOid,plan.sourceRelationId,
        plan.sourceGeneration,ownership.schemaFingerprint,.shadow,ownership.fence.fencingToken⟩ : ManagedTableRecord) =
        shadowRecord header table ensured.nextOid := by
      rw [shadowRecord,fence,group,exact']
      rfl
    rw [created',← name,record]
    exact .shadowed (headers ▸ member) loading fence listed (name ▸ vacant)
  exact (first.1.tail (.reshaped second)).tail third |>.tail (.reshaped (copyReshaped copying))

theorem pendingChanges {target : Target} {request canonical states stale outcome target' now}
    (sound : Sound platform fences none target.store)
    (checks : ActivationChecks platform target request canonical .loading states stale)
    (grouped : groupIsActive states = .ok false)
    (ok : activatePending platform now target canonical states stale
      (relationNames canonical.tables ++ stale.map StaleActiveTable.target) = .ok (outcome,target')) :
    ∃ middle, Changes platform admits canonical.fence (some canonical.snapshotGroupId) target.store middle ∧
      SameManifests target.store middle ∧
      markSnapshotGroupActive middle canonical.snapshotGroupId = .ok target'.store := by
  obtain ⟨_,_,ok⟩ := bindOk.mp ok
  obtain ⟨⟨promotions,reserved⟩,preflight,ok⟩ := bindOk.mp ok
  obtain ⟨plans,stalePreflight,ok⟩ := bindOk.mp ok
  obtain ⟨promoted,promotedOk,ok⟩ := bindOk.mp ok
  obtain ⟨quarantined,quarantinedOk,ok⟩ := bindOk.mp ok
  obtain ⟨checkpoints,_,ok⟩ := bindOk.mp ok
  obtain ⟨store,marked,ok⟩ := bindOk.mp ok
  cases Except.ok.inj ok
  obtain ⟨header,_,_,_,manifest⟩ := loadedSource sound checks.loaded
  have source := canonicalSource manifest.canonical
  have valid : canonical.snapshotGroupId ≠ Uuid.nil := source.group
  obtain ⟨tables,kept,ready⟩ := pendingPromotable manifest checks.classified grouped
    (List.subset_append_left _ _) preflight
  have distinct : (relationNames (promotions.map Promotion.table)).Nodup := by
    rw [tables,← (canonicalSortedTables manifest.canonical).1]
    exact source.names
  obtain ⟨promoting,frame⟩ := promotionsChange valid promotions (fun promotion mem => (ready promotion mem).1) distinct
    (fun promotion mem plan given member => (ready promotion mem).2 plan given
      (List.mem_append_left _ (by rw [← tables]; exact member))) promotedOk
  have planned := stalePlanned stale stalePreflight
  have untouched : ∀ name ∈ stale.map StaleActiveTable.target,
      managedRecord promoted name = managedRecord target.store name := by
    intro name mem
    refine frame.records name fun touched => ?_
    obtain ⟨entry,known,rfl⟩ := List.mem_map.mp mem
    obtain ⟨row,_,state,foreign⟩ := staleSource checks.listed entry known
    obtain ⟨promotion,here,touched⟩ := List.mem_flatMap.mp touched
    have member : promotion.table ∈ canonical.tables := by
      rw [← tables]
      exact List.mem_map_of_mem here
    rcases List.mem_append.mp touched with quarantine | own
    · obtain ⟨plan,given,same⟩ := Option.map_eq_some_iff.mp (Option.mem_toList.mp quarantine)
      exact (ready promotion here).2 plan given (same ▸ List.mem_append_right _ mem)
    · simp only [List.mem_cons,List.not_mem_nil,or_false] at own
      rcases own with target | shadow
      · exact foreign _ member target.symm
      · have found := (ready promotion here).1.found
        rw [← shadow,(recordIff sound.names).mpr row] at found
        rw [Option.some.inj found,(ready promotion here).1.state] at state
        contradiction
  obtain ⟨quarantining,frame'⟩ := staleChanges valid sound.moving checks.listed
    (fun name mem => kept (List.mem_append_right _ mem)) planned untouched quarantinedOk
  exact ⟨quarantined,promoting.trans quarantining,frame.manifests.trans frame'.manifests,marked⟩

theorem noShadowLeft {middle store' : Store} {group : Uuid} {tables : List SnapshotActivationTable} {fence}
    (sound : Sound platform fences (some group) middle)
    (listed : ∀ table, ⟨group,table⟩ ∈ middle.groupTables → table ∈ tables)
    (marked : markSnapshotGroupActive middle group = .ok store')
    (serve : ∀ table ∈ tables, Serves fence group store' table) :
    ∀ row ∈ middle.managedTables, row.record.state = .shadow → row.record.snapshotGroupId ≠ some group := by
  intro row mem state own
  obtain ⟨header,_,table,oid,_,manifested,name,record⟩ := (sound.accounted row mem).whenShadow state
  have group' : header.snapshotGroupId = group := by simpa [record,shadowRecord] using own
  have served := (serve table (listed table (group' ▸ manifested))).shadow
  obtain ⟨_,rfl⟩ := markSource marked
  have free : managedRecord middle table.shadow = none := (loadVacant.mp served).2
  exact recordNone free row mem name

inductive ActivationChanges (platform : Platform) (admits : Admission) (fence : PipelineFence) (group : Uuid) (store : Store) :
    Store → Prop
  | retried {store' : Store} (changes : Changes platform admits fence (some group) store store')
      (serving : ∀ header ∈ store'.snapshotGroups, header.snapshotGroupId = group → header.state = .active) :
      ActivationChanges platform admits fence group store store'
  | marked {header : SnapshotGroup} {middle store' : Store} (member : header ∈ store.snapshotGroups)
      (named : header.snapshotGroupId = group) (own : header.fence = fence)
      (changes : Changes platform admits fence (some group) store middle) (manifests : SameManifests store middle)
      (empty : ∀ row ∈ middle.managedTables, row.record.state = .shadow → row.record.snapshotGroupId ≠ some group)
      (marking : markSnapshotGroupActive middle group = .ok store') : ActivationChanges platform admits fence group store store'

theorem activateChanges {target : Target} {request outcome target' now}
    (sound : Sound platform target.checkpoints.pipelineState none target.store)
    (ok : activateSnapshotGroup platform now target request = .ok (outcome,target')) :
    ActivationChanges platform admits request.fence request.snapshotGroupId target.store target'.store := by
  obtain ⟨canonical,state,states,stale,checks,outcomes⟩ := activationSource ok
  obtain ⟨held,positive⟩ := lockSource checks.locked
  have shape := (canonicalSource checks.valid).shape
  have fence : request.fence = canonical.fence := by rw [shape]
  have group : request.snapshotGroupId = canonical.snapshotGroupId := by rw [shape]
  have valid := (canonicalSource checks.valid).group
  rw [group] at valid ⊢
  rw [fence]
  rcases outcomes with ⟨_,rfl,retry⟩ | ⟨grouped,rfl,pending⟩
  · obtain ⟨_,_,retry⟩ := bindOk.mp retry
    obtain ⟨plans,preflight,retry⟩ := bindOk.mp retry
    obtain ⟨store,quarantinedOk,retry⟩ := bindOk.mp retry
    cases Except.ok.inj retry
    have moving : Sound platform target.checkpoints.pipelineState (some canonical.snapshotGroupId) target.store := sound.moving
    obtain ⟨changes,frame⟩ := staleChanges valid moving checks.listed (List.subset_append_right _ _)
      (stalePlanned stale preflight) (fun _ _ => rfl) quarantinedOk
    refine .retried changes fun header member same => ?_
    obtain ⟨own,known,own',active,_⟩ := loadedSource sound checks.loaded
    rw [frame.manifests.headers] at member
    have one := (headerIff sound).mpr ⟨member,same⟩
    cases one.symm.trans ((headerIff sound).mpr ⟨known,own'⟩)
    exact active.symm
  · obtain ⟨middle,changes,manifests,marking⟩ := pendingChanges sound checks grouped pending
    obtain ⟨serve,_,_⟩ := pendingServe (canonicalIdempotent checks.valid) checks.classified (noneActive grouped)
      checks.listed pending
    obtain ⟨header,member,same,_,manifest⟩ := loadedSource sound checks.loaded
    refine .marked member same manifest.fence changes manifests (noShadowLeft (soundChanges held positive sound.moving changes) (fun table mem => ?_) marking
      serve) marking
    rw [manifests.tables] at mem
    exact manifest.listed.mp (by rw [same]; exact mem)

theorem dropShadowsChanges {fence : PipelineFence} {transit} {group : Uuid} (shadows : List QualifiedName) :
    ∀ {store store'}, UniqueKeys ManagedTable.name store.managedTables →
    shadows.foldlM (dropShadow fence.pipelineId group) store = .ok store' →
    Changes platform admits fence transit store store' ∧ store' = withoutTables store shadows := by
  induction shadows with
  | nil =>
    intro store store' _ ok
    cases Except.ok.inj ok
    exact ⟨.refl,withoutEach [] store⟩
  | cons shadow shadows ih =>
    intro store store' names ok
    obtain ⟨middle,first,rest⟩ := bindOk.mp ok
    obtain ⟨dropped,dropOk,deleteOk⟩ := bindOk.mp first
    obtain ⟨rfl,row,mem,selected⟩ := dropSource names (by simp; tauto) dropOk deleteOk
    obtain ⟨changes,rfl⟩ := ih (names.filter _) rest
    simp only [isGroupShadow,Bool.and_eq_true,decide_eq_true_eq] at selected
    obtain ⟨rfl,owner,_,state⟩ := selected
    refine ⟨.head (.removed ((recordIff names).mpr mem) owner ?_) changes,?_⟩
    · rw [state]
      nofun
    · rw [← withoutEach,← withoutEach,List.foldl_cons]

theorem deleteManifestSource {store stored pipeline group store'}
    (groups : UniqueKeys SnapshotGroup.snapshotGroupId store.snapshotGroups)
    (ok : deleteManifest store stored pipeline group = .ok store') :
    store' = withoutGroup store group ∧ ∃ header ∈ store.snapshotGroups, header.snapshotGroupId = group ∧
      header.fence.pipelineId = pipeline ∧ header.state = .loading := by
  unfold deleteManifest at ok
  obtain ⟨_,ok⟩ := iteOk.mp ok
  obtain ⟨_,ok⟩ := iteOk.mp ok
  obtain ⟨_,_,ok⟩ := bindOk.mp ok
  obtain ⟨_,counted,ok⟩ := bindOk.mp ok
  cases Except.ok.inj ok
  obtain ⟨header,mem⟩ := List.exists_mem_of_length_pos (Nat.lt_of_lt_of_eq Nat.zero_lt_one (oneRow counted).symm)
  obtain ⟨mem,selected⟩ := List.mem_filter.mp mem
  simp only [decide_eq_true_eq] at selected
  refine ⟨?_,header,mem,selected.1,by rw [selected.2.1],selected.2.2⟩
  have same : store.snapshotGroups.filter (fun other => !decide (other.snapshotGroupId = group ∧
      other.fence = {stored.request.fence with pipelineId := pipeline} ∧ other.state = .loading)) =
      store.snapshotGroups.filter (fun other => other.snapshotGroupId ≠ group) := by
    refine List.filter_congr fun other mem' => ?_
    by_cases here : other.snapshotGroupId = group
    · have equal : other = header := by
        have left := lookupOfMem groups mem'
        rw [here,← selected.1,lookupOfMem groups mem] at left
        exact (Option.some.inj left).symm
      subst equal
      simp [selected]
    · simp [here]
  unfold withoutGroup
  rw [← same]

theorem ownedShadows {store : Store} {stored : StoredSnapshotGroup} {group : Uuid} {owned : List (Option QualifiedName)}
    (ok : stored.request.tables.mapM (ownedShadow store stored group) = .ok owned)
    {table : SnapshotActivationTable} (mem : table ∈ stored.request.tables) (present : (managedRecord store table.shadow).isSome) :
    table.shadow ∈ owned.filterMap id := by
  obtain ⟨index,found⟩ := List.getElem?_of_mem mem
  obtain ⟨result,produced,here⟩ := relatedAt (mapMOk.mp ok) found
  have member := List.mem_of_getElem? produced
  unfold ownedShadow at here
  split at here
  · rename_i vacant
    rw [(loadVacant.mp vacant).2] at present
    contradiction
  · contradiction
  · contradiction
  · obtain ⟨_,_,here⟩ := bindOk.mp here
    obtain ⟨_,_,here⟩ := bindOk.mp here
    cases Except.ok.inj here
    exact List.mem_filterMap.mpr ⟨_,member,rfl⟩

theorem cleanupLockedChanges {store request outcome store'} (sound : Sound platform fences none store)
    (ok : cleanupLoadingSnapshotGroupLocked platform store request = .ok (outcome,store')) :
    Changes platform admits request.currentFence none store store' := by
  obtain ⟨stored,loaded,ok⟩ := bindOk.mp ok
  obtain ⟨_,_,ok⟩ := bindOk.mp ok
  obtain ⟨_,ok⟩ := iteOk.mp ok
  obtain ⟨owned,shadows,ok⟩ := bindOk.mp ok
  simp only at ok
  split at ok
  · contradiction
  obtain ⟨dropped,dropOk,ok⟩ := bindOk.mp ok
  obtain ⟨last,deleteOk,ok⟩ := bindOk.mp ok
  cases Except.ok.inj ok
  obtain ⟨changes,rfl⟩ := dropShadowsChanges _ sound.names dropOk
  obtain ⟨header,member,same,_,manifest⟩ := loadedSource sound loaded
  have deleted : UniqueKeys SnapshotGroup.snapshotGroupId (withoutTables store (owned.filterMap id)).snapshotGroups :=
    sound.groups
  obtain ⟨rfl,other,known,here,owner,loading⟩ := deleteManifestSource deleted deleteOk
  refine changes.tail ?_
  rw [← here]
  refine .unregistered known owner loading nofun fun row mem state own => ?_
  obtain ⟨mem,left⟩ := List.mem_filter.mp mem
  obtain ⟨_,_,table,oid,_,listed,name,record⟩ := (sound.accounted row mem).whenShadow state
  have group : header.snapshotGroupId = other.snapshotGroupId := same.trans here.symm
  rw [record] at own
  rw [Option.some.inj own,← group] at listed
  have shadow := ownedShadows shadows (manifest.listed.mp listed) (by
    rw [← name,(recordIff sound.names).mpr mem]
    rfl)
  exact of_decide_eq_true left (name ▸ shadow)

theorem foldChanges {α σ ε : Type} (store : σ → Store) {fence : PipelineFence} {step : σ → α → Except ε σ}
    (held : fences fence.pipelineId = some fence.stored) (valid : 0 < fence.fencingToken)
    (each : ∀ {state item state'}, Sound platform fences none (store state) → step state item = .ok state' →
      Changes platform admits fence none (store state) (store state')) (items : List α) :
    ∀ {state state'}, Sound platform fences none (store state) → items.foldlM step state = .ok state' →
      Changes platform admits fence none (store state) (store state') := by
  induction items with
  | nil =>
    intro state state' _ ok
    cases Except.ok.inj ok
    exact .refl
  | cons item items ih =>
    intro state state' sound ok
    obtain ⟨middle,first,rest⟩ := bindOk.mp ok
    have changes := each sound first
    exact changes.trans (ih (soundChanges held valid sound changes) rest)

theorem cleanupStaleChanges {target : Target} {fence outcomes target'}
    (sound : Sound platform target.checkpoints.pipelineState none target.store)
    (ok : cleanupStaleSnapshotGroups platform target fence = .ok (outcomes,target')) :
    Changes platform admits fence none target.store target'.store := by
  obtain ⟨_,ok⟩ := iteOk.mp ok
  obtain ⟨_,_,ok⟩ := bindOk.mp ok
  obtain ⟨_,locked,ok⟩ := bindOk.mp ok
  obtain ⟨state,cleaned,ok⟩ := bindOk.mp ok
  cases Except.ok.inj ok
  obtain ⟨held,positive⟩ := lockSource (mapErrorOk.mp locked)
  refine foldChanges Prod.snd held positive (fun {state header state'} sound ok => ?_) _ sound cleaned
  obtain ⟨_,_,ok⟩ := bindOk.mp ok
  obtain ⟨⟨outcome,store⟩,done,ok⟩ := bindOk.mp ok
  cases Except.ok.inj ok
  exact cleanupLockedChanges sound done

theorem quarantineRecordSource {fence row oid previous}
    (ok : validateQuarantineRecord fence row = .ok (oid,previous)) : row.pipelineId = fence.pipelineId := by
  unfold validateQuarantineRecord at ok
  simp only at ok
  split at ok
  · contradiction
  split at ok
  · contradiction
  obtain ⟨_,ok⟩ := iteOk.mp ok
  obtain ⟨owned,_⟩ := iteOk.mp ok
  push Not at owned
  exact owned.1

theorem quarantinedSource {store row record} (ok : quarantinedRecord store row = .ok record) :
    loadRelationState store row.quarantine = .managed record ∧ record.state = .quarantined := by
  unfold quarantinedRecord at ok
  split at ok
  · rename_i found state
    split at ok <;> try contradiction
    rename_i quarantined
    cases Except.ok.inj ok
    exact ⟨state,quarantined⟩
  · contradiction

theorem purgedSame {log : List Reconciliation} {row entry : Reconciliation} (now : Nat) (fence : PipelineFence)
    (alone : (log.filter (fun other => other.quarantine = row.quarantine ∧ other.purgedAt = none)).length = 1)
    (mem : entry ∈ log) (group : entry.snapshotGroupId = row.snapshotGroupId) (original : entry.original = row.original)
    (same : entry.quarantine = row.quarantine) (unpurged : entry.purgedAt = none) :
    purgedLog now fence entry log = log.map (fun other =>
      if decide (other.snapshotGroupId = row.snapshotGroupId ∧ other.original = row.original ∧
        other.quarantine = row.quarantine ∧ other.purgedAt = none) then
      {other with purgedAt := some now, purgedByFencingToken := some fence.fencingToken} else other) := by
  refine List.map_congr_left fun other mem' => ?_
  have one : ∀ candidate ∈ log, candidate.quarantine = row.quarantine → candidate.purgedAt = none →
      candidate = entry := by
    intro candidate member quarantine open'
    obtain ⟨only,single⟩ := List.length_eq_one_iff.mp alone
    have first : candidate ∈ [only] := single ▸ List.mem_filter.mpr ⟨member,by simp [quarantine,open']⟩
    have second : entry ∈ [only] := single ▸ List.mem_filter.mpr ⟨mem,by simp [same,unpurged]⟩
    rw [List.mem_singleton.mp first,List.mem_singleton.mp second]
  by_cases here : other.quarantine = row.quarantine ∧ other.purgedAt = none
  · cases one other mem' here.1 here.2
    simp [same,here,group,original]
  · rw [if_neg (by rw [same]; exact here),if_neg]
    simp only [decide_eq_true_eq]
    exact fun chosen => here chosen.2.2

theorem collectChanges {now fence state row state'} (sound : Sound platform fences none state.2)
    (ok : collectQuarantine platform now fence state row = .ok state') :
    Changes platform admits fence none state.2 state'.2 := by
  obtain ⟨⟨oid,previous⟩,validated,ok⟩ := bindOk.mp ok
  obtain ⟨expected,_,ok⟩ := bindOk.mp ok
  obtain ⟨_,ok⟩ := iteOk.mp ok
  obtain ⟨managed,quarantined,ok⟩ := bindOk.mp ok
  obtain ⟨exact',ok⟩ := iteOk.mp ok
  obtain ⟨_,_,ok⟩ := bindOk.mp ok
  obtain ⟨alone,ok⟩ := iteOk.mp ok
  obtain ⟨dropped,dropOk,ok⟩ := bindOk.mp ok
  obtain ⟨deleted,deleteOk,ok⟩ := bindOk.mp ok
  obtain ⟨purged,purgeOk,ok⟩ := bindOk.mp ok
  cases Except.ok.inj ok
  push Not at exact' alone
  obtain ⟨rfl,_⟩ := dropSource sound.names (by simp; tauto) dropOk deleteOk
  obtain ⟨_,counted,purgeOk⟩ := bindOk.mp purgeOk
  cases Except.ok.inj purgeOk
  obtain ⟨entry,mem⟩ := List.exists_mem_of_length_pos (Nat.lt_of_lt_of_eq Nat.zero_lt_one (oneRow counted).symm)
  obtain ⟨mem,selected⟩ := List.mem_filter.mp mem
  simp only [decide_eq_true_eq] at selected
  obtain ⟨group,original,same,unpurged⟩ := selected
  have owner : entry.pipelineId = fence.pipelineId := by
    have left := (recordIff sound.names).mpr (sound.logged entry mem unpurged).row
    rw [same,(loadManaged.mp (quarantinedSource quarantined).1).2,exact'] at left
    rw [← quarantineRecordSource validated]
    exact (congrArg (·.pipelineId) (Option.some.inj left)).symm
  have log := purgedSame now fence alone mem group original same unpurged
  have change : Change platform admits fence none state.2 {withoutTable state.2 entry.quarantine with
      reconciliationLog := purgedLog now fence entry state.2.reconciliationLog} := .purged mem unpurged owner
  rw [log,same] at change
  exact .single change

theorem garbageCollectChanges {now : Nat} {target : Target} {fence policy outcome target'}
    (sound : Sound platform target.checkpoints.pipelineState none target.store)
    (ok : garbageCollectQuarantinedTables platform now target fence policy = .ok (outcome,target')) :
    Changes platform admits fence none target.store target'.store := by
  obtain ⟨_,_,ok⟩ := bindOk.mp ok
  split at ok
  · cases Except.ok.inj ok
    exact .refl
  · obtain ⟨_,ok⟩ := iteOk.mp ok
    obtain ⟨_,locked,ok⟩ := bindOk.mp ok
    obtain ⟨state,collected,ok⟩ := bindOk.mp ok
    cases Except.ok.inj ok
    obtain ⟨held,positive⟩ := lockSource (mapErrorOk.mp locked)
    exact foldChanges Prod.snd held positive collectChanges _ sound collected

end Operations

end CloudberryEtl.Transactions
