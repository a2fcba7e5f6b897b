import CloudberryEtl.Fencing

/-! What an activation leaves in the target: every table of the group serves under its target name, its shadow name is
free, and the manifest reads back as active. Applies, cleanups, garbage collections and new fences keep it so. -/
namespace CloudberryEtl.ActivatedGroup
open Schema Change TablePlan StagedApply KeyedTable Result TargetStore Manifest Activation Cleanup Fencing
open Checkpoint hiding databaseGeneration

structure SameManifests (store store' : Store) : Prop where
  headers : store'.snapshotGroups = store.snapshotGroups
  tables : store'.groupTables = store.groupTables
  nodes : store'.groupNodes = store.groupNodes

theorem SameManifests.refl (store : Store) : SameManifests store store := ⟨rfl,rfl,rfl⟩

theorem SameManifests.trans {first second third : Store} (one : SameManifests first second)
    (two : SameManifests second third) : SameManifests first third :=
  ⟨two.headers.trans one.headers,two.tables.trans one.tables,two.nodes.trans one.nodes⟩

structure Moved (source destination : QualifiedName) (record : ManagedTableRecord) (store store' : Store) : Prop where
  existed : (store.relations source).isSome
  left : loadRelationState store' source = .vacant
  arrived : loadRelationState store' destination = .managed record
  others : ∀ name, name ≠ source → name ≠ destination → loadRelationState store' name = loadRelationState store name
  manifests : SameManifests store store'

theorem loadVacant {store name} :
    loadRelationState store name = .vacant ↔ store.relations name = none ∧ managedRecord store name = none := by
  unfold loadRelationState
  cases store.relations name <;> cases managedRecord store name <;> simp

theorem loadManaged {store name record} :
    loadRelationState store name = .managed record ↔
      (store.relations name).isSome ∧ managedRecord store name = some record := by
  unfold loadRelationState
  cases store.relations name <;> cases managedRecord store name <;> simp

theorem loadSame {store store' : Store} {name} (relation : (store'.relations name).isSome = (store.relations name).isSome)
    (record : managedRecord store' name = managedRecord store name) :
    loadRelationState store' name = loadRelationState store name := by
  unfold loadRelationState
  rw [relation,record]

theorem renameSource {store table newName store'} (schema : newName.schema = table.schema)
    (ok : renameTable store table newName = .ok store') :
    ∃ relation, store.relations table = some relation ∧ store.relations newName = none ∧
      store' = putRelation {store with relations := Function.update store.relations table none} newName relation := by
  have renamed : ({table with name := newName.name, nameValid := newName.nameValid} : QualifiedName) = newName := by
    cases newName
    cases table
    simp_all
  unfold renameTable at ok
  simp only [renamed] at ok
  split at ok
  · contradiction
  · rename_i relation found
    obtain ⟨free,ok⟩ := iteOk.mp ok
    obtain ⟨_,ok⟩ := iteOk.mp ok
    exact ⟨relation,found,by simpa using free,(Except.ok.inj ok).symm⟩

theorem managedAppend (store : Store) (rows : List ManagedTable) (row : ManagedTable) (name : QualifiedName) :
    managedRecord {store with managedTables := rows ++ [row]} name =
      ((lookup ManagedTable.name rows name).map ManagedTable.record).or
        (if row.name = name then some row.record else none) := by
  rw [managedRecord,lookupAppend]
  cases lookup ManagedTable.name rows name <;> by_cases same : row.name = name <;> simp [lookup,same]

structure Relocated (source destination : QualifiedName) (record : ManagedTableRecord) (store store' : Store) : Prop where
  left : managedRecord store' source = none
  arrived : managedRecord store' destination = some record
  others : ∀ name, name ≠ source → name ≠ destination → managedRecord store' name = managedRecord store name
  relations : store'.relations = store.relations
  manifests : SameManifests store store'

theorem relocateSource {store source destination record state token store'} (apart : source ≠ destination)
    (ok : relocateMetadata store source destination record state token = .ok store') :
    Relocated source destination {record with state := state, fencingToken := token} store store' := by
  obtain ⟨deleted,delete,ok⟩ := bindOk.mp ok
  obtain ⟨_,_,ok⟩ := bindOk.mp ok
  obtain ⟨_,_,delete⟩ := bindOk.mp delete
  cases Except.ok.inj delete
  obtain ⟨free,ok⟩ := iteOk.mp ok
  cases Except.ok.inj ok
  let remaining := store.managedTables.filter (fun row => !decide (row.name = source))
  have gone : lookup ManagedTable.name remaining source = none := lookupNone.mpr (by simp [remaining])
  have vacant : lookup ManagedTable.name remaining destination = none := by simpa [managedRecord] using free
  refine ⟨?_,?_,fun name ns nd => ?_,rfl,⟨rfl,rfl,rfl⟩⟩
  · exact (managedAppend _ remaining _ _).trans (by simp [gone,apart.symm])
  · exact (managedAppend _ remaining _ _).trans (by simp [vacant])
  · have kept : lookup ManagedTable.name remaining name = lookup ManagedTable.name store.managedTables name :=
      lookupFilterKept (by rintro row rfl; simpa using ns)
    exact (managedAppend _ remaining _ _).trans (by simp [kept,nd.symm,managedRecord])

theorem moved {store middle store' source destination record state token} (apart : source ≠ destination)
    (schema : destination.schema = source.schema) (renamed : renameTable store source destination = .ok middle)
    (relocated : relocateMetadata middle source destination record state token = .ok store') :
    Moved source destination {record with state := state, fencingToken := token} store store' := by
  obtain ⟨relation,found,_,rfl⟩ := renameSource schema renamed
  obtain ⟨left,arrived,others,relations,manifests⟩ := relocateSource apart relocated
  refine ⟨by simp [found],loadVacant.mpr ⟨?_,left⟩,loadManaged.mpr ⟨?_,arrived⟩,fun name ns nd => ?_,
    ⟨manifests.headers,manifests.tables,manifests.nodes⟩⟩
  · simp [relations,putRelation,apart]
  · simp [relations,putRelation]
  · exact loadSame (by simp [relations,putRelation,ns,nd]) (others name ns nd)

theorem quarantineMoved {now request store plan store'} (apart : plan.original ≠ plan.quarantine)
    (schema : plan.quarantine.schema = plan.original.schema) (ok : applyQuarantine now request store plan = .ok store') :
    Moved plan.original plan.quarantine
      {plan.record with state := .quarantined, fencingToken := request.fence.fencingToken} store store' := by
  obtain ⟨renamed,rename,ok⟩ := bindOk.mp ok
  obtain ⟨relocated,relocate,ok⟩ := bindOk.mp ok
  obtain ⟨_,_,ok⟩ := bindOk.mp ok
  obtain ⟨_,_,ok⟩ := bindOk.mp ok
  obtain ⟨_,ok⟩ := iteOk.mp ok
  cases Except.ok.inj ok
  have move := moved apart schema rename relocate
  -- the log is no part of what a relation state reads
  exact ⟨move.existed,move.left,move.arrived,move.others,⟨move.manifests.headers,move.manifests.tables,move.manifests.nodes⟩⟩

structure Serves (fence : PipelineFence) (group : Uuid) (store : Store) (table : SnapshotActivationTable) : Prop where
  target : ∃ record, loadRelationState store table.target = .managed record ∧ record.pipelineId = fence.pipelineId ∧
    record.state = .active ∧ matchesActivation record table group ∧ record.fencingToken ≤ fence.fencingToken
  shadow : loadRelationState store table.shadow = .vacant

theorem Serves.same {fence group store store' table} (serves : Serves fence group store table)
    (target : loadRelationState store' table.target = loadRelationState store table.target)
    (shadow : loadRelationState store' table.shadow = loadRelationState store table.shadow) :
    Serves fence group store' table := by
  obtain ⟨record,found,facts⟩ := serves.target
  exact ⟨⟨record,target.trans found,facts⟩,shadow.trans serves.shadow⟩

theorem Serves.classified {fence group store table} {request : SnapshotActivationRequest}
    (serves : Serves fence group store table) (pipeline : request.fence.pipelineId = fence.pipelineId)
    (newer : fence.fencingToken ≤ request.fence.fencingToken) (same : request.snapshotGroupId = group) :
    classifyStored store request table = .ok .active := by
  obtain ⟨record,found,owner,active,matching,token⟩ := serves.target
  have source : record.sourceRelationId = table.sourceRelationId := by
    simp only [matchesActivation,decide_eq_true_eq] at matching
    exact matching.2.1
  have fresh : ¬ request.fence.fencingToken < record.fencingToken := by omega
  simp [classifyStored,classifyTable,classifyTarget,classifyShadow,found,serves.shadow,validateManagedIdentity,
    validateManagedFence,requireState,bind,Except.bind,owner,pipeline,source,fresh,active,same,matching]

theorem validTable {table} (ok : validateTable table = .ok ()) :
    table.target ≠ table.shadow ∧ table.target.schema = table.shadow.schema ∧ table.shadow.name ≠ table.target.name := by
  obtain ⟨apart,ok⟩ := iteOk.mp ok
  obtain ⟨schema,ok⟩ := iteOk.mp ok
  push Not at schema
  refine ⟨apart,schema,fun name => apart ?_⟩
  cases target : table.target
  cases shadow : table.shadow
  simp_all

structure Ready (request : SnapshotActivationRequest) (promotion : Promotion) : Prop where
  member : promotion.table ∈ request.tables
  valid : validateTable promotion.table = .ok ()
  pipeline : promotion.shadow.pipelineId = request.fence.pipelineId
  shadow : matchesActivation promotion.shadow promotion.table request.snapshotGroupId
  replaced : ∀ plan, promotion.replaced = some plan → plan.original = promotion.table.target ∧
    plan.quarantine.schema = promotion.table.target.schema ∧ plan.quarantine ∉ relationNames request.tables

theorem targetNamed {tables : List SnapshotActivationTable} {table} (mem : table ∈ tables) :
    table.target ∈ relationNames tables := List.mem_flatMap.mpr ⟨table,mem,by simp⟩

theorem shadowNamed {tables : List SnapshotActivationTable} {table} (mem : table ∈ tables) :
    table.shadow ∈ relationNames tables := List.mem_flatMap.mpr ⟨table,mem,by simp⟩

def Untouched (request : SnapshotActivationRequest) (touched : List QualifiedName) (store store' : Store) : Prop :=
  ∀ name ∈ relationNames request.tables, name ∉ touched → loadRelationState store' name = loadRelationState store name

inductive Replaced (now : Nat) (request : SnapshotActivationRequest) (promotion : Promotion) (store : Store) : Store → Prop
  | fresh (none' : promotion.replaced = none) : Replaced now request promotion store store
  | quarantined {plan : QuarantinePlan} {store' : Store} (some' : promotion.replaced = some plan)
      (ok : applyQuarantine now request store plan = .ok store') : Replaced now request promotion store store'

theorem promoteSource {now request store promotion store'} (ok : promote now request store promotion = .ok store') :
    ∃ quarantined promoted, Replaced now request promotion store quarantined ∧
      promoteShadow quarantined promotion.table = .ok promoted ∧
      relocateMetadata promoted promotion.table.shadow promotion.table.target promotion.shadow .active
        request.fence.fencingToken = .ok store' := by
  unfold promote at ok
  cases replaced : promotion.replaced with
  | none =>
    simp only [replaced] at ok
    obtain ⟨quarantined,same,ok⟩ := bindOk.mp ok
    cases Except.ok.inj same
    obtain ⟨promoted,promoteOk,ok⟩ := bindOk.mp ok
    exact ⟨store,promoted,.fresh replaced,promoteOk,ok⟩
  | some plan =>
    simp only [replaced] at ok
    obtain ⟨quarantined,quarantineOk,ok⟩ := bindOk.mp ok
    obtain ⟨promoted,promoteOk,ok⟩ := bindOk.mp ok
    exact ⟨quarantined,promoted,.quarantined replaced quarantineOk,promoteOk,ok⟩

theorem replacedUntouched {now request store promotion store'} (ready : Ready request promotion)
    (replaced : Replaced now request promotion store store') :
    Untouched request [promotion.table.target] store store' ∧ SameManifests store store' := by
  cases replaced with
  | fresh => exact ⟨fun _ _ _ => rfl,.refl store⟩
  | quarantined found ok =>
    rename_i plan
    obtain ⟨original,schema,reserved⟩ := ready.replaced plan found
    have apart : plan.original ≠ plan.quarantine := by
      intro same
      rw [← same,original] at reserved
      exact reserved (targetNamed ready.member)
    have move := quarantineMoved apart (schema.trans (congrArg _ original.symm)) ok
    refine ⟨fun name mem outside => move.others name ?_ ?_,move.manifests⟩
    · simpa [original] using outside
    · rintro rfl
      exact reserved mem

theorem promoteServes {now request store promotion store'} (ready : Ready request promotion)
    (ok : promote now request store promotion = .ok store') :
    Serves request.fence request.snapshotGroupId store' promotion.table ∧
    Untouched request [promotion.table.target,promotion.table.shadow] store store' ∧ SameManifests store store' := by
  obtain ⟨apart,schema,renamed⟩ := validTable ready.valid
  obtain ⟨quarantined,promoted,replaced,promoteOk,ok⟩ := promoteSource ok
  rw [promoteShadow,if_pos renamed] at promoteOk
  obtain ⟨untouched,manifests⟩ := replacedUntouched ready replaced
  have move := moved apart.symm schema promoteOk ok
  refine ⟨⟨⟨_,move.arrived,ready.pipeline,rfl,ready.shadow,Int.le_refl _⟩,move.left⟩,fun name mem outside => ?_,
    manifests.trans move.manifests⟩
  simp only [List.mem_cons,List.not_mem_nil,or_false,not_or] at outside
  exact (move.others name outside.2 outside.1).trans (untouched name mem (by simp [outside.1]))

theorem promotionsServe {now request} (promotions : List Promotion) : ∀ {store store'},
    (∀ promotion ∈ promotions, Ready request promotion) → (relationNames (promotions.map Promotion.table)).Nodup →
    promotions.foldlM (promote now request) store = .ok store' →
    (∀ promotion ∈ promotions, Serves request.fence request.snapshotGroupId store' promotion.table) ∧
    Untouched request (relationNames (promotions.map Promotion.table)) store store' ∧ SameManifests store store' := by
  induction promotions with
  | nil =>
    intro store store' _ _ ok
    cases Except.ok.inj ok
    exact ⟨by simp,fun _ _ _ => rfl,.refl store⟩
  | cons promotion promotions ih =>
    intro store store' ready distinct ok
    obtain ⟨middle,first,rest⟩ := bindOk.mp ok
    have split : relationNames ((promotion :: promotions).map Promotion.table) =
        [promotion.table.target,promotion.table.shadow] ++ relationNames (promotions.map Promotion.table) := rfl
    rw [split] at distinct
    obtain ⟨_,distinct,disjoint⟩ := List.nodup_append.mp distinct
    have here := ready promotion (by simp)
    obtain ⟨serves,untouched,manifests⟩ := promoteServes here first
    obtain ⟨others,untouched',manifests'⟩ := ih (fun other mem => ready other (by simp [mem])) distinct rest
    refine ⟨fun other mem => ?_,fun name mem outside => ?_,manifests.trans manifests'⟩
    · rcases List.mem_cons.mp mem with rfl | mem
      · refine serves.same (untouched' _ (targetNamed here.member) fun mem => ?_)
          (untouched' _ (shadowNamed here.member) fun mem => ?_)
        · exact disjoint _ (by simp) _ mem rfl
        · exact disjoint _ (by simp) _ mem rfl
      · exact others other mem
    · rw [split,List.mem_append,not_or] at outside
      exact (untouched' name mem outside.2).trans (untouched name mem outside.1)

theorem staleServe {now request} (plans : List QuarantinePlan) : ∀ {store store'},
    (∀ plan ∈ plans, (∀ table ∈ request.tables, table.target ≠ plan.original) ∧
      plan.quarantine.schema = plan.original.schema ∧ plan.original ≠ plan.quarantine ∧
      plan.quarantine ∉ relationNames request.tables) →
    (∀ table ∈ request.tables, Serves request.fence request.snapshotGroupId store table) →
    plans.foldlM (applyQuarantine now request) store = .ok store' →
    (∀ table ∈ request.tables, Serves request.fence request.snapshotGroupId store' table) ∧ SameManifests store store' := by
  induction plans with
  | nil =>
    intro store store' _ serve ok
    cases Except.ok.inj ok
    exact ⟨serve,.refl store⟩
  | cons plan plans ih =>
    intro store store' planned serve ok
    obtain ⟨middle,first,rest⟩ := bindOk.mp ok
    obtain ⟨foreign,schema,apart,reserved⟩ := planned plan (by simp)
    have move := quarantineMoved apart schema first
    have serve' : ∀ table ∈ request.tables, Serves request.fence request.snapshotGroupId middle table := by
      intro table mem
      refine (serve table mem).same (move.others _ (foreign table mem) ?_) (move.others _ ?_ ?_)
      · exact fun same => reserved (same ▸ targetNamed mem)
      · -- a free name cannot be renamed
        intro same
        have free := (loadVacant.mp (serve table mem).shadow).1
        have existed := move.existed
        rw [← same,free] at existed
        contradiction
      · exact fun same => reserved (same ▸ shadowNamed mem)
    obtain ⟨serve',manifests⟩ := ih (fun other mem => planned other (by simp [mem])) serve' rest
    exact ⟨serve',move.manifests.trans manifests⟩

section Preflight
variable {platform : Platform}

structure Planned (platform : Platform) (store : Store) (taken : List QualifiedName) (table : QualifiedName)
    (old : ManagedTableRecord) (plan : QuarantinePlan) : Prop where
  original : plan.original = table
  record : plan.record = old
  named : quarantineName platform table old = .ok plan.quarantine
  schema : plan.quarantine.schema = table.schema
  reserved : plan.quarantine ∉ taken
  vacant : loadRelationState store plan.quarantine = .vacant

theorem Planned.subset {store reserved reserved' original record plan}
    (planned : Planned platform store reserved' original record plan) (kept : reserved ⊆ reserved') :
    Planned platform store reserved original record plan :=
  {planned with reserved := fun mem => planned.reserved (kept mem)}

theorem reserveSource {store reserved original record reason plan reserved'}
    (ok : reserveQuarantine platform store reserved original record reason = .ok (plan,reserved')) :
    Planned platform store reserved original record plan ∧ reserved' = plan.quarantine :: reserved := by
  obtain ⟨quarantine,named,ok⟩ := bindOk.mp ok
  obtain ⟨free,ok⟩ := iteOk.mp ok
  push Not at free
  cases Except.ok.inj ok
  exact ⟨⟨rfl,rfl,named,(QualifiedName.newSource (mapErrorOk.mp named)).1,free.1,free.2⟩,rfl⟩

theorem promotionsPlanned {store} (pairs : List (SnapshotActivationTable × TableActivationState)) :
    ∀ {reserved promotions reserved'}, (∀ pair ∈ pairs, pair.2 ≠ .active) →
    preflightPromotions platform store pairs reserved = .ok (promotions,reserved') →
    promotions.map Promotion.table = pairs.map Prod.fst ∧ reserved ⊆ reserved' ∧
    ∀ promotion ∈ promotions, ∃ previous, (promotion.table,.pending promotion.shadow previous) ∈ pairs ∧
      (previous = none → promotion.replaced = none) ∧
      ∀ record, previous = some record → ∃ plan, promotion.replaced = some plan ∧
        Planned platform store reserved promotion.table.target record plan := by
  induction pairs with
  | nil =>
    intro reserved promotions reserved' _ ok
    cases Except.ok.inj ok
    simp
  | cons pair pairs ih =>
    intro reserved promotions reserved' pending ok
    obtain ⟨table,state⟩ := pair
    have pending' : ∀ pair ∈ pairs, pair.2 ≠ .active := fun pair mem => pending pair (by simp [mem])
    cases state with
    | active => exact absurd rfl (pending (table,.active) (by simp))
    | pending shadow previous =>
      cases previous with
      | none =>
        obtain ⟨⟨later,last⟩,rest,ok⟩ := bindOk.mp ok
        cases Except.ok.inj ok
        obtain ⟨tables,kept,each⟩ := ih pending' rest
        refine ⟨by simp [tables],kept,fun promotion mem => ?_⟩
        rcases List.mem_cons.mp mem with rfl | mem
        · exact ⟨none,by simp,fun _ => rfl,nofun⟩
        · obtain ⟨previous,mem,plans⟩ := each promotion mem
          exact ⟨previous,by simp [mem],plans⟩
      | some previous =>
        obtain ⟨⟨plan,middle⟩,reserve,ok⟩ := bindOk.mp ok
        obtain ⟨⟨later,last⟩,rest,ok⟩ := bindOk.mp ok
        cases Except.ok.inj ok
        obtain ⟨planned,rfl⟩ := reserveSource reserve
        obtain ⟨tables,kept,each⟩ := ih pending' rest
        refine ⟨by simp [tables],fun name mem => kept (by simp [mem]),fun promotion mem => ?_⟩
        rcases List.mem_cons.mp mem with rfl | mem
        · refine ⟨some previous,by simp,nofun,fun record same => ⟨plan,rfl,?_⟩⟩
          cases Option.some.inj same
          exact planned
        · obtain ⟨previous,mem,fresh,plans⟩ := each promotion mem
          refine ⟨previous,by simp [mem],fresh,fun record same => ?_⟩
          obtain ⟨plan,replaced,planned⟩ := plans record same
          exact ⟨plan,replaced,planned.subset (List.subset_cons_self _ _)⟩

theorem stalePlanned {store token} (stale : List StaleActiveTable) : ∀ {reserved plans},
    preflightStaleQuarantines platform store token stale reserved = .ok plans →
    List.Forall₂ (fun entry plan => Planned platform store reserved entry.target entry.record plan) stale plans := by
  induction stale with
  | nil =>
    intro reserved plans ok
    cases Except.ok.inj ok
    exact .nil
  | cons head stale ih =>
    intro reserved plans ok
    obtain ⟨_,_,ok⟩ := bindOk.mp ok
    obtain ⟨⟨plan,middle⟩,reserve,ok⟩ := bindOk.mp ok
    obtain ⟨later,rest,ok⟩ := bindOk.mp ok
    cases Except.ok.inj ok
    obtain ⟨planned,rfl⟩ := reserveSource reserve
    exact .cons planned ((ih rest).imp fun _ _ planned => planned.subset (List.subset_cons_self _ _))

theorem staleSource {store request stale} (ok : loadStaleActiveTables platform store request = .ok stale) :
    ∀ entry ∈ stale, ⟨entry.target,entry.record⟩ ∈ store.managedTables ∧
      entry.record.pipelineId = request.fence.pipelineId ∧ entry.record.state = .active ∧
      ∀ table ∈ request.tables, table.target ≠ entry.target := by
  obtain ⟨found,each,ok⟩ := bindOk.mp ok
  cases Except.ok.inj ok
  intro entry mem
  obtain ⟨_,produced,rfl⟩ := List.mem_filterMap.mp mem
  obtain ⟨row,listed,ok⟩ := relatedMem (mapMOk.mp each) produced
  obtain ⟨known,selected⟩ := List.mem_filter.mp ((List.mem_insertionSort _).mp listed)
  simp only [decide_eq_true_eq] at selected
  simp only [staleActive] at ok
  split at ok
  · cases Except.ok.inj ok
  · rename_i foreign
    obtain ⟨_,_,ok⟩ := bindOk.mp ok
    split at ok
    · contradiction
    · cases Except.ok.inj ok
      refine ⟨known,selected.1,selected.2,fun table here same => ?_⟩
      exact foreign (List.any_eq_true.mpr ⟨table,here,by simpa using same⟩)

theorem requiredState {table record expected} (ok : requireState table record expected = .ok ()) :
    record.state = expected := by
  unfold requireState at ok
  split at ok <;> first | assumption | contradiction

theorem managedIdentity {table record pipeline source} (ok : validateManagedIdentity table record pipeline source = .ok ()) :
    record.pipelineId = pipeline ∧ record.sourceRelationId = source := by
  obtain ⟨owner,ok⟩ := iteOk.mp ok
  obtain ⟨same,_⟩ := iteOk.mp ok
  push Not at owner same
  exact ⟨owner,same⟩

theorem classifiedTarget {request table state found} (ok : classifyTarget request table state = .ok found) :
    (found = none ∧ state = .vacant) ∨ ∃ record, found = some record ∧ state = .managed record ∧
      record.pipelineId = request.fence.pipelineId ∧ record.sourceRelationId = table.sourceRelationId ∧
      record.state = .active := by
  cases state with
  | vacant => exact .inl ⟨(Except.ok.inj ok).symm,rfl⟩
  | unmanaged => contradiction
  | managedObjectMissing _ => contradiction
  | managed record =>
    obtain ⟨_,identity,ok⟩ := bindOk.mp ok
    obtain ⟨_,_,ok⟩ := bindOk.mp ok
    obtain ⟨_,required,ok⟩ := bindOk.mp ok
    obtain ⟨owner,source⟩ := managedIdentity identity
    exact .inr ⟨record,(Except.ok.inj ok).symm,rfl,owner,source,requiredState required⟩

theorem classifiedShadow {request table state found} (ok : classifyShadow request table state = .ok found) :
    (found = none ∧ state = .vacant) ∨ ∃ record, found = some record ∧ state = .managed record ∧
      record.pipelineId = request.fence.pipelineId ∧ record.state = .shadow ∧
      matchesActivation record table request.snapshotGroupId := by
  cases state with
  | vacant => exact .inl ⟨(Except.ok.inj ok).symm,rfl⟩
  | unmanaged => contradiction
  | managedObjectMissing _ => contradiction
  | managed record =>
    obtain ⟨_,identity,ok⟩ := bindOk.mp ok
    obtain ⟨_,_,ok⟩ := bindOk.mp ok
    obtain ⟨_,required,ok⟩ := bindOk.mp ok
    obtain ⟨group,ok⟩ := iteOk.mp ok
    obtain ⟨generation,ok⟩ := iteOk.mp ok
    obtain ⟨fingerprint,ok⟩ := iteOk.mp ok
    obtain ⟨owner,source⟩ := managedIdentity identity
    push Not at group generation fingerprint
    exact .inr ⟨record,(Except.ok.inj ok).symm,rfl,owner,requiredState required,
      by simp [matchesActivation,group,generation,fingerprint,source]⟩

structure Waiting (store : Store) (request : SnapshotActivationRequest) (table : SnapshotActivationTable)
    (shadow : ManagedTableRecord) (previous : Option ManagedTableRecord) : Prop where
  found : loadRelationState store table.shadow = .managed shadow
  state : shadow.state = .shadow
  owner : shadow.pipelineId = request.fence.pipelineId
  matching : matchesActivation shadow table request.snapshotGroupId
  free : previous = none → loadRelationState store table.target = .vacant
  replaced : ∀ record, previous = some record → loadRelationState store table.target = .managed record ∧
    record.state = .active ∧ record.pipelineId = request.fence.pipelineId

theorem pendingSource {store request table shadow previous}
    (ok : classifyStored store request table = .ok (.pending shadow previous)) :
    Waiting store request table shadow previous := by
  obtain ⟨active,target,ok⟩ := bindOk.mp ok
  obtain ⟨found,classified,ok⟩ := bindOk.mp ok
  rcases classifiedShadow classified with ⟨rfl,_⟩ | ⟨record,rfl,state,owner,kind,matching⟩
  · cases active with
    | none => contradiction
    | some record => simp only at ok; split at ok <;> simp at ok
  · rcases classifiedTarget target with ⟨rfl,vacant⟩ | ⟨old,rfl,managed,owner',_,kind'⟩
    · cases Except.ok.inj ok
      exact ⟨state,kind,owner,matching,fun _ => vacant,nofun⟩
    · obtain ⟨_,ok⟩ := iteOk.mp ok
      obtain ⟨_,ok⟩ := iteOk.mp ok
      cases Except.ok.inj ok
      refine ⟨state,kind,owner,matching,nofun,fun record same => ?_⟩
      cases Option.some.inj same
      exact ⟨managed,kind',owner'⟩

theorem activeTable {store request table} (ok : classifyStored store request table = .ok .active) :
    loadRelationState store table.shadow = .vacant ∧ ∃ record, loadRelationState store table.target = .managed record ∧
      record.pipelineId = request.fence.pipelineId ∧ record.state = .active ∧
      matchesActivation record table request.snapshotGroupId := by
  obtain ⟨active,target,ok⟩ := bindOk.mp ok
  obtain ⟨found,classified,ok⟩ := bindOk.mp ok
  rcases classifiedTarget target with ⟨rfl,_⟩ | ⟨old,rfl,managed,owner,_,kind⟩
  · cases found with
    | none => contradiction
    | some record => cases Except.ok.inj ok
  · rcases classifiedShadow classified with ⟨rfl,vacant⟩ | ⟨record,rfl,_⟩
    · simp only at ok
      split at ok
      · rename_i matching
        exact ⟨vacant,old,managed,owner,kind,matching⟩
      · contradiction
    · obtain ⟨_,ok⟩ := iteOk.mp ok
      obtain ⟨_,ok⟩ := iteOk.mp ok
      cases Except.ok.inj ok

theorem noneActive {states : List TableActivationState} (ok : groupIsActive states = .ok false) :
    ∀ state ∈ states, state ≠ .active := by
  simp only [groupIsActive] at ok
  split at ok
  · cases Except.ok.inj ok
  · split at ok <;> try contradiction
    rename_i none'
    intro state mem same
    have listed : state ∈ states.filter (fun state => state = .active) := List.mem_filter.mpr ⟨mem,by simp [same]⟩
    rw [List.length_eq_zero_iff.mp none'] at listed
    contradiction

structure Activated (platform : Platform) (request : SnapshotActivationRequest) (target target' : Target) : Prop where
  loading : loadSnapshotGroup platform target.store request.snapshotGroupId = .ok ⟨.loading,request⟩
  serve : ∀ table ∈ request.tables, Serves request.fence request.snapshotGroupId target'.store table
  marked : ∃ store, SameManifests target.store store ∧
    markSnapshotGroupActive store request.snapshotGroupId = .ok target'.store
  advanced : request.initialCheckpoints.foldlM (advanceBoundary request.fence) target.checkpoints =
    .ok target'.checkpoints

theorem markedServes {fence : PipelineFence} {group : Uuid} {store store' : Store} {table}
    (ok : markSnapshotGroupActive store group = .ok store') (serves : Serves fence group store table) :
    Serves fence group store' table := by
  obtain ⟨_,_,ok⟩ := bindOk.mp ok
  cases Except.ok.inj ok
  exact serves.same rfl rfl

theorem pendingReady {store request states reserved promotions reserved'}
    (canonical : canonicalRequest request = .ok request)
    (classified : request.tables.mapM (classifyStored store request) = .ok states)
    (pending : ∀ state ∈ states, state ≠ .active) (reserves : relationNames request.tables ⊆ reserved)
    (preflight : preflightPromotions platform store (request.tables.zip states) reserved = .ok (promotions,reserved')) :
    promotions.map Promotion.table = request.tables ∧ reserved ⊆ reserved' ∧
    ∀ promotion ∈ promotions, Ready request promotion := by
  have source := canonicalSource canonical
  have related := mapMOk.mp classified
  have pendingPairs : ∀ pair ∈ request.tables.zip states, pair.2 ≠ .active :=
    fun pair mem => pending pair.2 (List.of_mem_zip mem).2
  obtain ⟨tables,kept,each⟩ := promotionsPlanned _ pendingPairs preflight
  rw [List.map_fst_zip (by rw [related.length_eq])] at tables
  refine ⟨tables,kept,fun promotion mem => ?_⟩
  obtain ⟨previous,paired,fresh,replaced⟩ := each promotion mem
  have member := (List.of_mem_zip paired).1
  have waiting := pendingSource (List.forall₂_iff_zip.mp related |>.2 paired)
  refine ⟨member,source.eachTable _ member,waiting.owner,waiting.matching,fun plan same => ?_⟩
  cases previous with
  | none =>
    rw [fresh rfl] at same
    contradiction
  | some record =>
    obtain ⟨other,found,planned⟩ := replaced record rfl
    cases Option.some.inj (found.symm.trans same)
    exact ⟨planned.original,planned.schema,fun mem => planned.reserved (reserves mem)⟩

theorem staleReady {store request stale reserved plans} (listed : loadStaleActiveTables platform store request = .ok stale)
    (reserves : relationNames request.tables ++ stale.map StaleActiveTable.target ⊆ reserved)
    (planned : List.Forall₂ (fun entry plan => Planned platform store reserved entry.target entry.record plan) stale plans) :
    ∀ plan ∈ plans, (∀ table ∈ request.tables, table.target ≠ plan.original) ∧
      plan.quarantine.schema = plan.original.schema ∧ plan.original ≠ plan.quarantine ∧
      plan.quarantine ∉ relationNames request.tables := by
  intro plan mem
  obtain ⟨entry,known,planned⟩ := relatedMem planned mem
  have foreign := (staleSource listed entry known).2.2.2
  rw [planned.original]
  refine ⟨foreign,planned.schema,fun same => ?_,fun mem => ?_⟩
  · exact planned.reserved (reserves (List.mem_append_right _ (same ▸ List.mem_map_of_mem known)))
  · exact planned.reserved (reserves (List.mem_append_left _ mem))

theorem pendingServe {now target request states stale outcome target'}
    (canonical : canonicalRequest request = .ok request)
    (classified : request.tables.mapM (classifyStored target.store request) = .ok states)
    (pending : ∀ state ∈ states, state ≠ .active)
    (listed : loadStaleActiveTables platform target.store request = .ok stale)
    (ok : activatePending platform now target request states stale
      (relationNames request.tables ++ stale.map StaleActiveTable.target) = .ok (outcome,target')) :
    (∀ table ∈ request.tables, Serves request.fence request.snapshotGroupId target'.store table) ∧
    (∃ store, SameManifests target.store store ∧
      markSnapshotGroupActive store request.snapshotGroupId = .ok target'.store) ∧
    request.initialCheckpoints.foldlM (advanceBoundary request.fence) target.checkpoints = .ok target'.checkpoints := by
  obtain ⟨_,_,ok⟩ := bindOk.mp ok
  obtain ⟨⟨promotions,reserved⟩,preflight,ok⟩ := bindOk.mp ok
  obtain ⟨plans,stalePreflight,ok⟩ := bindOk.mp ok
  obtain ⟨promoted,promotedOk,ok⟩ := bindOk.mp ok
  obtain ⟨quarantined,quarantinedOk,ok⟩ := bindOk.mp ok
  obtain ⟨checkpoints,advanced,ok⟩ := bindOk.mp ok
  obtain ⟨store,marked,ok⟩ := bindOk.mp ok
  cases Except.ok.inj ok
  have source := canonicalSource canonical
  have sorted : sortTables request.tables = request.tables := congrArg (·.tables) source.shape.symm
  obtain ⟨tables,kept,ready⟩ := pendingReady canonical classified pending (List.subset_append_left _ _) preflight
  have distinct : (relationNames (promotions.map Promotion.table)).Nodup := by
    rw [tables,← sorted]
    exact source.names
  obtain ⟨serve,_,manifests⟩ := promotionsServe promotions ready distinct promotedOk
  have serveAll : ∀ table ∈ request.tables, Serves request.fence request.snapshotGroupId promoted table := by
    intro table mem
    rw [← tables] at mem
    obtain ⟨promotion,here,rfl⟩ := List.mem_map.mp mem
    exact serve promotion here
  have planned := staleReady listed kept (stalePlanned stale stalePreflight)
  obtain ⟨serveLast,manifests'⟩ := staleServe plans planned serveAll quarantinedOk
  exact ⟨fun table mem => markedServes marked (serveLast table mem),⟨quarantined,manifests.trans manifests',marked⟩,advanced⟩

structure ActivationChecks (platform : Platform) (target : Target) (request canonical : SnapshotActivationRequest)
    (state : SnapshotGroupState) (states : List TableActivationState) (stale : List StaleActiveTable) : Prop where
  valid : canonicalRequest request = .ok canonical
  locked : lockPipelineFence target.checkpoints canonical.fence = .ok ()
  loaded : loadSnapshotGroup platform target.store canonical.snapshotGroupId = .ok ⟨state,canonical⟩
  classified : canonical.tables.mapM (classifyStored target.store canonical) = .ok states
  listed : loadStaleActiveTables platform target.store canonical = .ok stale

theorem activationSource {now target request outcome target'}
    (ok : activateSnapshotGroup platform now target request = .ok (outcome,target')) :
    ∃ canonical state states stale, ActivationChecks platform target request canonical state states stale ∧
      ((groupIsActive states = .ok true ∧ state = .active ∧ retryActive platform now target canonical stale
          (relationNames canonical.tables ++ stale.map StaleActiveTable.target) = .ok (outcome,target')) ∨
        (groupIsActive states = .ok false ∧ state = .loading ∧ activatePending platform now target canonical states stale
          (relationNames canonical.tables ++ stale.map StaleActiveTable.target) = .ok (outcome,target'))) := by
  obtain ⟨canonical,valid,ok⟩ := bindOk.mp ok
  obtain ⟨_,locked,ok⟩ := bindOk.mp ok
  obtain ⟨stored,loaded,ok⟩ := bindOk.mp ok
  obtain ⟨_,same,ok⟩ := bindOk.mp ok
  obtain ⟨again,validAgain,same⟩ := bindOk.mp same
  cases Except.ok.inj ((canonicalIdempotent valid).symm.trans validAgain)
  split at same <;> try contradiction
  rename_i matching
  cases Except.ok.inj same
  obtain ⟨states,classified,ok⟩ := bindOk.mp ok
  obtain ⟨stale,listed,ok⟩ := bindOk.mp ok
  obtain ⟨active,grouped,ok⟩ := bindOk.mp ok
  obtain ⟨state,kept⟩ := stored
  cases matching
  refine ⟨kept,state,states,stale,⟨valid,mapErrorOk.mp locked,loaded,classified,listed⟩,?_⟩
  cases active with
  | true =>
    simp only [if_true] at ok
    obtain ⟨serving,ok⟩ := iteOk.mp ok
    push Not at serving
    exact .inl ⟨grouped,serving,ok⟩
  | false =>
    simp only [Bool.false_eq_true,if_false] at ok
    obtain ⟨loading,ok⟩ := iteOk.mp ok
    push Not at loading
    exact .inr ⟨grouped,loading,ok⟩

theorem retryOutcome {now target request stale reserved outcome target'}
    (ok : retryActive platform now target request stale reserved = .ok (outcome,target')) :
    outcome.disposition = .alreadyActive := by
  obtain ⟨_,_,ok⟩ := bindOk.mp ok
  obtain ⟨_,_,ok⟩ := bindOk.mp ok
  obtain ⟨_,_,ok⟩ := bindOk.mp ok
  cases Except.ok.inj ok
  rfl

theorem activatedSource {now target request outcome target'}
    (ok : activateSnapshotGroup platform now target request = .ok (outcome,target'))
    (activated : outcome.disposition = .activated) :
    ∃ canonical, canonicalRequest request = .ok canonical ∧ Activated platform canonical target target' := by
  obtain ⟨canonical,state,states,stale,checks,⟨_,_,retry⟩ | ⟨grouped,rfl,pending⟩⟩ := activationSource ok
  · -- a retry reports another disposition
    rw [retryOutcome retry] at activated
    contradiction
  · obtain ⟨serve,marked,advanced⟩ := pendingServe (canonicalIdempotent checks.valid) checks.classified
      (noneActive grouped) checks.listed pending
    exact ⟨canonical,checks.valid,checks.loaded,serve,marked,advanced⟩

end Preflight

end CloudberryEtl.ActivatedGroup
