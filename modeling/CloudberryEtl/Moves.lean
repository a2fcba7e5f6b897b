import CloudberryEtl.RoundTrip

/-! The moves of an activation: a replaced or stale table goes to its quarantine and a loaded shadow takes its target. The
preflight has looked at every name once; the names of two moves differ, so each move finds its tables as they were. -/
namespace CloudberryEtl.Moves
open Schema Change TablePlan StagedApply KeyedTable Result TargetStore Manifest Activation Cleanup ActivatedGroup
open StoreChange Metadata RoundTrip
open Checkpoint hiding databaseGeneration

theorem moveSource {store renamed store' source destination record state token} (apart : destination ≠ source)
    (schema : destination.schema = source.schema) (rename : renameTable store source destination = .ok renamed)
    (relocate : relocateMetadata renamed source destination record state token = .ok store') :
    loadRelationState store destination = .vacant ∧ ∃ relation, store.relations source = some relation ∧
      store' = withTable (withoutTable store source) destination relation
        {record with state := state, fencingToken := token} := by
  obtain ⟨relation,found,empty,rfl⟩ := renameSource schema rename
  obtain ⟨deleted,delete,relocate⟩ := bindOk.mp relocate
  obtain ⟨_,_,relocate⟩ := bindOk.mp relocate
  obtain ⟨_,_,delete⟩ := bindOk.mp delete
  cases Except.ok.inj delete
  obtain ⟨free,relocate⟩ := iteOk.mp relocate
  cases Except.ok.inj relocate
  have rows : store.managedTables.filter (fun row => !decide (row.name = source)) =
      (withoutTable store source).managedTables := by simp [withoutTable]
  have unmanaged : managedRecord (withoutTable store source) destination = none := by
    simpa [managedRecord,putRelation,withoutTable] using free
  rw [recordWithout,if_neg apart] at unmanaged
  refine ⟨loadVacant.mpr ⟨empty,unmanaged⟩,relation,found,?_⟩
  simp [withTable,withoutTable,putRelation]

structure Quarantinable (platform : Platform) (request : SnapshotActivationRequest) (store : Store)
    (plan : QuarantinePlan) : Prop where
  found : managedRecord store plan.original = some plan.record
  state : plan.record.state = .active
  owner : plan.record.pipelineId = request.fence.pipelineId
  named : quarantineName platform plan.original plan.record = .ok plan.quarantine
  apart : plan.quarantine ≠ plan.original
  schema : plan.quarantine.schema = plan.original.schema

structure Frame (touched : List QualifiedName) (store store' : Store) : Prop where
  records : ∀ name, name ∉ touched → managedRecord store' name = managedRecord store name
  manifests : SameManifests store store'

theorem Frame.refl (touched : List QualifiedName) (store : Store) : Frame touched store store :=
  ⟨fun _ _ => rfl,.refl store⟩

theorem Frame.trans {one two : List QualifiedName} {first second third : Store} (here : Frame one first second)
    (there : Frame two second third) : Frame (one ++ two) first third := by
  refine ⟨fun name outside => ?_,here.manifests.trans there.manifests⟩
  rw [List.mem_append,not_or] at outside
  exact (there.records name outside.2).trans (here.records name outside.1)

section Activation
variable {platform : Platform} {now : Nat} {request : SnapshotActivationRequest} {admits : Admission}

theorem quarantineSource {store plan store'} (apart : plan.quarantine ≠ plan.original)
    (schema : plan.quarantine.schema = plan.original.schema) (ok : applyQuarantine now request store plan = .ok store') :
    loadRelationState store plan.quarantine = .vacant ∧ ∃ relation, store.relations plan.original = some relation ∧
      store' = {withTable (withoutTable store plan.original) plan.quarantine relation
        {plan.record with state := .quarantined, fencingToken := request.fence.fencingToken} with
        reconciliationLog := store.reconciliationLog ++
          [reconciliation request.fence request.snapshotGroupId now plan]} := by
  obtain ⟨renamed,rename,ok⟩ := bindOk.mp ok
  obtain ⟨relocated,relocate,ok⟩ := bindOk.mp ok
  obtain ⟨generation,converted,ok⟩ := bindOk.mp ok
  obtain ⟨tableGeneration,converted',ok⟩ := bindOk.mp ok
  obtain ⟨_,ok⟩ := iteOk.mp ok
  cases Except.ok.inj ok
  cases (databaseGenerationOk converted).2
  cases (databaseGenerationOk converted').2
  obtain ⟨vacant,relation,found,rfl⟩ := moveSource apart schema rename relocate
  exact ⟨vacant,relation,found,rfl⟩

theorem quarantineChange {store plan store'} {group : Uuid} (valid : request.snapshotGroupId ≠ Uuid.nil)
    (ready : Quarantinable platform request store plan) (ok : applyQuarantine now request store plan = .ok store') :
    Change platform admits request.fence (some group) store store' ∧ Frame [plan.original,plan.quarantine] store store' := by
  obtain ⟨vacant,relation,found,rfl⟩ := quarantineSource ready.apart ready.schema ok
  refine ⟨.quarantined rfl valid found ready.found ready.state ready.owner ready.named ready.apart vacant,fun name outside => ?_,
    ⟨rfl,rfl,rfl⟩⟩
  simp only [List.mem_cons,List.not_mem_nil,or_false,not_or] at outside
  have free : managedRecord (withoutTable store plan.original) plan.quarantine = none := by
    rw [recordWithout,if_neg ready.apart]
    exact (loadVacant.mp vacant).2
  exact (recordWith free _ relation _).trans (by simp [recordWithout,outside.1,outside.2])

structure Promotable (platform : Platform) (request : SnapshotActivationRequest) (store : Store) (promotion : Promotion) :
    Prop where
  found : managedRecord store promotion.table.shadow = some promotion.shadow
  state : promotion.shadow.state = .shadow
  owner : promotion.shadow.pipelineId = request.fence.pipelineId
  matching : matchesActivation promotion.shadow promotion.table request.snapshotGroupId
  listed : ⟨request.snapshotGroupId,promotion.table⟩ ∈ store.groupTables
  valid : validateTable promotion.table = .ok ()
  replaced : ∀ plan, promotion.replaced = some plan → plan.original = promotion.table.target ∧
    plan.quarantine ≠ promotion.table.shadow ∧ Quarantinable platform request store plan

def touchedBy (promotion : Promotion) : List QualifiedName :=
  (promotion.replaced.map QuarantinePlan.quarantine).toList ++ [promotion.table.target,promotion.table.shadow]

theorem promoteChanges {store promotion store'} (valid : request.snapshotGroupId ≠ Uuid.nil)
    (ready : Promotable platform request store promotion) (ok : promote now request store promotion = .ok store') :
    Changes platform admits request.fence (some request.snapshotGroupId) store store' ∧ Frame (touchedBy promotion) store store' := by
  obtain ⟨apart,schema,renamed⟩ := validTable ready.valid
  obtain ⟨middle,promoted,replaced,promoteOk,ok⟩ := promoteSource ok
  rw [promoteShadow,if_pos renamed] at promoteOk
  obtain ⟨vacant,relation,found,rfl⟩ := moveSource apart schema promoteOk ok
  have first : Changes platform admits request.fence (some request.snapshotGroupId) store middle ∧
      Frame ((promotion.replaced.map QuarantinePlan.quarantine).toList ++ [promotion.table.target]) store middle ∧
      managedRecord middle promotion.table.shadow = managedRecord store promotion.table.shadow := by
    cases replaced with
    | fresh => exact ⟨.refl,.refl _ _,rfl⟩
    | quarantined given quarantined =>
      rename_i plan
      obtain ⟨original,other,quarantinable⟩ := ready.replaced plan given
      obtain ⟨change,frame⟩ := quarantineChange valid quarantinable quarantined
      refine ⟨.single change,⟨fun name outside => frame.records name ?_,frame.manifests⟩,frame.records _ ?_⟩
      · simpa [given,original,and_comm,or_comm] using outside
      · simpa [original,apart.symm] using other.symm
  have free : managedRecord (withoutTable middle promotion.table.shadow) promotion.table.target = none := by
    rw [recordWithout,if_neg apart]
    exact (loadVacant.mp vacant).2
  have second : Change platform admits request.fence (some request.snapshotGroupId) middle
      (withTable (withoutTable middle promotion.table.shadow) promotion.table.target relation
        {promotion.shadow with state := .active, fencingToken := request.fence.fencingToken}) := by
    refine .promoted rfl ?_ found (first.2.2.trans ready.found) ready.state ready.owner ready.matching apart vacant
    rw [first.2.1.manifests.tables]
    exact ready.listed
  refine ⟨first.1.tail second,fun name outside => ?_,first.2.1.manifests.trans ⟨rfl,rfl,rfl⟩⟩
  simp only [touchedBy,List.mem_append,List.mem_cons,List.not_mem_nil,or_false,not_or] at outside
  rw [recordWith free,if_neg outside.2.1,recordWithout,if_neg outside.2.2]
  exact first.2.1.records name (by simp [outside.1,outside.2.1])

theorem promotionsChange (valid : request.snapshotGroupId ≠ Uuid.nil) (promotions : List Promotion) : ∀ {store store'},
    (∀ promotion ∈ promotions, Promotable platform request store promotion) →
    (relationNames (promotions.map Promotion.table)).Nodup →
    (∀ promotion ∈ promotions, ∀ plan, promotion.replaced = some plan →
      plan.quarantine ∉ relationNames (promotions.map Promotion.table)) →
    promotions.foldlM (promote now request) store = .ok store' →
    Changes platform admits request.fence (some request.snapshotGroupId) store store' ∧
      Frame (promotions.flatMap touchedBy) store store' := by
  -- The promotions one after the other: a later one finds its names as the preflight has seen them.
  induction promotions with
  | nil =>
    intro store store' _ _ _ ok
    cases Except.ok.inj ok
    exact ⟨.refl,.refl _ _⟩
  | cons promotion promotions ih =>
    intro store store' ready distinct reserved ok
    obtain ⟨middle,first,rest⟩ := bindOk.mp ok
    obtain ⟨changes,frame⟩ := promoteChanges valid (ready promotion (by simp)) first
    have split : relationNames ((promotion :: promotions).map Promotion.table) =
        [promotion.table.target,promotion.table.shadow] ++ relationNames (promotions.map Promotion.table) := rfl
    have distinct' := distinct
    rw [split] at distinct'
    obtain ⟨_,distinct',disjoint⟩ := List.nodup_append.mp distinct'
    have outside : ∀ name ∈ relationNames (promotions.map Promotion.table), name ∉ touchedBy promotion := by
      intro name mem touched
      rcases List.mem_append.mp touched with quarantine | own
      · obtain ⟨plan,given,rfl⟩ := Option.map_eq_some_iff.mp (Option.mem_toList.mp quarantine)
        exact reserved promotion (by simp) plan given (split ▸ List.mem_append_right _ mem)
      · exact disjoint _ own _ mem rfl
    have ready' : ∀ other ∈ promotions, Promotable platform request middle other := by
      intro other mem
      have before := ready other (by simp [mem])
      have member : other.table ∈ promotions.map Promotion.table := List.mem_map_of_mem mem
      refine {before with
        found := (frame.records _ (outside _ (shadowNamed member))).trans before.found
        listed := by rw [frame.manifests.tables]; exact before.listed
        replaced := fun plan given => ?_}
      obtain ⟨original,apart,quarantinable⟩ := before.replaced plan given
      refine ⟨original,apart,{quarantinable with found := ?_}⟩
      rw [original,frame.records _ (outside _ (targetNamed member)),← original]
      exact quarantinable.found
    obtain ⟨changes',frame'⟩ := ih ready' distinct' (fun other mem plan given member =>
      reserved other (by simp [mem]) plan given (split ▸ List.mem_append_right _ member)) rest
    exact ⟨changes.trans changes',frame.trans frame'⟩

theorem quarantinesChange {group : Uuid} (valid : request.snapshotGroupId ≠ Uuid.nil) (plans : List QuarantinePlan) :
    ∀ {store store'}, (∀ plan ∈ plans, Quarantinable platform request store plan) →
    (plans.map QuarantinePlan.original).Nodup →
    (∀ plan ∈ plans, plan.quarantine ∉ plans.map QuarantinePlan.original) →
    plans.foldlM (applyQuarantine now request) store = .ok store' →
    Changes platform admits request.fence (some group) store store' ∧
      Frame (plans.flatMap fun plan => [plan.original,plan.quarantine]) store store' := by
  induction plans with
  | nil =>
    intro store store' _ _ _ ok
    cases Except.ok.inj ok
    exact ⟨.refl,.refl _ _⟩
  | cons plan plans ih =>
    intro store store' ready distinct reserved ok
    obtain ⟨middle,first,rest⟩ := bindOk.mp ok
    obtain ⟨change,frame⟩ := quarantineChange valid (ready plan (by simp)) first
    obtain ⟨apart,distinct⟩ := List.nodup_cons.mp distinct
    have ready' : ∀ other ∈ plans, Quarantinable platform request middle other := by
      intro other mem
      have before := ready other (by simp [mem])
      have named : other.original ∈ plans.map QuarantinePlan.original := List.mem_map_of_mem mem
      refine {before with found := (frame.records _ ?_).trans before.found}
      simp only [List.mem_cons,List.not_mem_nil,or_false,not_or]
      refine ⟨fun same => apart (same ▸ named),fun same => ?_⟩
      exact reserved plan (by simp) (by rw [← same]; exact List.mem_cons_of_mem _ named)
    obtain ⟨changes,frame'⟩ := ih ready' distinct (fun other mem member =>
      reserved other (by simp [mem]) (List.mem_cons_of_mem _ member)) rest
    exact ⟨.head change changes,frame.trans frame'⟩

theorem staleSublist {store request} {rows : List ManagedTable} {found : List (Option StaleActiveTable)}
    (each : List.Forall₂ (fun row entry => staleActive request store row = .ok entry) rows found) :
    ((found.filterMap id).map StaleActiveTable.target).Sublist (rows.map ManagedTable.name) := by
  induction each with
  | nil => exact List.Sublist.slnil
  | cons here _ ih =>
    unfold staleActive at here
    split at here
    · cases Except.ok.inj here
      exact ih.cons _
    · obtain ⟨_,_,here⟩ := bindOk.mp here
      split at here
      · contradiction
      · cases Except.ok.inj here
        exact ih.cons_cons _

theorem staleDistinct {store request stale} (names : UniqueKeys ManagedTable.name store.managedTables)
    (ok : loadStaleActiveTables platform store request = .ok stale) : (stale.map StaleActiveTable.target).Nodup := by
  obtain ⟨found,each,ok⟩ := bindOk.mp ok
  cases Except.ok.inj ok
  refine List.Nodup.sublist (staleSublist (mapMOk.mp each)) ?_
  refine (((List.perm_insertionSort _ _).map ManagedTable.name).nodup_iff).mpr ?_
  exact names.filter _

theorem staleOriginals {store reserved stale plans}
    (planned : List.Forall₂ (fun entry plan => Planned platform store reserved entry.target entry.record plan) stale plans) :
    plans.map QuarantinePlan.original = stale.map StaleActiveTable.target := by
  induction planned with
  | nil => rfl
  | cons here _ ih => rw [List.map_cons,List.map_cons,ih,here.original]

theorem staleQuarantinable {store reserved stale plans transit} {fences : PipelineId → Option StoredFence}
    (sound : Sound platform fences transit store)
    (listed : loadStaleActiveTables platform store request = .ok stale)
    (reserves : stale.map StaleActiveTable.target ⊆ reserved)
    (planned : List.Forall₂ (fun entry plan => Planned platform store reserved entry.target entry.record plan) stale plans) :
    ∀ plan ∈ plans, Quarantinable platform request store plan := by
  intro plan mem
  obtain ⟨entry,known,here⟩ := relatedMem planned mem
  obtain ⟨row,owner,state,_⟩ := staleSource listed entry known
  refine ⟨?_,by rw [here.record]; exact state,by rw [here.record]; exact owner,?_,fun same => ?_,?_⟩
  · rw [here.original,here.record]
    exact (recordIff sound.names).mpr row
  · rw [here.original,here.record]
    exact here.named
  · rw [here.original] at same
    exact here.reserved (reserves (same ▸ List.mem_map_of_mem known))
  · rw [here.original]
    exact here.schema

theorem staleChanges {target : Target} {stale reserved plans store'} {group : Uuid} {fences : PipelineId → Option StoredFence}
    (valid : request.snapshotGroupId ≠ Uuid.nil) (sound : Sound platform fences (some group) target.store)
    (listed : loadStaleActiveTables platform target.store request = .ok stale)
    (reserves : stale.map StaleActiveTable.target ⊆ reserved)
    (planned : List.Forall₂ (fun entry plan => Planned platform target.store reserved entry.target entry.record plan)
      stale plans) {store : Store}
    (untouched : ∀ name ∈ stale.map StaleActiveTable.target, managedRecord store name = managedRecord target.store name)
    (ok : plans.foldlM (applyQuarantine now request) store = .ok store') :
    Changes platform admits request.fence (some group) store store' ∧
      Frame (plans.flatMap fun plan => [plan.original,plan.quarantine]) store store' := by
  have originals := staleOriginals planned
  refine quarantinesChange valid plans (fun plan mem => ?_) ?_ (fun plan mem member => ?_) ok
  · have ready := staleQuarantinable sound listed reserves planned plan mem
    have named : plan.original ∈ stale.map StaleActiveTable.target := originals ▸ List.mem_map_of_mem mem
    exact {ready with found := (untouched _ named).trans ready.found}
  · rw [originals]
    exact staleDistinct sound.names listed
  · obtain ⟨entry,known,here⟩ := relatedMem planned mem
    exact here.reserved (reserves (originals ▸ member))

theorem pendingPromotable {target : Target} {header states reserved promotions reserved'} {canonical}
    (manifest : Stored platform target.store header canonical)
    (classified : canonical.tables.mapM (classifyStored target.store canonical) = .ok states)
    (grouped : groupIsActive states = .ok false) (reserves : relationNames canonical.tables ⊆ reserved)
    (preflight : preflightPromotions platform target.store (canonical.tables.zip states) reserved =
      .ok (promotions,reserved')) :
    promotions.map Promotion.table = canonical.tables ∧ reserved ⊆ reserved' ∧
    ∀ promotion ∈ promotions, Promotable platform canonical target.store promotion ∧
      ∀ plan, promotion.replaced = some plan → plan.quarantine ∉ reserved := by
  have source := canonicalSource manifest.canonical
  have related := mapMOk.mp classified
  have pendingPairs : ∀ pair ∈ canonical.tables.zip states, pair.2 ≠ .active :=
    fun pair mem => noneActive grouped pair.2 (List.of_mem_zip mem).2
  obtain ⟨tables,kept,each⟩ := promotionsPlanned _ pendingPairs preflight
  rw [List.map_fst_zip (by rw [related.length_eq])] at tables
  refine ⟨tables,kept,fun promotion mem => ?_⟩
  obtain ⟨previous,paired,fresh,replaced⟩ := each promotion mem
  have member := (List.of_mem_zip paired).1
  have waiting := pendingSource (List.forall₂_iff_zip.mp related |>.2 paired)
  have planned : ∀ plan, promotion.replaced = some plan → ∃ record, previous = some record ∧
      Planned platform target.store reserved promotion.table.target record plan := by
    intro plan same
    cases previous with
    | none =>
      rw [fresh rfl] at same
      contradiction
    | some record =>
      obtain ⟨other,found,planned⟩ := replaced record rfl
      cases Option.some.inj (found.symm.trans same)
      exact ⟨record,rfl,planned⟩
  refine ⟨⟨(loadManaged.mp waiting.found).2,waiting.state,waiting.owner,waiting.matching,?_,source.eachTable _ member,
    fun plan same => ?_⟩,fun plan same => ?_⟩
  · rw [← manifest.group]
    exact manifest.listed.mpr member
  · obtain ⟨record,rfl,here⟩ := planned plan same
    obtain ⟨managed,state,owner⟩ := waiting.replaced record rfl
    refine ⟨here.original,fun shadow => here.reserved (reserves (shadow ▸ shadowNamed member)),?_⟩
    refine ⟨?_,by rw [here.record]; exact state,by rw [here.record]; exact owner,?_,fun other => ?_,?_⟩
    · rw [here.original,here.record]
      exact (loadManaged.mp managed).2
    · rw [here.original,here.record]
      exact here.named
    · rw [here.original] at other
      exact here.reserved (reserves (other ▸ targetNamed member))
    · rw [here.original]
      exact here.schema
  · obtain ⟨record,_,here⟩ := planned plan same
    exact here.reserved

end Activation

end CloudberryEtl.Moves
