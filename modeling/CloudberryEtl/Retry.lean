import CloudberryEtl.Reachable

/-! An activation from any reachable state: it fails and changes nothing, or it serves every table of its group,
quarantines every other active table of the pipeline and sets the boundaries. A second activation with the same request
finds all of that and changes nothing more. -/
namespace CloudberryEtl.Retry
open Schema Change TablePlan StagedApply KeyedTable Result TargetStore Manifest ShadowLoad Activation Cleanup Fencing
open ActivatedGroup Maintenance StoreChange Metadata RoundTrip Moves Transactions Reachable
open Checkpoint hiding databaseGeneration

section Effects
variable {now : Nat} {request : SnapshotActivationRequest}

structure LeftBy (now : Nat) (request : SnapshotActivationRequest) (plans : List QuarantinePlan) (store store' : Store) :
    Prop where
  log : store'.reconciliationLog =
    store.reconciliationLog ++ plans.map (reconciliation request.fence request.snapshotGroupId now)
  actives : ∀ row ∈ store'.managedTables, row.record.state = .active →
    row ∈ store.managedTables ∧ row.name ∉ plans.map QuarantinePlan.original

theorem quarantineLeft {store plan store'} (apart : plan.quarantine ≠ plan.original)
    (schema : plan.quarantine.schema = plan.original.schema) (ok : applyQuarantine now request store plan = .ok store') :
    LeftBy now request [plan] store store' := by
  obtain ⟨_,relation,_,rfl⟩ := quarantineSource apart schema ok
  refine ⟨rfl,fun row mem active => ?_⟩
  rcases List.mem_append.mp mem with kept | added
  · obtain ⟨mem,outside⟩ := memWithout.mp kept
    exact ⟨mem,by simpa using outside⟩
  · rw [List.mem_singleton.mp added] at active
    contradiction

theorem quarantinesLeft (plans : List QuarantinePlan) : ∀ {store store'},
    (∀ plan ∈ plans, plan.quarantine ≠ plan.original ∧ plan.quarantine.schema = plan.original.schema) →
    plans.foldlM (applyQuarantine now request) store = .ok store' → LeftBy now request plans store store' := by
  induction plans with
  | nil =>
    intro store store' _ ok
    cases Except.ok.inj ok
    exact ⟨by simp,fun row mem _ => ⟨mem,by simp⟩⟩
  | cons plan plans ih =>
    intro store store' ready ok
    obtain ⟨middle,first,rest⟩ := bindOk.mp ok
    obtain ⟨apart,schema⟩ := ready plan (by simp)
    have here := quarantineLeft apart schema first
    have there := ih (fun other mem => ready other (by simp [mem])) rest
    refine ⟨by rw [there.log,here.log,List.append_assoc]; rfl,fun row mem active => ?_⟩
    obtain ⟨mem,outside⟩ := there.actives row mem active
    obtain ⟨mem,apart⟩ := here.actives row mem active
    simp only [List.map_cons,List.map_nil,List.mem_singleton] at apart
    exact ⟨mem,by simp only [List.map_cons,List.mem_cons,not_or]; exact ⟨apart,outside⟩⟩

structure PromotedBy (now : Nat) (request : SnapshotActivationRequest) (promotions : List Promotion) (store store' : Store) :
    Prop where
  log : store'.reconciliationLog = store.reconciliationLog ++
    (promotions.filterMap Promotion.replaced).map (reconciliation request.fence request.snapshotGroupId now)
  actives : ∀ row ∈ store'.managedTables, row.record.state = .active →
    row ∈ store.managedTables ∨ row.name ∈ promotions.map (fun promotion => promotion.table.target)

theorem promotePromoted {store promotion store'} (ready : Ready request promotion)
    (ok : promote now request store promotion = .ok store') : PromotedBy now request [promotion] store store' := by
  obtain ⟨apart,schema,renamed⟩ := validTable ready.valid
  obtain ⟨middle,promoted,replaced,promoteOk,ok⟩ := promoteSource ok
  rw [promoteShadow,if_pos renamed] at promoteOk
  obtain ⟨_,relation,_,rfl⟩ := moveSource apart schema promoteOk ok
  have first : middle.reconciliationLog = store.reconciliationLog ++
      ([promotion].filterMap Promotion.replaced).map (reconciliation request.fence request.snapshotGroupId now) ∧
      ∀ row ∈ middle.managedTables, row.record.state = .active → row ∈ store.managedTables := by
    cases replaced with
    | fresh given => exact ⟨by simp [given],fun row mem _ => mem⟩
    | quarantined given quarantined =>
      rename_i plan
      obtain ⟨original,schema,reserved⟩ := ready.replaced plan given
      have left := quarantineLeft (fun same => reserved (same.trans original ▸ targetNamed ready.member))
        (schema.trans (congrArg _ original.symm)) quarantined
      exact ⟨by simp [given,left.log],fun row mem active => (left.actives row mem active).1⟩
  refine ⟨first.1,fun row mem active => ?_⟩
  rcases List.mem_append.mp mem with kept | added
  · exact .inl (first.2 row (memWithout.mp kept).1 active)
  · rw [List.mem_singleton.mp added]
    simp

theorem promotionsPromoted (promotions : List Promotion) : ∀ {store store'},
    (∀ promotion ∈ promotions, Ready request promotion) →
    promotions.foldlM (promote now request) store = .ok store' → PromotedBy now request promotions store store' := by
  induction promotions with
  | nil =>
    intro store store' _ ok
    cases Except.ok.inj ok
    exact ⟨by simp,fun row mem _ => .inl mem⟩
  | cons promotion promotions ih =>
    intro store store' ready ok
    obtain ⟨middle,first,rest⟩ := bindOk.mp ok
    have here := promotePromoted (ready promotion (by simp)) first
    have there := ih (fun other mem => ready other (by simp [mem])) rest
    refine ⟨?_,fun row mem active => ?_⟩
    · rw [there.log,here.log,List.append_assoc,← List.map_append,← List.filterMap_append]
      rfl
    · rcases there.actives row mem active with mem | later
      · rcases here.actives row mem active with mem | own
        · exact .inl mem
        · exact .inr (by simp_all)
      · exact .inr (by simp_all)

end Effects

section Checkpoints
variable {fence : PipelineFence}

theorem advancedOther {key : CheckpointKey} (boundaries : List NodeCheckpoint) : ∀ {tables tables'},
    boundaries.foldlM (advanceBoundary fence) tables = .ok tables' → (∀ boundary ∈ boundaries, boundary.key ≠ key) →
    tables'.nodeCheckpoints key = tables.nodeCheckpoints key := by
  induction boundaries with
  | nil =>
    intro tables tables' ok _
    cases Except.ok.inj ok
    rfl
  | cons head boundaries ih =>
    intro tables tables' ok apart
    obtain ⟨middle,first,rest⟩ := bindOk.mp ok
    obtain ⟨⟨_,_⟩,moved,result⟩ := bindOk.mp first
    cases Except.ok.inj result
    rw [ih rest (fun boundary mem => apart boundary (by simp [mem]))]
    exact advanceElsewhere (mapErrorOk.mp moved) (apart head (by simp)).symm

theorem advancedSet (boundaries : List NodeCheckpoint) : ∀ {tables tables'},
    boundaries.Pairwise (fun left right => left.key ≠ right.key) →
    boundaries.foldlM (advanceBoundary fence) tables = .ok tables' →
    ∀ boundary ∈ boundaries, tables'.nodeCheckpoints boundary.key = some ⟨boundary,fence.fencingToken⟩ := by
  induction boundaries with
  | nil => simp
  | cons head boundaries ih =>
    intro tables tables' distinct ok boundary mem
    obtain ⟨apart,distinct⟩ := List.pairwise_cons.mp distinct
    obtain ⟨middle,first,rest⟩ := bindOk.mp ok
    rcases List.mem_cons.mp mem with rfl | mem
    · obtain ⟨⟨_,_⟩,moved,result⟩ := bindOk.mp first
      cases Except.ok.inj result
      rw [advancedOther boundaries rest (fun other mem => (apart other mem).symm)]
      exact advanceWritten (mapErrorOk.mp moved)
    · exact ih distinct rest boundary mem

theorem nodesDistinct (boundaries : List NodeCheckpoint)
    (sorted : boundaries.Pairwise (fun left right => left.key.nodeId ≤ right.key.nodeId))
    (adjacent : adjacentSame (fun left right => left.key.nodeId = right.key.nodeId) boundaries = false) :
    boundaries.Pairwise (fun left right => left.key.nodeId < right.key.nodeId) := by
  induction boundaries with
  | nil => exact .nil
  | cons head boundaries ih =>
    obtain ⟨first,rest⟩ := List.pairwise_cons.mp sorted
    cases boundaries with
    | nil => exact List.pairwise_singleton _ _
    | cons second boundaries =>
      simp only [adjacentSame,Bool.or_eq_false_iff,decide_eq_false_iff_not] at adjacent
      have later := ih rest adjacent.2
      have next : head.key.nodeId < second.key.nodeId := lt_of_le_of_ne (first second (by simp)) adjacent.1
      refine List.pairwise_cons.mpr ⟨fun other mem => ?_,later⟩
      rcases List.mem_cons.mp mem with rfl | mem
      · exact next
      · exact lt_trans next ((List.pairwise_cons.mp later).1 other mem)

theorem boundariesDistinct {request} (canonical : canonicalRequest request = .ok request) :
    request.initialCheckpoints.Pairwise (fun left right => left.key ≠ right.key) := by
  let relation := fun (left right : NodeCheckpoint) => left.key.nodeId ≤ right.key.nodeId
  have total : Std.Total relation := ⟨fun left right => le_total left.key.nodeId right.key.nodeId⟩
  have transitive : IsTrans NodeCheckpoint relation := ⟨fun _ _ _ => le_trans⟩
  have sorted : (sortBoundaries request.initialCheckpoints).Pairwise relation := List.pairwise_insertionSort relation _
  have distinct := nodesDistinct _ sorted (canonicalSource canonical).nodes
  rw [(canonicalSortedTables canonical).2] at distinct
  exact distinct.imp fun less same => absurd (congrArg CheckpointKey.nodeId same) (ne_of_lt less)

def Reached (checkpoints : CheckpointTables) (boundary : NodeCheckpoint) : Prop :=
  ∃ stored, checkpoints.nodeCheckpoints boundary.key = some stored ∧ stored.checkpoint.key = boundary.key ∧
    stored.checkpoint.systemIdentifier = boundary.systemIdentifier ∧ stored.checkpoint.timeline = boundary.timeline ∧
    stored.checkpoint.slotName = boundary.slotName ∧ boundary.appliedLsn ≤ stored.checkpoint.appliedLsn

theorem verifySource {checkpoints boundary} (ok : verifyRetryCheckpoint checkpoints boundary = .ok ()) :
    Reached checkpoints boundary := by
  obtain ⟨current,loaded,ok⟩ := bindOk.mp ok
  obtain ⟨reached,compared,ok⟩ := bindOk.mp ok
  obtain ⟨_,_,loaded⟩ := bindOk.mp (mapErrorOk.mp loaded)
  obtain ⟨_,_,compared⟩ := bindOk.mp (mapErrorOk.mp compared)
  cases Except.ok.inj loaded
  cases found : checkpoints.nodeCheckpoints boundary.key with
  | none =>
    rw [found] at compared
    cases Except.ok.inj compared
    simp at ok
  | some stored =>
    rw [found] at compared
    obtain ⟨_,identity,compared⟩ := bindOk.mp compared
    cases Except.ok.inj compared
    unfold ensureSameIdentity at identity
    split at identity <;> try contradiction
    rename_i same
    have reached := (iteOk.mp ok).1
    simp only [decide_eq_true_eq,not_not] at reached
    exact ⟨stored,found,same.1,same.2.1,same.2.2.1,same.2.2.2,reached⟩

end Checkpoints

section Outcome
variable {platform : Platform} {fences : PipelineId → Option StoredFence} {now : Nat}

structure Leaving (store : Store) (request : SnapshotActivationRequest) (plans : List QuarantinePlan) : Prop where
  each : ∀ plan ∈ plans, ⟨plan.original,plan.record⟩ ∈ store.managedTables ∧ plan.record.state = .active ∧
    plan.record.pipelineId = request.fence.pipelineId
  all : ∀ row ∈ store.managedTables, row.record.pipelineId = request.fence.pipelineId → row.record.state = .active →
    (∃ table ∈ request.tables, table.target = row.name ∧ matchesActivation row.record table request.snapshotGroupId) ∨
    ∃ plan ∈ plans, plan.original = row.name ∧ plan.record = row.record

theorem staleComplete {store request stale} {row : ManagedTable} (ok : loadStaleActiveTables platform store request = .ok stale)
    (mem : row ∈ store.managedTables) (owner : row.record.pipelineId = request.fence.pipelineId)
    (active : row.record.state = .active) (foreign : ∀ table ∈ request.tables, table.target ≠ row.name) :
    (⟨row.name,row.record⟩ : StaleActiveTable) ∈ stale := by
  obtain ⟨found,each,ok⟩ := bindOk.mp ok
  cases Except.ok.inj ok
  have selected : row ∈ store.managedTables.filter (fun row =>
      row.record.pipelineId = request.fence.pipelineId ∧ row.record.state = .active) :=
    List.mem_filter.mpr ⟨mem,by simp [owner,active]⟩
  have listed := (List.mem_insertionSort (fun left right => orderedLe platform left.name right.name)).mpr selected
  obtain ⟨entry,produced,here⟩ := relatedFrom (mapMOk.mp each) listed
  have absent : ¬ request.tables.any (fun table => table.target = row.name) := by simpa using foreign
  unfold staleActive at here
  rw [if_neg absent] at here
  obtain ⟨_,_,here⟩ := bindOk.mp here
  split at here
  · contradiction
  · cases Except.ok.inj here
    exact List.mem_filterMap.mpr ⟨_,produced,rfl⟩

theorem stalePlan {store reserved plans} {stale : List StaleActiveTable} {row : ManagedTable}
    (planned : List.Forall₂ (fun entry plan => Planned platform store reserved entry.target entry.record plan) stale plans)
    (mem : ⟨row.name,row.record⟩ ∈ stale) : ∃ plan ∈ plans, plan.original = row.name ∧ plan.record = row.record := by
  obtain ⟨plan,member,here⟩ := relatedFrom planned mem
  exact ⟨plan,member,here.original,here.record⟩

theorem staleEach {store request reserved stale plans} (listed : loadStaleActiveTables platform store request = .ok stale)
    (planned : List.Forall₂ (fun entry plan => Planned platform store reserved entry.target entry.record plan) stale plans) :
    ∀ plan ∈ plans, ⟨plan.original,plan.record⟩ ∈ store.managedTables ∧ plan.record.state = .active ∧
      plan.record.pipelineId = request.fence.pipelineId := by
  intro plan mem
  obtain ⟨entry,known,here⟩ := relatedMem planned mem
  obtain ⟨row,owner,state,_⟩ := staleSource listed entry known
  rw [here.original,here.record]
  exact ⟨row,state,owner⟩

/- What a committed activation has done. -/
structure Effects (platform : Platform) (now : Nat) (request : SnapshotActivationRequest) (target : Target)
    (outcome : SnapshotActivationOutcome) (target' : Target) (plans : List QuarantinePlan) : Prop where
  leaving : Leaving target.store request plans
  quarantined : outcome.quarantined = plans.map QuarantinePlan.quarantine
  log : target'.store.reconciliationLog = target.store.reconciliationLog ++
    plans.map (reconciliation request.fence request.snapshotGroupId now)
  serve : ∀ table ∈ request.tables, Serves request.fence request.snapshotGroupId target'.store table
  alone : ∀ row ∈ target'.store.managedTables, row.record.pipelineId = request.fence.pipelineId →
    row.record.state = .active → ∃ table ∈ request.tables, table.target = row.name
  loaded : loadSnapshotGroup platform target'.store request.snapshotGroupId = .ok ⟨.active,request⟩
  reached : ∀ boundary ∈ request.initialCheckpoints, Reached target'.checkpoints boundary
  set : outcome.disposition = .activated → ∀ boundary ∈ request.initialCheckpoints,
    target'.checkpoints.nodeCheckpoints boundary.key = some ⟨boundary,request.fence.fencingToken⟩

theorem allActive {states : List TableActivationState} (ok : groupIsActive states = .ok true) :
    ∀ state ∈ states, state = .active := by
  simp only [groupIsActive] at ok
  split at ok
  · rename_i full
    intro state mem
    simpa using List.length_filter_eq_length_iff.mp full state mem
  · split at ok <;> simp at ok

theorem targetOrForeign (request : SnapshotActivationRequest) (name : QualifiedName) :
    (∃ table ∈ request.tables, table.target = name) ∨ ∀ table ∈ request.tables, table.target ≠ name := by
  by_cases known : ∃ table ∈ request.tables, table.target = name
  · exact .inl known
  · exact .inr fun table mem same => known ⟨table,mem,same⟩

theorem retryEffects {target : Target} {request canonical states stale outcome target'}
    (sound : Sound platform target.checkpoints.pipelineState none target.store)
    (checks : ActivationChecks platform target request canonical .active states stale)
    (grouped : groupIsActive states = .ok true)
    (ok : retryActive platform now target canonical stale
      (relationNames canonical.tables ++ stale.map StaleActiveTable.target) = .ok (outcome,target')) :
    ∃ plans, Effects platform now canonical target outcome target' plans := by
  obtain ⟨units,verified,ok⟩ := bindOk.mp ok
  obtain ⟨plans,preflight,ok⟩ := bindOk.mp ok
  obtain ⟨store,quarantinedOk,ok⟩ := bindOk.mp ok
  cases Except.ok.inj ok
  have planned := stalePlanned stale preflight
  have ready := staleReady checks.listed (List.Subset.refl _) planned
  have held := (lockSource checks.locked).1
  have classified : ∀ table ∈ canonical.tables, classifyStored target.store canonical table = .ok .active := by
    intro table mem
    obtain ⟨state,produced,here⟩ := relatedFrom (mapMOk.mp checks.classified) mem
    rw [allActive grouped state produced] at here
    exact here
  have serve : ∀ table ∈ canonical.tables, Serves canonical.fence canonical.snapshotGroupId target.store table := by
    intro table mem
    obtain ⟨vacant,record,managed,owner,active,matching⟩ := activeTable (classified table mem)
    obtain ⟨current,stored,bound⟩ :=
      (sound.stands ⟨_,record⟩ ((recordIff sound.names).mp (loadManaged.mp managed).2)).bounded
    rw [owner,held] at stored
    cases Option.some.inj stored
    exact ⟨⟨record,managed,owner,active,matching,bound⟩,vacant⟩
  obtain ⟨serve',manifests⟩ := staleServe plans ready serve quarantinedOk
  have left := quarantinesLeft plans (fun plan mem => ⟨(ready plan mem).2.2.1.symm,(ready plan mem).2.1⟩) quarantinedOk
  refine ⟨plans,⟨staleEach checks.listed planned,fun row mem owner active => ?_⟩,rfl,left.log,serve',
    fun row mem owner active => ?_,Resume.sameLoads manifests checks.loaded,
    fun boundary mem => verifySource (mapMUnit.mp ⟨_,verified⟩ boundary mem),nofun⟩
  · rcases targetOrForeign canonical row.name with ⟨table,member,name⟩ | foreign
    · obtain ⟨_,record,managed,_,_,matching⟩ := activeTable (classified table member)
      have found := (loadManaged.mp managed).2
      rw [name,(recordIff sound.names).mpr mem] at found
      cases Option.some.inj found
      exact .inl ⟨table,member,name,matching⟩
    · exact .inr (stalePlan planned (staleComplete checks.listed mem owner active foreign))
  · obtain ⟨mem,outside⟩ := left.actives row mem active
    rcases targetOrForeign canonical row.name with own | foreign
    · exact own
    · obtain ⟨plan,member,original,_⟩ := stalePlan planned (staleComplete checks.listed mem owner active foreign)
      exact absurd (List.mem_map.mpr ⟨plan,member,original⟩) outside

theorem replacedPlan {store states reserved promotions reserved'} {request : SnapshotActivationRequest} {row : ManagedTable}
    (sound : Sound platform fences none store)
    (classified : request.tables.mapM (classifyStored store request) = .ok states)
    (pending : ∀ state ∈ states, state ≠ .active)
    (preflight : preflightPromotions platform store (request.tables.zip states) reserved = .ok (promotions,reserved'))
    (mem : row ∈ store.managedTables) {table} (member : table ∈ request.tables) (name : table.target = row.name) :
    ∃ plan ∈ promotions.filterMap Promotion.replaced, plan.original = row.name ∧ plan.record = row.record := by
  have related := mapMOk.mp classified
  have pendingPairs : ∀ pair ∈ request.tables.zip states, pair.2 ≠ .active :=
    fun pair mem => pending pair.2 (List.of_mem_zip mem).2
  obtain ⟨tables,_,each⟩ := promotionsPlanned _ pendingPairs preflight
  rw [List.map_fst_zip (by rw [related.length_eq])] at tables
  rw [← tables] at member
  obtain ⟨promotion,here,rfl⟩ := List.mem_map.mp member
  obtain ⟨previous,paired,_,replaced⟩ := each promotion here
  have waiting := pendingSource (List.forall₂_iff_zip.mp related |>.2 paired)
  have found := (recordIff sound.names).mpr mem
  cases previous with
  | none =>
    rw [← name,(loadVacant.mp (waiting.free rfl)).2] at found
    contradiction
  | some record =>
    obtain ⟨plan,given,planned⟩ := replaced record rfl
    have managed := (loadManaged.mp (waiting.replaced record rfl).1).2
    rw [name,found] at managed
    refine ⟨plan,List.mem_filterMap.mpr ⟨promotion,here,given⟩,planned.original.trans name,?_⟩
    rw [planned.record,Option.some.inj managed]

theorem pendingEffects {target : Target} {request canonical states stale outcome target'}
    (sound : Sound platform target.checkpoints.pipelineState none target.store)
    (checks : ActivationChecks platform target request canonical .loading states stale)
    (grouped : groupIsActive states = .ok false)
    (ok : activatePending platform now target canonical states stale
      (relationNames canonical.tables ++ stale.map StaleActiveTable.target) = .ok (outcome,target')) :
    ∃ plans, Effects platform now canonical target outcome target' plans := by
  have canonical' := canonicalIdempotent checks.valid
  have pending := noneActive grouped
  obtain ⟨serve,⟨middle,manifests,marking⟩,advanced⟩ :=
    pendingServe canonical' checks.classified pending checks.listed ok
  have loaded := Resume.markedLoads marking (Resume.sameLoads manifests checks.loaded)
  obtain ⟨_,_,ok⟩ := bindOk.mp ok
  obtain ⟨⟨promotions,reserved⟩,preflight,ok⟩ := bindOk.mp ok
  obtain ⟨plans,stalePreflight,ok⟩ := bindOk.mp ok
  obtain ⟨promoted,promotedOk,ok⟩ := bindOk.mp ok
  obtain ⟨quarantined,quarantinedOk,ok⟩ := bindOk.mp ok
  obtain ⟨checkpoints,_,ok⟩ := bindOk.mp ok
  obtain ⟨store,marked,ok⟩ := bindOk.mp ok
  cases Except.ok.inj ok
  obtain ⟨tables,kept,ready⟩ := pendingReady canonical' checks.classified pending (List.subset_append_left _ _) preflight
  have planned := stalePlanned stale stalePreflight
  have readyStale := staleReady checks.listed kept planned
  have promotedBy := promotionsPromoted promotions ready promotedOk
  have left := quarantinesLeft plans (fun plan mem => ⟨(readyStale plan mem).2.2.1.symm,(readyStale plan mem).2.1⟩)
    quarantinedOk
  obtain ⟨_,rfl⟩ := markSource marked
  refine ⟨promotions.filterMap Promotion.replaced ++ plans,⟨fun plan mem => ?_,fun row mem owner active => ?_⟩,?_,?_,serve,
    fun row mem owner active => ?_,loaded,fun boundary mem => ?_,
    fun _ => advancedSet _ (boundariesDistinct canonical') advanced⟩
  · rcases List.mem_append.mp mem with replaced | stale
    · obtain ⟨promotion,here,given⟩ := List.mem_filterMap.mp replaced
      obtain ⟨header,_,_,_,manifest⟩ := loadedSource sound checks.loaded
      obtain ⟨_,_,promotable⟩ := pendingPromotable manifest checks.classified grouped
        (List.subset_append_left _ _) preflight
      obtain ⟨_,_,quarantinable⟩ := (promotable promotion here).1.replaced plan given
      exact ⟨(recordIff sound.names).mp quarantinable.found,quarantinable.state,quarantinable.owner⟩
    · exact staleEach checks.listed planned plan stale
  · rcases targetOrForeign canonical row.name with ⟨table,member,name⟩ | foreign
    · obtain ⟨plan,here,same⟩ := replacedPlan sound checks.classified pending preflight mem member name
      exact .inr ⟨plan,List.mem_append_left _ here,same⟩
    · obtain ⟨plan,here,same⟩ := stalePlan planned (staleComplete checks.listed mem owner active foreign)
      exact .inr ⟨plan,List.mem_append_right _ here,same⟩
  · rw [List.map_append,List.map_filterMap]
  · show quarantined.reconciliationLog = _
    rw [left.log,promotedBy.log,List.map_append,List.append_assoc]
  · obtain ⟨mem,outside⟩ := left.actives row mem active
    rcases targetOrForeign canonical row.name with own | foreign
    · exact own
    · rcases promotedBy.actives row mem active with mem | own
      · obtain ⟨plan,member,original,_⟩ := stalePlan planned (staleComplete checks.listed mem owner active foreign)
        exact absurd (List.mem_map.mpr ⟨plan,member,original⟩) outside
      · obtain ⟨promotion,here,same⟩ := List.mem_map.mp own
        exact ⟨promotion.table,tables ▸ List.mem_map_of_mem here,same⟩
  · exact Resume.advancedReached _ advanced boundary mem

theorem activationEffects {target : Target} {request outcome target'}
    (sound : Sound platform target.checkpoints.pipelineState none target.store)
    (ok : activateSnapshotGroup platform now target request = .ok (outcome,target')) :
    ∃ canonical plans, canonicalRequest request = .ok canonical ∧
      lockPipelineFence target.checkpoints canonical.fence = .ok () ∧
      Effects platform now canonical target outcome target' plans := by
  obtain ⟨canonical,state,states,stale,checks,⟨grouped,rfl,retry⟩ | ⟨grouped,rfl,pending⟩⟩ := activationSource ok
  · obtain ⟨plans,effects⟩ := retryEffects sound checks grouped retry
    exact ⟨canonical,plans,checks.valid,checks.locked,effects⟩
  · obtain ⟨plans,effects⟩ := pendingEffects sound checks grouped pending
    exact ⟨canonical,plans,checks.valid,checks.locked,effects⟩

theorem neverMixed {store states} {request : SnapshotActivationRequest} (sound : Sound platform fences none store)
    (classified : request.tables.mapM (classifyStored store request) = .ok states) :
    ∃ active, groupIsActive states = .ok active := by
  have related := mapMOk.mp classified
  have served : .active ∈ states → ∃ header ∈ store.snapshotGroups, header.snapshotGroupId = request.snapshotGroupId ∧
      header.state = .active := by
    intro mem
    obtain ⟨table,_,here⟩ := relatedMem related mem
    obtain ⟨_,record,managed,_,active,matching⟩ := activeTable here
    obtain ⟨header,member,_,serving,_,_,_,matching'⟩ :=
      (sound.accounted ⟨_,record⟩ ((recordIff sound.names).mp (loadManaged.mp managed).2)).whenActive active
    simp only [matchesActivation,decide_eq_true_eq] at matching matching'
    exact ⟨header,member,Option.some.inj (matching'.1.symm.trans matching.1),serving.resolve_right (by simp)⟩
  have waits : ∀ shadow previous, .pending shadow previous ∈ states → ∃ header ∈ store.snapshotGroups,
      header.snapshotGroupId = request.snapshotGroupId ∧ header.state = .loading := by
    intro shadow previous mem
    obtain ⟨table,_,here⟩ := relatedMem related mem
    have waiting := pendingSource here
    obtain ⟨header,member,_,_,loading,_,_,record⟩ :=
      (sound.accounted ⟨_,shadow⟩ ((recordIff sound.names).mp (loadManaged.mp waiting.found).2)).whenShadow waiting.state
    have matching := waiting.matching
    simp only [matchesActivation,decide_eq_true_eq] at matching
    have own : shadow.snapshotGroupId = some header.snapshotGroupId := congrArg ManagedTableRecord.snapshotGroupId record
    exact ⟨header,member,Option.some.inj (own.symm.trans matching.1),loading⟩
  unfold groupIsActive
  by_cases some' : .active ∈ states
  · have full : ∀ state ∈ states, state = .active := by
      intro state mem
      cases state with
      | active => rfl
      | pending shadow previous =>
        obtain ⟨one,memOne,idOne,active⟩ := served some'
        obtain ⟨two,memTwo,idTwo,loading⟩ := waits shadow previous mem
        have same := ((lookupIff sound.groups).mpr ⟨memOne,idOne⟩).symm.trans ((lookupIff sound.groups).mpr ⟨memTwo,idTwo⟩)
        rw [Option.some.inj same,loading] at active
        contradiction
    have counted : (states.filter (fun state => state = .active)).length = states.length :=
      List.length_filter_eq_length_iff.mpr (by simpa using full)
    exact ⟨true,by simp [counted]⟩
  · have none' : states.filter (fun state => state = .active) = [] := by
      refine List.filter_eq_nil_iff.mpr fun state mem active => ?_
      rw [of_decide_eq_true active] at mem
      exact some' mem
    cases states with
    | nil => exact ⟨true,by simp⟩
    | cons state states => exact ⟨false,by simp [none']⟩

end Outcome

section Again
variable {platform : Platform} {equal : Operators} {now : Nat}

theorem reshapedState {store store'} (same : Reshaped store store') (name : QualifiedName) :
    loadRelationState store' name = loadRelationState store name := by
  have present := congrArg Option.isSome (same.oids name)
  rw [relationOid,relationOid,Option.isSome_map,Option.isSome_map] at present
  exact loadSame present (by rw [managedRecord,managedRecord,same.managedTables])

theorem appliesSource (platform : Platform) (equal : Operators) (applies : List ApplyRequest) : ∀ target : Target,
    Reshaped target.store (run platform equal target (applies.map .executeApply)).store ∧
    Keeps target.checkpoints (run platform equal target (applies.map .executeApply)).checkpoints := by
  induction applies with
  | nil => exact fun target => ⟨.refl _,.refl _⟩
  | cons apply applies ih =>
    intro target
    have first : Reshaped target.store (step platform equal target (.executeApply apply)).store ∧
        Keeps target.checkpoints (step platform equal target (.executeApply apply)).checkpoints := by
      unfold step
      cases committed : commit platform equal target (.executeApply apply) with
      | none => exact ⟨.refl _,.refl _⟩
      | some target' =>
        obtain ⟨result,ok,rfl⟩ := Option.map_eq_some_iff.mp committed
        exact ⟨applyReshaped (toOptionSome.mp ok),(executeApplyGuarded (toOptionSome.mp ok)).keeps⟩
    obtain ⟨reshaped,keeps⟩ := ih (step platform equal target (.executeApply apply))
    exact ⟨first.1.trans reshaped,first.2.trans keeps⟩

theorem lockSame {tables tables' : CheckpointTables} {fence} (same : tables'.pipelineState = tables.pipelineState) :
    lockPipelineFence tables' fence = lockPipelineFence tables fence := by
  unfold lockPipelineFence
  rw [same]

theorem Reached.later {tables tables' : CheckpointTables} {boundary} (reached : Reached tables boundary)
    (advances : Advances tables tables') : Reached tables' boundary := by
  obtain ⟨stored,found,key,system,timeline,slot,lsn⟩ := reached
  obtain ⟨later,found',key',system',timeline',slot',lsn'⟩ := advances _ stored found
  exact ⟨later,found',key'.symm.trans key,system'.symm.trans system,timeline'.symm.trans timeline,
    slot'.symm.trans slot,Nat.le_trans lsn lsn'⟩

theorem nothingStale {store} {request : SnapshotActivationRequest}
    (alone : ∀ row ∈ store.managedTables, row.record.pipelineId = request.fence.pipelineId →
      row.record.state = .active → ∃ table ∈ request.tables, table.target = row.name) :
    loadStaleActiveTables platform store request = .ok [] := by
  have each : ∀ row ∈ (store.managedTables.filter (fun row =>
      row.record.pipelineId = request.fence.pipelineId ∧ row.record.state = .active)).insertionSort
      (fun left right => orderedLe platform left.name right.name), staleActive request store row = .ok none := by
    intro row mem
    obtain ⟨mem,selected⟩ := List.mem_filter.mp ((List.mem_insertionSort _).mp mem)
    simp only [decide_eq_true_eq] at selected
    obtain ⟨table,member,name⟩ := alone row mem selected.1 selected.2
    exact if_pos (List.any_eq_true.mpr ⟨table,member,by simpa using name⟩)
  refine bindOk.mpr ⟨_,mapMOkOfForall each,?_⟩
  simp

theorem serveAgain {target : Target} {request canonical} (now : Nat)
    (valid : canonicalRequest request = .ok canonical)
    (locked : lockPipelineFence target.checkpoints canonical.fence = .ok ())
    (loaded : loadSnapshotGroup platform target.store canonical.snapshotGroupId = .ok ⟨.active,canonical⟩)
    (serve : ∀ table ∈ canonical.tables, Serves canonical.fence canonical.snapshotGroupId target.store table)
    (alone : ∀ row ∈ target.store.managedTables, row.record.pipelineId = canonical.fence.pipelineId →
      row.record.state = .active → ∃ table ∈ canonical.tables, table.target = row.name)
    (reached : ∀ boundary ∈ canonical.initialCheckpoints, Reached target.checkpoints boundary) :
    activateSnapshotGroup platform now target request = .ok (⟨.alreadyActive,[]⟩,target) := by
  have canonical' := canonicalIdempotent valid
  have exact' : validateExactRequest ⟨.active,canonical⟩ canonical = .ok canonical := by
    simp [validateExactRequest,canonical',bind,Except.bind]
  have classified : canonical.tables.mapM (classifyStored target.store canonical) =
      .ok (canonical.tables.map fun _ => .active) :=
    mapMOkOfForall fun table mem => (serve table mem).classified rfl (Int.le_refl _) rfl
  have grouped : groupIsActive (canonical.tables.map fun _ => .active) = .ok true := by
    have counted : ((canonical.tables.map fun _ => TableActivationState.active).filter (fun state => state = .active)).length =
        (canonical.tables.map fun _ => TableActivationState.active).length :=
      List.length_filter_eq_length_iff.mpr (by simp)
    unfold groupIsActive
    simp only
    rw [if_pos counted]
  obtain ⟨units,verified⟩ : ∃ units, canonical.initialCheckpoints.mapM (verifyRetryCheckpoint target.checkpoints) = .ok units := by
    refine mapMUnit.mpr fun boundary mem => ?_
    obtain ⟨stored,found,key,system,timeline,slot,lsn⟩ := reached boundary mem
    exact Resume.retryVerified ((canonicalSource canonical').eachBoundary boundary mem) found key system timeline slot lsn
  refine bindOk.mpr ⟨_,valid,bindOk.mpr ⟨(),mapErrorOk.mpr locked,bindOk.mpr ⟨_,loaded,bindOk.mpr ⟨_,exact',
    bindOk.mpr ⟨_,classified,bindOk.mpr ⟨_,nothingStale alone,bindOk.mpr ⟨_,grouped,?_⟩⟩⟩⟩⟩⟩⟩
  simp only [if_true]
  rw [if_neg (by simp)]
  exact bindOk.mpr ⟨_,verified,rfl⟩

structure Completed (request : SnapshotActivationRequest) (target : Target) (outcome : SnapshotActivationOutcome)
    (target' : Target) : Prop where
  serve : ∀ table ∈ request.tables, Serves request.fence request.snapshotGroupId target'.store table
  alone : ∀ row ∈ target'.store.managedTables, row.record.pipelineId = request.fence.pipelineId →
    row.record.state = .active → ∃ table ∈ request.tables, table.target = row.name
  quarantined : ∀ row ∈ target.store.managedTables, row.record.pipelineId = request.fence.pipelineId →
    row.record.state = .active →
    (∃ table ∈ request.tables, table.target = row.name ∧ matchesActivation row.record table request.snapshotGroupId) ∨
    ∃ quarantine ∈ outcome.quarantined, loadRelationState target'.store quarantine =
      .managed {row.record with state := .quarantined, fencingToken := request.fence.fencingToken}
  reached : ∀ boundary ∈ request.initialCheckpoints, Reached target'.checkpoints boundary
  set : outcome.disposition = .activated → ∀ boundary ∈ request.initialCheckpoints,
    target'.checkpoints.nodeCheckpoints boundary.key = some ⟨boundary,request.fence.fencingToken⟩

theorem completedOf {target : Target} {request canonical outcome target' plans}
    (valid : canonicalRequest request = .ok canonical) (effects : Effects platform now canonical target outcome target' plans)
    {fences : PipelineId → Option StoredFence} (sound : Sound platform fences none target'.store) :
    Completed request target outcome target' := by
  have shape := (canonicalSource valid).shape
  have fence : canonical.fence = request.fence := by rw [shape]
  have group : canonical.snapshotGroupId = request.snapshotGroupId := by rw [shape]
  have tables : ∀ table, table ∈ canonical.tables ↔ table ∈ request.tables := by
    intro table
    rw [shape]
    exact memSortTables
  have boundaries : ∀ boundary, boundary ∈ canonical.initialCheckpoints ↔ boundary ∈ request.initialCheckpoints := by
    intro boundary
    rw [shape]
    exact memSortBoundaries
  obtain ⟨leaving,quarantined,log,serve,alone,_,reached,set⟩ := effects
  simp only [fence,group,tables,boundaries] at serve alone reached set log
  refine ⟨serve,alone,fun row mem owner active => ?_,reached,set⟩
  rcases leaving.all row mem (by rw [fence]; exact owner) active with ⟨table,member,own⟩ | ⟨plan,member,original,record⟩
  · rw [group] at own
    exact .inl ⟨table,(tables table).mp member,own⟩
  · refine .inr ⟨plan.quarantine,quarantined ▸ List.mem_map_of_mem member,?_⟩
    have entered : reconciliation request.fence request.snapshotGroupId now plan ∈ target'.store.reconciliationLog := by
      rw [log]
      exact List.mem_append_right _ (List.mem_map_of_mem member)
    have logged := (sound.logged _ entered rfl).row
    obtain ⟨oid,_,placed,_⟩ := (sound.stands _ logged).relation
    have left : leftRecord (reconciliation request.fence request.snapshotGroupId now plan) =
        {row.record with state := .quarantined, fencingToken := request.fence.fencingToken} := by
      rw [← record] at owner ⊢
      simp [leftRecord,reconciliation,owner]
    refine loadManaged.mpr ⟨?_,(recordIff sound.names).mpr (left ▸ logged)⟩
    obtain ⟨relation,found,_⟩ := Option.map_eq_some_iff.mp placed
    exact Option.isSome_iff_exists.mpr ⟨relation,found⟩

/-- In every reachable state an activation is all or nothing: an error leaves the target as it was; a success serves every
table of the group, quarantines every other active table of the pipeline and sets every boundary, and the same request
under the same fence, after any applies, then finds the group active and changes nothing. No classification of a
request is ever mixed. -/
theorem activationAllOrNothing {start : Target} {operations : List Operation} (fresh : Fresh start) (now : Nat)
    (request : SnapshotActivationRequest) :
    (∀ error, activateSnapshotGroup platform now (run platform equal start operations) request = .error error →
      step platform equal (run platform equal start operations) (.activateSnapshotGroup now request) =
        run platform equal start operations) ∧
    (∀ outcome target', activateSnapshotGroup platform now (run platform equal start operations) request =
        .ok (outcome,target') →
      step platform equal (run platform equal start operations) (.activateSnapshotGroup now request) = target' ∧
      Completed request (run platform equal start operations) outcome target' ∧
      ∀ (applies : List ApplyRequest) now',
        activateSnapshotGroup platform now' (run platform equal target' (applies.map .executeApply)) request =
          .ok (⟨.alreadyActive,[]⟩,run platform equal target' (applies.map .executeApply))) ∧
    ∀ (asked : SnapshotActivationRequest) states,
      asked.tables.mapM (classifyStored (run platform equal start operations).store asked) = .ok states →
      ∃ active, groupIsActive states = .ok active := by
  have reached : SoundTarget platform (run platform equal start operations) :=
    runSound operations (freshSound platform fresh)
  generalize run platform equal start operations = target at reached ⊢
  refine ⟨fun error failed => ?_,fun outcome target' ok => ?_,fun asked states => neverMixed reached.store⟩
  · simp [step,commit,failed,Except.toOption]
  · have stepped : step platform equal target (.activateSnapshotGroup now request) = target' := by
      simp [step,commit,ok,Except.toOption]
    have sound' : SoundTarget platform target' := by
      rw [← stepped]
      exact stepSound reached _
    obtain ⟨canonical,plans,valid,locked,effects⟩ := activationEffects reached.store ok
    refine ⟨stepped,completedOf valid effects sound'.store,fun applies now' => ?_⟩
    obtain ⟨reshaped,keeps⟩ := appliesSource platform equal applies target'
    have fences := (activateSnapshotGroupGuarded ok).keeps.fences
    refine serveAgain now' valid ?_ (Resume.sameLoads reshaped.manifests effects.loaded) (fun table mem => ?_)
      (fun row mem => ?_) (fun boundary mem => (effects.reached boundary mem).later keeps.advances)
    · rw [lockSame keeps.fences,lockSame fences]
      exact locked
    · exact (effects.serve table mem).same (reshapedState reshaped _) (reshapedState reshaped _)
    · rw [reshaped.managedTables] at mem
      exact effects.alone row mem

def returnsTable : SnapshotActivationTable :=
  ⟨⟨"dw","returns",dwValid,returnsValid⟩,⟨"dw","returns_shadow",dwValid,returnsShadowValid⟩,16387,1,"returns v1"⟩

/- The second generation replaces the accounts, has the returns as a new table and no longer the orders. -/
def replacement : SnapshotActivationRequest := groupRequest secondFence 2 [accountsAgain,returnsTable]

def replacementLoaded : List Operation :=
  .activatePipelineFence firstFence :: serveGroup (groupRequest firstFence 1 [accountsTable,ordersTable]) ++
    .activatePipelineFence secondFence :: loadGroup replacement

def streamedAccount : ApplyRequest :=
  ⟨secondFence,⟨⟨7,2,0⟩,42,1,"pg2cb_slot",200⟩,
    [⟨⟨{(idTable accountsAgain).shadow with target := accountsAgain.target},"pg2cb_stage_1",
      ⟨"__pg2cb_op",["id"],[],"__pg2cb_old_key_present",[⟨0,"id","__pg2cb_old_1","bigint"⟩]⟩⟩,
      [⟨.upsert,[.text [53]],none⟩]⟩]⟩

theorem accountsActivatedTwice : ∃ outcome target',
    activateSnapshotGroup Resume.sha256Platform 0
      (run Resume.sha256Platform StagedApply.textOperators Resume.emptyTarget replacementLoaded) replacement =
      .ok (outcome,target') ∧
    outcome.quarantined.length = 2 ∧
    ((step Resume.sha256Platform StagedApply.textOperators target' (.executeApply streamedAccount)).store.relations
      accountsAgain.target).map Relation.rows = some [[some [53]]] ∧
    activateSnapshotGroup Resume.sha256Platform 1
      (run Resume.sha256Platform StagedApply.textOperators target' ([streamedAccount].map .executeApply)) replacement =
      .ok (⟨.alreadyActive,[]⟩,
        run Resume.sha256Platform StagedApply.textOperators target' ([streamedAccount].map .executeApply)) := by
  have sample : (activateSnapshotGroup Resume.sha256Platform 0
      (run Resume.sha256Platform StagedApply.textOperators Resume.emptyTarget replacementLoaded) replacement).toOption.any
        (fun activated => activated.1.quarantined.length = 2 ∧
          ((step Resume.sha256Platform StagedApply.textOperators activated.2
            (.executeApply streamedAccount)).store.relations accountsAgain.target).map Relation.rows =
            some [[some [53]]]) = true := by decide +kernel
  obtain ⟨⟨outcome,target'⟩,activated,seen⟩ := (Option.any_eq_true _ _).mp sample
  have left := of_decide_eq_true seen
  have ok := toOptionSome.mp activated
  exact ⟨outcome,target',ok,left.1,left.2,
    ((activationAllOrNothing emptyFresh 0 _).2.1 outcome target' ok).2.2 [streamedAccount] 1⟩

end Again

end CloudberryEtl.Retry
