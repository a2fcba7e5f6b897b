import CloudberryEtl.StoreChange

/-! What the metadata of the target says about its catalog: every managed row stands for the relation of its name, every
shadow for a table of a loading manifest, every active row for a table of an active one and every quarantined row for
one open entry of the reconciliation log. Each change of a transaction keeps it. -/
namespace CloudberryEtl.Metadata
open Schema Change TablePlan StagedApply KeyedTable Result TargetStore Manifest Activation Cleanup ActivatedGroup StoreChange
open Checkpoint hiding databaseGeneration

def Within (fences : PipelineId → Option StoredFence) (fence : PipelineFence) : Prop :=
  ∃ current, fences fence.pipelineId = some current ∧ fence.topologyGeneration ≤ current.topologyGeneration ∧
    fence.fencingToken ≤ current.fencingToken

structure Stands (fences : PipelineId → Option StoredFence) (store : Store) (row : ManagedTable) : Prop where
  relation : ∃ oid, 0 < oid ∧ relationOid store row.name = some oid ∧ row.record.relationOid = some oid
  token : 0 < row.record.fencingToken
  bounded : ∃ current, fences row.record.pipelineId = some current ∧ row.record.fencingToken ≤ current.fencingToken

inductive Accounted (transit : Option Uuid) (store : Store) (row : ManagedTable) : Prop where
  | shadow {header : SnapshotGroup} {table : SnapshotActivationTable} {oid : Nat}
      (member : header ∈ store.snapshotGroups) (loading : header.state = .loading)
      (listed : ⟨header.snapshotGroupId,table⟩ ∈ store.groupTables) (name : row.name = table.shadow)
      (record : row.record = shadowRecord header table oid) : Accounted transit store row
  | active {header : SnapshotGroup} {table : SnapshotActivationTable} (state : row.record.state = .active)
      (member : header ∈ store.snapshotGroups) (serving : header.state = .active ∨ transit = some header.snapshotGroupId)
      (listed : ⟨header.snapshotGroupId,table⟩ ∈ store.groupTables) (name : row.name = table.target)
      (owner : row.record.pipelineId = header.fence.pipelineId)
      (matching : matchesActivation row.record table header.snapshotGroupId) : Accounted transit store row
  | quarantined {entry : Reconciliation} (member : entry ∈ store.reconciliationLog) (unpurged : entry.purgedAt = none)
      (name : row.name = entry.quarantine) (record : row.record = leftRecord entry) : Accounted transit store row

structure Logged (platform : Platform) (fences : PipelineId → Option StoredFence) (store : Store) (entry : Reconciliation) :
    Prop where
  row : ⟨entry.quarantine,leftRecord entry⟩ ∈ store.managedTables
  group : entry.snapshotGroupId ≠ Uuid.nil
  fingerprint : entry.schemaFingerprint ≠ ""
  token : 0 < entry.fencingToken
  within : Within fences ⟨entry.pipelineId,entry.topologyGeneration,entry.fencingToken⟩
  named : ∃ previous, entry.previousFencingToken = some previous ∧ 0 < previous ∧
    quarantineName platform entry.original {leftRecord entry with fencingToken := previous} = .ok entry.quarantine

structure Sound (platform : Platform) (fences : PipelineId → Option StoredFence) (transit : Option Uuid) (store : Store) :
    Prop where
  nextOid : 0 < store.nextOid
  names : UniqueKeys ManagedTable.name store.managedTables
  stands : ∀ row ∈ store.managedTables, Stands fences store row
  accounted : ∀ row ∈ store.managedTables, Accounted transit store row
  groups : UniqueKeys SnapshotGroup.snapshotGroupId store.snapshotGroups
  manifests : ∀ header ∈ store.snapshotGroups, ∃ request, Stored platform store header request
  within : ∀ header ∈ store.snapshotGroups, Within fences header.fence
  tableRows : ∀ row ∈ store.groupTables, ∃ header ∈ store.snapshotGroups, header.snapshotGroupId = row.snapshotGroupId
  nodeRows : ∀ row ∈ store.groupNodes, ∃ header ∈ store.snapshotGroups, header.snapshotGroupId = row.snapshotGroupId
  logged : ∀ entry ∈ store.reconciliationLog, entry.purgedAt = none → Logged platform fences store entry
  once : UniqueKeys Reconciliation.quarantine (store.reconciliationLog.filter (fun entry => entry.purgedAt = none))

theorem recordIff {store : Store} (names : UniqueKeys ManagedTable.name store.managedTables) {name record} :
    managedRecord store name = some record ↔ ⟨name,record⟩ ∈ store.managedTables := by
  rw [managedRecord,Option.map_eq_some_iff]
  constructor
  · rintro ⟨row,found,rfl⟩
    obtain ⟨mem,rfl⟩ := (lookupIff names).mp found
    exact mem
  · exact fun mem => ⟨_,(lookupIff names).mpr ⟨mem,rfl⟩,rfl⟩

theorem recordNone {store : Store} {name} (free : managedRecord store name = none) :
    ∀ row ∈ store.managedTables, row.name ≠ name := lookupNone.mp (Option.map_eq_none_iff.mp free)

theorem namesWith {store : Store} {name} (relation : Relation) (record : ManagedTableRecord)
    (names : UniqueKeys ManagedTable.name store.managedTables) (free : managedRecord store name = none) :
    UniqueKeys ManagedTable.name (withTable store name relation record).managedTables := by
  refine uniqueAppend names (by simp [UniqueKeys]) fun row mem => ?_
  rw [List.mem_singleton.mp mem]
  exact Option.map_eq_none_iff.mp free

section Rows
variable {platform : Platform} {fences : PipelineId → Option StoredFence} {transit : Option Uuid} {store store' : Store}

theorem Stands.same {row} (stands : Stands fences store row) (oid : relationOid store' row.name = relationOid store row.name) :
    Stands fences store' row := by
  obtain ⟨number,positive,found,recorded⟩ := stands.relation
  exact ⟨⟨number,positive,oid.trans found,recorded⟩,stands.token,stands.bounded⟩

theorem Accounted.same {row} (accounted : Accounted transit store row)
    (headers : ∀ header ∈ store.snapshotGroups, header ∈ store'.snapshotGroups)
    (tables : ∀ table ∈ store.groupTables, table ∈ store'.groupTables)
    (log : ∀ entry ∈ store.reconciliationLog, entry ∈ store'.reconciliationLog) : Accounted transit store' row := by
  cases accounted with
  | shadow member loading listed name record => exact .shadow (headers _ member) loading (tables _ listed) name record
  | active state member serving listed name owner matching =>
    exact .active state (headers _ member) serving (tables _ listed) name owner matching
  | quarantined member unpurged name record => exact .quarantined (log _ member) unpurged name record

theorem Logged.same {entry} (logged : Logged platform fences store entry)
    (row : ⟨entry.quarantine,leftRecord entry⟩ ∈ store'.managedTables) : Logged platform fences store' entry :=
  ⟨row,logged.group,logged.fingerprint,logged.token,logged.within,logged.named⟩

theorem Accounted.whenShadow {row} (accounted : Accounted transit store row) (state : row.record.state = .shadow) :
    ∃ header ∈ store.snapshotGroups, ∃ table oid, header.state = .loading ∧
      ⟨header.snapshotGroupId,table⟩ ∈ store.groupTables ∧ row.name = table.shadow ∧
      row.record = shadowRecord header table oid := by
  cases accounted with
  | shadow member loading listed name record => exact ⟨_,member,_,_,loading,listed,name,record⟩
  | active active => rw [state] at active; contradiction
  | quarantined _ _ _ record => rw [record] at state; contradiction

theorem Accounted.whenActive {row} (accounted : Accounted transit store row) (state : row.record.state = .active) :
    ∃ header ∈ store.snapshotGroups, ∃ table, (header.state = .active ∨ transit = some header.snapshotGroupId) ∧
      ⟨header.snapshotGroupId,table⟩ ∈ store.groupTables ∧ row.name = table.target ∧
      row.record.pipelineId = header.fence.pipelineId ∧ matchesActivation row.record table header.snapshotGroupId := by
  cases accounted with
  | shadow _ _ _ _ record => rw [record] at state; contradiction
  | active _ member serving listed name owner matching => exact ⟨_,member,_,serving,listed,name,owner,matching⟩
  | quarantined _ _ _ record => rw [record] at state; contradiction

theorem Accounted.whenQuarantined {row} (accounted : Accounted transit store row) (state : row.record.state = .quarantined) :
    ∃ entry ∈ store.reconciliationLog, entry.purgedAt = none ∧ row.name = entry.quarantine ∧
      row.record = leftRecord entry := by
  cases accounted with
  | shadow _ _ _ _ record => rw [record] at state; contradiction
  | active active => rw [state] at active; contradiction
  | quarantined member unpurged name record => exact ⟨_,member,unpurged,name,record⟩

theorem Accounted.moving {row group} (accounted : Accounted none store row) : Accounted (some group) store row := by
  cases accounted with
  | shadow member loading listed name record => exact .shadow member loading listed name record
  | active state member serving listed name owner matching =>
    exact .active state member (serving.imp_right nofun) listed name owner matching
  | quarantined member unpurged name record => exact .quarantined member unpurged name record

end Rows

section Changes
variable {platform : Platform} {fences : PipelineId → Option StoredFence} {transit : Option Uuid} {store : Store}
  {admits : Admission}

theorem soundReshaped {store'} (sound : Sound platform fences transit store) (same : Reshaped store store') :
    Sound platform fences transit store' where
  nextOid := by rw [same.nextOid]; exact sound.nextOid
  names := by rw [same.managedTables]; exact sound.names
  stands := by
    rw [same.managedTables]
    exact fun row mem => (sound.stands row mem).same (same.oids row.name)
  accounted := by
    rw [same.managedTables]
    intro row mem
    refine (sound.accounted row mem).same ?_ ?_ ?_
    · rw [same.manifests.headers]; exact fun _ mem => mem
    · rw [same.manifests.tables]; exact fun _ mem => mem
    · rw [same.log]; exact fun _ mem => mem
  groups := by rw [same.manifests.headers]; exact sound.groups
  manifests := by
    rw [same.manifests.headers]
    intro header mem
    obtain ⟨request,stored⟩ := sound.manifests header mem
    exact ⟨request,stored.same (by rw [same.manifests.tables]) (by rw [same.manifests.nodes])⟩
  within := by rw [same.manifests.headers]; exact sound.within
  tableRows := by rw [same.manifests.headers,same.manifests.tables]; exact sound.tableRows
  nodeRows := by rw [same.manifests.headers,same.manifests.nodes]; exact sound.nodeRows
  logged := by
    rw [same.log]
    intro entry mem unpurged
    have logged := sound.logged entry mem unpurged
    exact logged.same (by rw [same.managedTables]; exact logged.row)
  once := by rw [same.log]; exact sound.once

theorem soundWithout {name record} (sound : Sound platform fences transit store)
    (found : managedRecord store name = some record) (standing : record.state ≠ .quarantined) :
    Sound platform fences transit (withoutTable store name) where
  nextOid := sound.nextOid
  names := sound.names.filter _
  stands row mem := by
    obtain ⟨mem,apart⟩ := memWithout.mp mem
    exact (sound.stands row mem).same (by simp [relationOidWithout,apart])
  accounted row mem :=
    (sound.accounted row (memWithout.mp mem).1).same (fun _ mem => mem) (fun _ mem => mem) (fun _ mem => mem)
  groups := sound.groups
  manifests header mem := by
    obtain ⟨request,stored⟩ := sound.manifests header mem
    exact ⟨request,stored.same rfl rfl⟩
  within := sound.within
  tableRows := sound.tableRows
  nodeRows := sound.nodeRows
  logged entry mem unpurged := by
    have logged := sound.logged entry mem unpurged
    refine logged.same (memWithout.mpr ⟨logged.row,?_⟩)
    -- the name of an open entry has a quarantined record
    rintro rfl
    have same := Option.some.inj (found.symm.trans ((recordIff sound.names).mpr logged.row))
    rw [same] at standing
    exact standing rfl
  once := sound.once

theorem soundWith {name relation record} (sound : Sound platform fences transit store)
    (vacant : loadRelationState store name = .vacant) (oid : record.relationOid = some relation.oid)
    (positive : 0 < relation.oid) (token : 0 < record.fencingToken)
    (bounded : ∃ current, fences record.pipelineId = some current ∧ record.fencingToken ≤ current.fencingToken)
    (accounted : Accounted transit store ⟨name,record⟩) :
    Sound platform fences transit (withTable store name relation record) where
  nextOid := sound.nextOid
  names := namesWith relation record sound.names (loadVacant.mp vacant).2
  stands row mem := by
    rcases memWith.mp mem with mem | rfl
    · have apart := recordNone (loadVacant.mp vacant).2 row mem
      exact (sound.stands row mem).same (by simp [relationOidWith,apart])
    · exact ⟨⟨relation.oid,positive,by simp [relationOidWith],oid⟩,token,bounded⟩
  accounted row mem := by
    rcases memWith.mp mem with mem | rfl
    · exact (sound.accounted row mem).same (fun _ mem => mem) (fun _ mem => mem) (fun _ mem => mem)
    · exact accounted.same (fun _ mem => mem) (fun _ mem => mem) (fun _ mem => mem)
  groups := sound.groups
  manifests header mem := by
    obtain ⟨request,stored⟩ := sound.manifests header mem
    exact ⟨request,stored.same rfl rfl⟩
  within := sound.within
  tableRows := sound.tableRows
  nodeRows := sound.nodeRows
  logged entry mem unpurged := by
    have logged := sound.logged entry mem unpurged
    exact logged.same (memWith.mpr (.inl logged.row))
  once := sound.once

theorem soundNumbered {number} (sound : Sound platform fences transit store) (positive : 0 < number) :
    Sound platform fences transit {store with nextOid := number} where
  nextOid := positive
  names := sound.names
  stands row mem := (sound.stands row mem).same rfl
  accounted row mem := (sound.accounted row mem).same (fun _ mem => mem) (fun _ mem => mem) (fun _ mem => mem)
  groups := sound.groups
  manifests header mem := by
    obtain ⟨request,stored⟩ := sound.manifests header mem
    exact ⟨request,stored.same rfl rfl⟩
  within := sound.within
  tableRows := sound.tableRows
  nodeRows := sound.nodeRows
  logged entry mem unpurged := (sound.logged entry mem unpurged).same (sound.logged entry mem unpurged).row
  once := sound.once

section Fence
variable {fence : PipelineFence} (held : fences fence.pipelineId = some fence.stored) (valid : 0 < fence.fencingToken)
include held valid

theorem soundShadowed {header table plan} (sound : Sound platform fences transit store)
    (member : header ∈ store.snapshotGroups) (loading : header.state = .loading) (own : header.fence = fence)
    (listed : ⟨header.snapshotGroupId,table⟩ ∈ store.groupTables)
    (vacant : loadRelationState store table.shadow = .vacant) :
    Sound platform fences transit {withTable store table.shadow ⟨store.nextOid,plan,[]⟩
      (shadowRecord header table store.nextOid) with nextOid := store.nextOid + 1} := by
  have shadow : Sound platform fences transit (withTable store table.shadow ⟨store.nextOid,plan,[]⟩
      (shadowRecord header table store.nextOid)) := by
    refine soundWith sound vacant rfl sound.nextOid ?_ ?_ (.shadow member loading listed rfl rfl)
    · simpa [shadowRecord,own] using valid
    · exact ⟨fence.stored,by simpa [shadowRecord,own] using held,by simp [shadowRecord,own,PipelineFence.stored]⟩
  exact soundNumbered shadow (Nat.succ_pos _)

theorem soundPromoted {group table relation record} (sound : Sound platform fences transit store)
    (moving : transit = some group) (listed : ⟨group,table⟩ ∈ store.groupTables)
    (relation' : store.relations table.shadow = some relation)
    (found : managedRecord store table.shadow = some record) (state : record.state = .shadow)
    (owner : record.pipelineId = fence.pipelineId) (matching : matchesActivation record table group)
    (apart : table.target ≠ table.shadow) (vacant : loadRelationState store table.target = .vacant) :
    Sound platform fences transit (withTable (withoutTable store table.shadow) table.target relation
      {record with state := .active, fencingToken := fence.fencingToken}) := by
  have member := (recordIff sound.names).mp found
  obtain ⟨oid,positive,placed,recorded⟩ := (sound.stands _ member).relation
  have same : relation.oid = oid := by simpa [relationOid,relation'] using placed
  obtain ⟨header,known,_,_,_,_,_,shape⟩ := (sound.accounted _ member).whenShadow state
  have group' : header.snapshotGroupId = group := by
    simp only [matchesActivation,decide_eq_true_eq] at matching
    rw [show record = _ from shape] at matching
    simpa [shadowRecord] using matching.1
  refine soundWith (soundWithout sound found (by simp [state])) ((loadWithout apart).trans vacant) ?_ ?_ valid ?_ ?_
  · simpa [same] using recorded
  · simpa [same] using positive
  · exact ⟨fence.stored,by simpa [owner] using held,Int.le_refl _⟩
  · refine .active rfl known (.inr (by rw [moving,group'])) (by rw [group']; exact listed) rfl ?_ ?_
    · rw [show record = _ from shape]; rfl
    · rw [group']; exact matching

theorem soundQuarantined {group now plan relation} (sound : Sound platform fences transit store) (valid' : group ≠ Uuid.nil)
    (relation' : store.relations plan.original = some relation)
    (found : managedRecord store plan.original = some plan.record) (state : plan.record.state = .active)
    (owner : plan.record.pipelineId = fence.pipelineId)
    (named : quarantineName platform plan.original plan.record = .ok plan.quarantine)
    (apart : plan.quarantine ≠ plan.original) (vacant : loadRelationState store plan.quarantine = .vacant) :
    Sound platform fences transit {withTable (withoutTable store plan.original) plan.quarantine relation
      {plan.record with state := .quarantined, fencingToken := fence.fencingToken} with
      reconciliationLog := store.reconciliationLog ++ [reconciliation fence group now plan]} := by
  have member := (recordIff sound.names).mp found
  have stands := sound.stands _ member
  obtain ⟨oid,positive,placed,recorded⟩ := stands.relation
  have same : relation.oid = oid := by simpa [relationOid,relation'] using placed
  obtain ⟨header,known,table,_,listed,_,_,matching⟩ := (sound.accounted _ member).whenActive state
  obtain ⟨request,stored⟩ := sound.manifests header known
  have fingerprint : plan.record.schemaFingerprint ≠ "" := by
    have checked := (canonicalSource stored.canonical).eachTable table (stored.listed.mp listed)
    simp only [matchesActivation,decide_eq_true_eq] at matching
    rw [matching.2.2.2]
    exact validFingerprint checked
  have left : {plan.record with state := .quarantined, fencingToken := fence.fencingToken} =
      leftRecord (reconciliation fence group now plan) := by
    simp [leftRecord,reconciliation,owner]
  have free : managedRecord store plan.quarantine = none := (loadVacant.mp vacant).2
  have unlogged : ∀ entry ∈ store.reconciliationLog, entry.purgedAt = none → entry.quarantine ≠ plan.quarantine :=
    fun entry mem unpurged => recordNone free _ (sound.logged entry mem unpurged).row
  have removed := soundWithout sound found (by simp [state])
  have vacant' := (loadWithout apart).trans vacant
  refine {
    nextOid := sound.nextOid
    names := namesWith relation _ removed.names (loadVacant.mp vacant').2
    stands := fun row mem => ?_
    accounted := fun row mem => ?_
    groups := sound.groups
    manifests := fun header mem => ?_
    within := sound.within
    tableRows := sound.tableRows
    nodeRows := sound.nodeRows
    logged := fun entry mem unpurged => ?_
    once := ?_ }
  · rcases List.mem_append.mp mem with mem | mem
    · refine (removed.stands row mem).same ?_
      have other := recordNone (loadVacant.mp vacant').2 row mem
      exact (relationOidWith _ _ _ relation plan.record).trans (by simp [other])
    · cases List.mem_singleton.mp mem
      refine ⟨⟨oid,positive,?_,by simpa using recorded⟩,valid,⟨fence.stored,by simpa [owner] using held,Int.le_refl _⟩⟩
      exact (relationOidWith _ _ _ relation plan.record).trans (by simp [same])
  · rcases List.mem_append.mp mem with mem | mem
    · refine (removed.accounted row mem).same (fun _ mem => mem) (fun _ mem => mem) fun _ mem => ?_
      exact List.mem_append_left _ mem
    · cases List.mem_singleton.mp mem
      exact .quarantined (List.mem_append_right _ (by simp)) rfl rfl left
  · obtain ⟨request,stored⟩ := sound.manifests header mem
    exact ⟨request,stored.same rfl rfl⟩
  · rcases List.mem_append.mp mem with mem | mem
    · have logged := removed.logged entry mem unpurged
      exact logged.same (List.mem_append_left _ logged.row)
    · cases List.mem_singleton.mp mem
      refine ⟨List.mem_append_right _ (by rw [← left]; exact List.mem_singleton_self _),valid',fingerprint,valid,?_,?_⟩
      · exact ⟨fence.stored,held,Nat.le_refl _,Int.le_refl _⟩
      · refine ⟨plan.record.fencingToken,rfl,stands.token,?_⟩
        rw [← left]
        exact named
  · rw [List.filter_append]
    refine uniqueAppend sound.once (by simp [UniqueKeys,reconciliation]) fun entry mem => lookupNone.mpr fun other mem' => ?_
    have here : entry = reconciliation fence group now plan := by simpa using (List.mem_filter.mp mem).1
    obtain ⟨mem',unpurged⟩ := List.mem_filter.mp mem'
    rw [here]
    exact unlogged other mem' (by simpa using unpurged)

omit held valid in
theorem storedRegistered {header request} (sound : Sound platform fences transit store)
    (canonical : canonicalRequest request = .ok request)
    (fresh : ∀ other ∈ store.snapshotGroups, other.snapshotGroupId ≠ request.snapshotGroupId)
    (header' : header = ⟨request.snapshotGroupId,request.fence,.loading,request.tables.length,
      request.initialCheckpoints.length,manifestChecksum platform request⟩) :
    Stored platform (withGroup store header request) header request := by
  have noTables : store.groupTables.filter (fun row => row.snapshotGroupId = request.snapshotGroupId) = [] := by
    rw [List.filter_eq_nil_iff]
    intro row mem
    obtain ⟨other,known,same⟩ := sound.tableRows row mem
    have apart := fresh other known
    rw [same] at apart
    simpa using apart
  have noNodes : store.groupNodes.filter (fun row => row.snapshotGroupId = request.snapshotGroupId) = [] := by
    rw [List.filter_eq_nil_iff]
    intro row mem
    obtain ⟨other,known,same⟩ := sound.nodeRows row mem
    have apart := fresh other known
    rw [same] at apart
    simpa using apart
  subst header'
  refine ⟨canonical,rfl,rfl,rfl,rfl,rfl,?_,?_⟩
  · simp [withGroup,List.filter_append,noTables,List.filter_map,Function.comp_def]
  · simp [withGroup,List.filter_append,noNodes,List.filter_map,Function.comp_def,groupNode]

omit valid in
theorem soundRegistered {header request} (sound : Sound platform fences transit store)
    (canonical : canonicalRequest request = .ok request) (own : request.fence = fence)
    (fresh : ∀ other ∈ store.snapshotGroups, other.snapshotGroupId ≠ request.snapshotGroupId)
    (header' : header = ⟨request.snapshotGroupId,request.fence,.loading,request.tables.length,
      request.initialCheckpoints.length,manifestChecksum platform request⟩) :
    Sound platform fences transit (withGroup store header request) := by
  refine {
    nextOid := sound.nextOid
    names := sound.names
    stands := fun row mem => (sound.stands row mem).same rfl
    accounted := fun row mem => (sound.accounted row mem).same (fun _ mem => List.mem_append_left _ mem)
      (fun _ mem => List.mem_append_left _ mem) (fun _ mem => mem)
    groups := ?_
    manifests := fun other mem => ?_
    within := fun other mem => ?_
    tableRows := fun row mem => ?_
    nodeRows := fun row mem => ?_
    logged := fun entry mem unpurged => (sound.logged entry mem unpurged).same (sound.logged entry mem unpurged).row
    once := sound.once }
  · refine uniqueAppend sound.groups (by simp [UniqueKeys]) fun other mem => lookupNone.mpr fun known mem' => ?_
    rw [List.mem_singleton.mp mem,header']
    exact fresh known mem'
  · rcases List.mem_append.mp mem with mem | mem
    · obtain ⟨request',stored⟩ := sound.manifests other mem
      have apart : request.snapshotGroupId ≠ other.snapshotGroupId := (fresh other mem).symm
      exact ⟨request',stored.same (by simp [withGroup,List.filter_append,List.filter_map,Function.comp_def,apart])
        (by simp [withGroup,List.filter_append,List.filter_map,Function.comp_def,groupNode,apart])⟩
    · cases List.mem_singleton.mp mem
      exact ⟨request,storedRegistered sound canonical fresh header'⟩
  · rcases List.mem_append.mp mem with mem | mem
    · exact sound.within other mem
    · cases List.mem_singleton.mp mem
      subst header'
      rw [own]
      exact ⟨fence.stored,held,Nat.le_refl _,Int.le_refl _⟩
  · rcases List.mem_append.mp mem with mem | mem
    · obtain ⟨other,known,same⟩ := sound.tableRows row mem
      exact ⟨other,List.mem_append_left _ known,same⟩
    · obtain ⟨table,_,rfl⟩ := List.mem_map.mp mem
      exact ⟨header,List.mem_append_right _ (by simp),by rw [header']⟩
  · rcases List.mem_append.mp mem with mem | mem
    · obtain ⟨other,known,same⟩ := sound.nodeRows row mem
      exact ⟨other,List.mem_append_left _ known,same⟩
    · obtain ⟨boundary,_,rfl⟩ := List.mem_map.mp mem
      exact ⟨header,List.mem_append_right _ (by simp),by rw [header']; rfl⟩

end Fence

theorem openPurged (now : Nat) (fence : PipelineFence) (entry : Reconciliation) (log : List Reconciliation) :
    (purgedLog now fence entry log).filter (fun other => other.purgedAt = none) =
      (log.filter (fun other => other.purgedAt = none)).filter (fun other => other.quarantine ≠ entry.quarantine) := by
  induction log with
  | nil => rfl
  | cons head tail ih =>
    rw [purgedLog] at ih ⊢
    rw [List.map_cons,List.filter_cons,ih]
    by_cases unpurged : head.purgedAt = none <;> by_cases same : head.quarantine = entry.quarantine <;>
      simp [unpurged,same]

theorem memOpenPurged {now fence entry other} {log : List Reconciliation} :
    other ∈ purgedLog now fence entry log ∧ other.purgedAt = none ↔
      other ∈ log ∧ other.purgedAt = none ∧ other.quarantine ≠ entry.quarantine := by
  have same := congrArg (other ∈ ·) (openPurged now fence entry log)
  simpa [and_assoc,and_comm] using same

theorem soundPurged {entry now fence} (sound : Sound platform fences transit store) :
    Sound platform fences transit {withoutTable store entry.quarantine with
      reconciliationLog := purgedLog now fence entry store.reconciliationLog} where
  nextOid := sound.nextOid
  names := sound.names.filter _
  stands row mem := by
    obtain ⟨mem,apart⟩ := memWithout.mp mem
    exact (sound.stands row mem).same ((relationOidWithout _ _ _).trans (by simp [apart]))
  accounted row mem := by
    obtain ⟨mem,apart⟩ := memWithout.mp mem
    cases sound.accounted row mem with
    | shadow member loading listed name record => exact .shadow member loading listed name record
    | active state member serving listed name owner matching =>
      exact .active state member serving listed name owner matching
    | quarantined member unpurged name record =>
      obtain ⟨member,unpurged⟩ := memOpenPurged.mpr ⟨member,unpurged,name ▸ apart⟩
      exact .quarantined member unpurged name record
  groups := sound.groups
  manifests header mem := by
    obtain ⟨request,stored⟩ := sound.manifests header mem
    exact ⟨request,stored.same rfl rfl⟩
  within := sound.within
  tableRows := sound.tableRows
  nodeRows := sound.nodeRows
  logged other mem unpurged := by
    obtain ⟨mem,unpurged,apart⟩ := memOpenPurged.mp ⟨mem,unpurged⟩
    have logged := sound.logged other mem unpurged
    exact logged.same (memWithout.mpr ⟨logged.row,apart⟩)
  once := by
    rw [openPurged]
    exact sound.once.filter _

theorem soundUnregistered {header} (sound : Sound platform fences transit store) (member : header ∈ store.snapshotGroups)
    (loading : header.state = .loading) (resting : transit ≠ some header.snapshotGroupId)
    (empty : ∀ row ∈ store.managedTables, row.record.state = .shadow →
      row.record.snapshotGroupId ≠ some header.snapshotGroupId) :
    Sound platform fences transit (withoutGroup store header.snapshotGroupId) := by
  have others : ∀ other ∈ store.snapshotGroups, other.snapshotGroupId ≠ header.snapshotGroupId →
      other ∈ (withoutGroup store header.snapshotGroupId).snapshotGroups := by
    intro other mem apart
    exact List.mem_filter.mpr ⟨mem,by simpa using apart⟩
  refine {
    nextOid := sound.nextOid
    names := sound.names
    stands := fun row mem => (sound.stands row mem).same rfl
    accounted := fun row mem => ?_
    groups := sound.groups.filter _
    manifests := fun other mem => ?_
    within := fun other mem => sound.within other (List.mem_of_mem_filter mem)
    tableRows := fun row mem => ?_
    nodeRows := fun row mem => ?_
    logged := fun entry mem unpurged => (sound.logged entry mem unpurged).same (sound.logged entry mem unpurged).row
    once := sound.once }
  · cases sound.accounted row mem with
    | shadow known state listed name record =>
      rename_i other table oid
      have apart : other.snapshotGroupId ≠ header.snapshotGroupId := by
        have outside := empty row mem (by rw [record]; rfl)
        rw [record] at outside
        simpa [shadowRecord] using outside
      exact .shadow (others other known apart) state (List.mem_filter.mpr ⟨listed,by simpa using apart⟩) name record
    | active state known serving listed name owner matching =>
      rename_i other table
      have apart : other.snapshotGroupId ≠ header.snapshotGroupId := by
        intro same
        -- the headers of one group are one row, and this one is loading
        have one := (lookupIff sound.groups).mpr ⟨known,same⟩
        cases one.symm.trans ((lookupIff sound.groups).mpr ⟨member,rfl⟩)
        rcases serving with active | moving
        · rw [loading] at active
          contradiction
        · exact resting moving
      exact .active state (others other known apart) serving (List.mem_filter.mpr ⟨listed,by simpa using apart⟩) name
        owner matching
    | quarantined known unpurged name record => exact .quarantined known unpurged name record
  · obtain ⟨known,apart⟩ := List.mem_filter.mp mem
    obtain ⟨request,stored⟩ := sound.manifests other known
    have apart : other.snapshotGroupId ≠ header.snapshotGroupId := by simpa using apart
    refine ⟨request,stored.same ?_ ?_⟩
    · simp only [withoutGroup,List.filter_filter]
      refine List.filter_congr fun row _ => ?_
      by_cases same : row.snapshotGroupId = other.snapshotGroupId <;> simp [same,apart]
    · simp only [withoutGroup,List.filter_filter]
      refine List.filter_congr fun row _ => ?_
      by_cases same : row.snapshotGroupId = other.snapshotGroupId <;> simp [same,apart]
  · obtain ⟨known,apart⟩ := List.mem_filter.mp mem
    obtain ⟨other,mem,same⟩ := sound.tableRows row known
    exact ⟨other,others other mem (by simpa [same] using apart),same⟩
  · obtain ⟨known,apart⟩ := List.mem_filter.mp mem
    obtain ⟨other,mem,same⟩ := sound.nodeRows row known
    exact ⟨other,others other mem (by simpa [same] using apart),same⟩

/-- Each change of a transaction that holds its fence keeps the metadata sound. -/
theorem soundChange {fence : PipelineFence} {store'} (held : fences fence.pipelineId = some fence.stored)
    (valid : 0 < fence.fencingToken) (sound : Sound platform fences transit store)
    (change : Change platform admits fence transit store store') : Sound platform fences transit store' := by
  cases change with
  | reshaped same => exact soundReshaped sound same
  | removed found _ standing => exact soundWithout sound found standing
  | shadowed member loading own listed vacant => exact soundShadowed held valid sound member loading own listed vacant
  | promoted moving listed relation found state owner matching apart vacant =>
    exact soundPromoted held valid sound moving listed relation found state owner matching apart vacant
  | quarantined moving valid' relation found state owner named apart vacant =>
    exact soundQuarantined held valid sound valid' relation found state owner named apart vacant
  | purged => exact soundPurged sound
  | registered canonical own fresh _ header' => exact soundRegistered held sound canonical own fresh header'
  | unregistered member _ loading resting empty => exact soundUnregistered sound member loading resting empty

theorem soundChanges {fence : PipelineFence} {store'} (held : fences fence.pipelineId = some fence.stored)
    (valid : 0 < fence.fencingToken) (sound : Sound platform fences transit store)
    (changes : Changes platform admits fence transit store store') : Sound platform fences transit store' := by
  induction changes with
  | refl => exact sound
  | tail _ change ih => exact soundChange held valid ih change

theorem spareChange {fence : PipelineFence} {store'} (sound : Sound platform fences transit store)
    (change : Change platform admits fence transit store store') : Spares fence.pipelineId store store' := by
  cases change with
  | reshaped same => exact sparesSame same.oids same.managedTables
  | removed found owner _ => exact sparesWithout found owner
  | shadowed member loading own listed vacant => exact sparesWith vacant (by simp [shadowRecord,own])
  | promoted moving listed relation found state owner matching apart vacant =>
    exact (sparesWithout found owner).trans (sparesWith ((loadWithout apart).trans vacant) owner)
  | quarantined moving valid' relation found state owner named apart vacant =>
    exact (sparesWithout found owner).trans (sparesWith ((loadWithout apart).trans vacant) owner)
  | purged member unpurged owner =>
    have row := (recordIff sound.names).mpr (sound.logged _ member unpurged).row
    exact sparesWithout row owner
  | registered => exact sparesSame (fun _ => rfl) rfl
  | unregistered => exact sparesSame (fun _ => rfl) rfl

/-- No change creates, renames or drops a relation that its pipeline does not manage. -/
theorem spareChanges {fence : PipelineFence} {store'} (held : fences fence.pipelineId = some fence.stored)
    (valid : 0 < fence.fencingToken) (sound : Sound platform fences transit store)
    (changes : Changes platform admits fence transit store store') : Spares fence.pipelineId store store' := by
  induction changes with
  | refl => exact .refl _ _
  | tail before change ih => exact ih.trans (spareChange (soundChanges held valid sound before) change)

theorem Sound.moving {group} (sound : Sound platform fences none store) : Sound platform fences (some group) store :=
  {sound with accounted := fun row mem => (sound.accounted row mem).moving}

theorem Sound.resting {group} (sound : Sound platform fences (some group) store)
    (serving : ∀ header ∈ store.snapshotGroups, header.snapshotGroupId = group → header.state = .active) :
    Sound platform fences none store := by
  refine {sound with accounted := fun row mem => ?_}
  cases sound.accounted row mem with
  | shadow member loading listed name record => exact .shadow member loading listed name record
  | active state member moving listed name owner matching =>
    refine .active state member (.inl ?_) listed name owner matching
    rcases moving with active | same
    · exact active
    · exact serving _ member (Option.some.inj same).symm
  | quarantined member unpurged name record => exact .quarantined member unpurged name record

theorem soundMarked {group store'} (sound : Sound platform fences (some group) store)
    (empty : ∀ row ∈ store.managedTables, row.record.state = .shadow → row.record.snapshotGroupId ≠ some group)
    (ok : markSnapshotGroupActive store group = .ok store') : Sound platform fences none store' := by
  obtain ⟨_,rfl⟩ := markSource ok
  have marked : ∀ header ∈ store.snapshotGroups, markedHeader group header ∈
      (store.snapshotGroups.map (markedHeader group)) := fun header mem => List.mem_map_of_mem mem
  refine {
    nextOid := sound.nextOid
    names := sound.names
    stands := fun row mem => (sound.stands row mem).same rfl
    accounted := fun row mem => ?_
    groups := sound.groups.mapSameKey fun header _ => (markedGroup group header).1
    manifests := fun header mem => ?_
    within := fun header mem => ?_
    tableRows := fun row mem => ?_
    nodeRows := fun row mem => ?_
    logged := fun entry mem unpurged => (sound.logged entry mem unpurged).same (sound.logged entry mem unpurged).row
    once := sound.once }
  · cases sound.accounted row mem with
    | shadow known loading listed name record =>
      rename_i header table oid
      have apart : header.snapshotGroupId ≠ group := by
        have outside := empty row mem (by rw [record]; rfl)
        rw [record] at outside
        simpa [shadowRecord] using outside
      have same : markedHeader group header = header := by simp [markedHeader,apart]
      exact .shadow (same ▸ marked header known) loading listed name record
    | active state known serving listed name owner matching =>
      rename_i header table
      obtain ⟨key,fence,_⟩ := markedGroup group header
      refine .active state (marked header known) (.inl ?_) (by rw [key]; exact listed) name (by rw [fence]; exact owner)
        (by rw [key]; exact matching)
      refine markedActive (serving.imp_right fun moving => ?_)
      exact (Option.some.inj moving).symm
    | quarantined known unpurged name record => exact .quarantined known unpurged name record
  · obtain ⟨header,known,rfl⟩ := List.mem_map.mp mem
    obtain ⟨request,stored⟩ := sound.manifests header known
    obtain ⟨key,fence,tableCount,nodeCount,checksum⟩ := markedGroup group header
    exact ⟨request,stored.canonical,key.trans stored.group,fence.trans stored.fence,tableCount.trans stored.tableCount,
      nodeCount.trans stored.nodeCount,checksum.trans stored.checksum,by rw [key]; exact stored.tables,
      by rw [key]; exact stored.nodes⟩
  · obtain ⟨header,known,rfl⟩ := List.mem_map.mp mem
    rw [(markedGroup group header).2.1]
    exact sound.within header known
  · obtain ⟨header,known,same⟩ := sound.tableRows row mem
    exact ⟨_,marked header known,(markedGroup group header).1.trans same⟩
  · obtain ⟨header,known,same⟩ := sound.nodeRows row mem
    exact ⟨_,marked header known,(markedGroup group header).1.trans same⟩

theorem soundFences {fences'} (sound : Sound platform fences transit store)
    (newer : ∀ pipeline current, fences pipeline = some current → ∃ later, fences' pipeline = some later ∧
      current.topologyGeneration ≤ later.topologyGeneration ∧ current.fencingToken ≤ later.fencingToken) :
    Sound platform fences' transit store := by
  have within : ∀ fence, Within fences fence → Within fences' fence := by
    rintro fence ⟨current,found,generation,token⟩
    obtain ⟨later,found',generation',token'⟩ := newer _ _ found
    exact ⟨later,found',Nat.le_trans generation generation',Int.le_trans token token'⟩
  refine {sound with
    stands := fun row mem => ?_
    within := fun header mem => within _ (sound.within header mem)
    logged := fun entry mem unpurged => ?_}
  · have stands := sound.stands row mem
    obtain ⟨current,found,token⟩ := stands.bounded
    obtain ⟨later,found',_,token'⟩ := newer _ _ found
    exact ⟨stands.relation,stands.token,later,found',Int.le_trans token token'⟩
  · have logged := sound.logged entry mem unpurged
    exact ⟨logged.row,logged.group,logged.fingerprint,logged.token,within _ logged.within,logged.named⟩

end Changes

end CloudberryEtl.Metadata
