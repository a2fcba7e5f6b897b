import CloudberryEtl.ActivatedGroup

/-! The changes of the target that a committed transaction is made of: a relation and its record leave a name or take a
free one, a manifest is registered or removed, a quarantine is logged or purged. Each constructor of `Change` keeps what
the code has checked before it. -/
namespace CloudberryEtl.StoreChange
open Schema Change TablePlan StagedApply KeyedTable Result TargetStore Manifest Activation Cleanup ActivatedGroup
open Checkpoint hiding databaseGeneration

def withoutTable (store : Store) (name : QualifiedName) : Store := {store with
  relations := Function.update store.relations name none
  managedTables := store.managedTables.filter (fun row => row.name ≠ name)}

def withoutTables (store : Store) (names : List QualifiedName) : Store := {store with
  relations := fun name => if name ∈ names then none else store.relations name
  managedTables := store.managedTables.filter (fun row => row.name ∉ names)}

theorem withoutEach (names : List QualifiedName) : ∀ store : Store,
    names.foldl withoutTable store = withoutTables store names := by
  induction names with
  | nil => simp [withoutTables]
  | cons name names ih =>
    intro store
    rw [List.foldl_cons,ih,withoutTables,withoutTables]
    congr 1
    · funext other
      by_cases here : other = name <;> simp [withoutTable,here]
    · simp only [withoutTable,List.filter_filter]
      exact List.filter_congr fun row _ => by simp [Bool.and_comm]

def withTable (store : Store) (name : QualifiedName) (relation : Relation) (record : ManagedTableRecord) : Store :=
  {store with
    relations := Function.update store.relations name (some relation)
    managedTables := store.managedTables ++ [⟨name,record⟩]}

def withoutGroup (store : Store) (group : Uuid) : Store := {store with
  snapshotGroups := store.snapshotGroups.filter (fun header => header.snapshotGroupId ≠ group)
  groupTables := store.groupTables.filter (fun row => row.snapshotGroupId ≠ group)
  groupNodes := store.groupNodes.filter (fun row => row.snapshotGroupId ≠ group)}

def withGroup (store : Store) (header : SnapshotGroup) (request : SnapshotActivationRequest) : Store := {store with
  snapshotGroups := store.snapshotGroups ++ [header]
  groupTables := store.groupTables ++ request.tables.map (GroupTable.mk request.snapshotGroupId)
  groupNodes := store.groupNodes ++ request.initialCheckpoints.map (groupNode request.snapshotGroupId)}

theorem oneRow {written} (ok : ensureOneMetadataRow written = .ok ()) : written = 1 := by
  unfold ensureOneMetadataRow at ok
  split at ok <;> first | assumption | contradiction

theorem relationOidWithout (store : Store) (name other : QualifiedName) :
    relationOid (withoutTable store name) other = if other = name then none else relationOid store other := by
  by_cases same : other = name <;> simp [relationOid,withoutTable,same]

theorem recordWithout (store : Store) (name other : QualifiedName) :
    managedRecord (withoutTable store name) other = if other = name then none else managedRecord store other := by
  by_cases same : other = name
  · subst same
    have gone : lookup ManagedTable.name (withoutTable store other).managedTables other = none :=
      lookupNone.mpr (by simp [withoutTable])
    simp [managedRecord,gone]
  · have kept : lookup ManagedTable.name (withoutTable store name).managedTables other =
        lookup ManagedTable.name store.managedTables other :=
      lookupFilterKept (by rintro row rfl; simpa using same)
    simp [managedRecord,kept,same]

theorem relationOidWith (store : Store) (name other : QualifiedName) (relation : Relation) (record : ManagedTableRecord) :
    relationOid (withTable store name relation record) other =
      if other = name then some relation.oid else relationOid store other := by
  by_cases same : other = name <;> simp [relationOid,withTable,same]

theorem recordWith {store : Store} {name : QualifiedName} (free : managedRecord store name = none)
    (other : QualifiedName) (relation : Relation) (record : ManagedTableRecord) :
    managedRecord (withTable store name relation record) other =
      if other = name then some record else managedRecord store other := by
  refine (managedAppend (withTable store name relation record) store.managedTables ⟨name,record⟩ other).trans ?_
  by_cases same : other = name
  · subst same
    have none' : (lookup ManagedTable.name store.managedTables other).map ManagedTable.record = none := free
    simp [none']
  · simp [managedRecord,same,Ne.symm same]

theorem memWithout {store : Store} {name row} :
    row ∈ (withoutTable store name).managedTables ↔ row ∈ store.managedTables ∧ row.name ≠ name := by
  simp [withoutTable]

theorem memWith {store : Store} {name relation record row} :
    row ∈ (withTable store name relation record).managedTables ↔ row ∈ store.managedTables ∨ row = ⟨name,record⟩ := by
  simp [withTable]

theorem loadWithout {store : Store} {name other} (apart : other ≠ name) :
    loadRelationState (withoutTable store name) other = loadRelationState store other :=
  loadSame (by simp [withoutTable,apart]) (by simp [recordWithout,apart])

structure Stored (platform : Platform) (store : Store) (header : SnapshotGroup) (request : SnapshotActivationRequest) :
    Prop where
  canonical : canonicalRequest request = .ok request
  group : header.snapshotGroupId = request.snapshotGroupId
  fence : header.fence = request.fence
  tableCount : header.tableCount = request.tables.length
  nodeCount : header.nodeCount = request.initialCheckpoints.length
  checksum : header.manifestChecksum = manifestChecksum platform request
  tables : store.groupTables.filter (fun row => row.snapshotGroupId = header.snapshotGroupId) =
    request.tables.map (GroupTable.mk request.snapshotGroupId)
  nodes : store.groupNodes.filter (fun row => row.snapshotGroupId = header.snapshotGroupId) =
    request.initialCheckpoints.map (groupNode request.snapshotGroupId)

theorem Stored.listed {platform store header request} (stored : Stored platform store header request) {table} :
    ⟨header.snapshotGroupId,table⟩ ∈ store.groupTables ↔ table ∈ request.tables := by
  have same : ⟨header.snapshotGroupId,table⟩ ∈ store.groupTables ↔
      (⟨header.snapshotGroupId,table⟩ : GroupTable) ∈
        store.groupTables.filter (fun row => row.snapshotGroupId = header.snapshotGroupId) := by simp
  rw [same,stored.tables]
  simp [stored.group]

theorem Stored.same {platform store store' header request} (stored : Stored platform store header request)
    (tables : store'.groupTables.filter (fun row => row.snapshotGroupId = header.snapshotGroupId) =
      store.groupTables.filter (fun row => row.snapshotGroupId = header.snapshotGroupId))
    (nodes : store'.groupNodes.filter (fun row => row.snapshotGroupId = header.snapshotGroupId) =
      store.groupNodes.filter (fun row => row.snapshotGroupId = header.snapshotGroupId)) :
    Stored platform store' header request :=
  ⟨stored.canonical,stored.group,stored.fence,stored.tableCount,stored.nodeCount,stored.checksum,
    tables.trans stored.tables,nodes.trans stored.nodes⟩

theorem validFingerprint {table} (ok : validateTable table = .ok ()) : table.schemaFingerprint ≠ "" := by
  obtain ⟨_,ok⟩ := iteOk.mp ok
  obtain ⟨_,ok⟩ := iteOk.mp ok
  obtain ⟨_,ok⟩ := iteOk.mp ok
  obtain ⟨_,_,ok⟩ := bindOk.mp ok
  exact (iteOk.mp ok).1

def markedHeader (group : Uuid) (header : SnapshotGroup) : SnapshotGroup :=
  if header.snapshotGroupId = group ∧ header.state = .loading then {header with state := .active} else header

theorem markSource {store group store'} (ok : markSnapshotGroupActive store group = .ok store') :
    (∃ header ∈ store.snapshotGroups, header.snapshotGroupId = group ∧ header.state = .loading) ∧
    store' = {store with snapshotGroups := store.snapshotGroups.map (markedHeader group)} := by
  obtain ⟨_,counted,ok⟩ := bindOk.mp ok
  cases Except.ok.inj ok
  refine ⟨?_,?_⟩
  · obtain ⟨header,mem⟩ := List.exists_mem_of_length_pos (Nat.lt_of_lt_of_eq Nat.zero_lt_one (oneRow counted).symm)
    obtain ⟨mem,selected⟩ := List.mem_filter.mp mem
    exact ⟨header,mem,by simpa using selected⟩
  · congr 2
    funext header
    simp [markedHeader]

theorem markedGroup (group : Uuid) (header : SnapshotGroup) :
    (markedHeader group header).snapshotGroupId = header.snapshotGroupId ∧
    (markedHeader group header).fence = header.fence ∧ (markedHeader group header).tableCount = header.tableCount ∧
    (markedHeader group header).nodeCount = header.nodeCount ∧
    (markedHeader group header).manifestChecksum = header.manifestChecksum := by
  unfold markedHeader
  split <;> exact ⟨rfl,rfl,rfl,rfl,rfl⟩

theorem markedActive {group header} (serving : header.state = .active ∨ header.snapshotGroupId = group) :
    (markedHeader group header).state = .active := by
  unfold markedHeader
  split
  · rfl
  · rename_i unmarked
    rcases serving with active | same
    · exact active
    · cases state : header.state with
      | loading => exact absurd ⟨same,state⟩ unmarked
      | active => rfl

structure Reshaped (store store' : Store) : Prop where
  oids : ∀ name, relationOid store' name = relationOid store name
  nextOid : store'.nextOid = store.nextOid
  managedTables : store'.managedTables = store.managedTables
  manifests : SameManifests store store'
  log : store'.reconciliationLog = store.reconciliationLog

theorem Reshaped.refl (store : Store) : Reshaped store store := ⟨fun _ => rfl,rfl,rfl,.refl store,rfl⟩

theorem Reshaped.trans {first second third : Store} (one : Reshaped first second) (two : Reshaped second third) :
    Reshaped first third :=
  ⟨fun name => (two.oids name).trans (one.oids name),two.nextOid.trans one.nextOid,
    two.managedTables.trans one.managedTables,one.manifests.trans two.manifests,two.log.trans one.log⟩

def shadowRecord (header : SnapshotGroup) (table : SnapshotActivationTable) (oid : Nat) : ManagedTableRecord :=
  ⟨header.fence.pipelineId,some header.snapshotGroupId,some oid,table.sourceRelationId,table.tableGeneration,
    table.schemaFingerprint,.shadow,header.fence.fencingToken⟩

def reconciliation (fence : PipelineFence) (group : Uuid) (now : Nat) (plan : QuarantinePlan) : Reconciliation :=
  ⟨group,plan.original,plan.quarantine,plan.record.relationOid,fence.pipelineId,fence.topologyGeneration,
    plan.record.sourceRelationId,plan.record.snapshotGroupId,plan.record.tableGeneration,plan.record.schemaFingerprint,
    plan.reason,some plan.record.fencingToken,fence.fencingToken,now,none,none⟩

def leftRecord (entry : Reconciliation) : ManagedTableRecord :=
  ⟨entry.pipelineId,entry.previousSnapshotGroupId,entry.quarantineRelationOid,entry.sourceRelationId,
    entry.tableGeneration,entry.schemaFingerprint,.quarantined,entry.fencingToken⟩

def purgedLog (now : Nat) (fence : PipelineFence) (entry : Reconciliation) (log : List Reconciliation) :
    List Reconciliation :=
  log.map (fun other => if other.quarantine = entry.quarantine ∧ other.purgedAt = none then
    {other with purgedAt := some now, purgedByFencingToken := some fence.fencingToken} else other)

abbrev Admission := Store → SnapshotActivationRequest → Prop

/- One change under the fence of its transaction. While an activation is under way, `transit` is its group. -/
inductive Change (platform : Platform) (admits : Admission) (fence : PipelineFence) (transit : Option Uuid) (store : Store) :
    Store → Prop where
  | reshaped {store' : Store} (same : Reshaped store store') : Change platform admits fence transit store store'
  | removed {name : QualifiedName} {record : ManagedTableRecord} (found : managedRecord store name = some record)
      (owner : record.pipelineId = fence.pipelineId) (standing : record.state ≠ .quarantined) :
      Change platform admits fence transit store (withoutTable store name)
  | shadowed {header : SnapshotGroup} {table : SnapshotActivationTable} {plan : CreateTablePlan}
      (member : header ∈ store.snapshotGroups) (loading : header.state = .loading) (own : header.fence = fence)
      (listed : ⟨header.snapshotGroupId,table⟩ ∈ store.groupTables)
      (vacant : loadRelationState store table.shadow = .vacant) :
      Change platform admits fence transit store {withTable store table.shadow ⟨store.nextOid,plan,[]⟩
        (shadowRecord header table store.nextOid) with nextOid := store.nextOid + 1}
  | promoted {group : Uuid} {table : SnapshotActivationTable} {relation : Relation} {record : ManagedTableRecord}
      (moving : transit = some group) (listed : ⟨group,table⟩ ∈ store.groupTables)
      (relation' : store.relations table.shadow = some relation)
      (found : managedRecord store table.shadow = some record) (state : record.state = .shadow)
      (owner : record.pipelineId = fence.pipelineId) (matching : matchesActivation record table group)
      (apart : table.target ≠ table.shadow) (vacant : loadRelationState store table.target = .vacant) :
      Change platform admits fence transit store (withTable (withoutTable store table.shadow) table.target relation
        {record with state := .active, fencingToken := fence.fencingToken})
  | quarantined {group : Uuid} {now : Nat} {plan : QuarantinePlan} {relation : Relation} (moving : transit.isSome)
      (valid : group ≠ Uuid.nil)
      (relation' : store.relations plan.original = some relation)
      (found : managedRecord store plan.original = some plan.record) (state : plan.record.state = .active)
      (owner : plan.record.pipelineId = fence.pipelineId)
      (named : quarantineName platform plan.original plan.record = .ok plan.quarantine)
      (apart : plan.quarantine ≠ plan.original) (vacant : loadRelationState store plan.quarantine = .vacant) :
      Change platform admits fence transit store {withTable (withoutTable store plan.original) plan.quarantine relation
        {plan.record with state := .quarantined, fencingToken := fence.fencingToken} with
        reconciliationLog := store.reconciliationLog ++ [reconciliation fence group now plan]}
  | purged {entry : Reconciliation} {now : Nat} (member : entry ∈ store.reconciliationLog) (unpurged : entry.purgedAt = none)
      (owner : entry.pipelineId = fence.pipelineId) :
      Change platform admits fence transit store {withoutTable store entry.quarantine with
        reconciliationLog := purgedLog now fence entry store.reconciliationLog}
  | registered {header : SnapshotGroup} {request : SnapshotActivationRequest}
      (canonical : canonicalRequest request = .ok request) (own : request.fence = fence)
      (fresh : ∀ other ∈ store.snapshotGroups, other.snapshotGroupId ≠ request.snapshotGroupId)
      (admitted : admits store request) (header' : header = ⟨request.snapshotGroupId,request.fence,.loading,request.tables.length,
        request.initialCheckpoints.length,manifestChecksum platform request⟩) :
      Change platform admits fence transit store (withGroup store header request)
  | unregistered {header : SnapshotGroup} (member : header ∈ store.snapshotGroups)
      (owner : header.fence.pipelineId = fence.pipelineId) (loading : header.state = .loading)
      (resting : transit ≠ some header.snapshotGroupId)
      (empty : ∀ row ∈ store.managedTables, row.record.state = .shadow →
        row.record.snapshotGroupId ≠ some header.snapshotGroupId) :
      Change platform admits fence transit store (withoutGroup store header.snapshotGroupId)

abbrev Changes (platform : Platform) (admits : Admission) (fence : PipelineFence) (transit : Option Uuid) :
    Store → Store → Prop :=
  Relation.ReflTransGen (Change platform admits fence transit)

/- A relation that the pipeline does not manage. -/
def Foreign (pipeline : PipelineId) (store : Store) (name : QualifiedName) : Prop :=
  (relationOid store name).isSome ∧ ∀ record, managedRecord store name = some record → record.pipelineId ≠ pipeline

def Spares (pipeline : PipelineId) (store store' : Store) : Prop :=
  ∀ name, Foreign pipeline store name ∨ Foreign pipeline store' name →
    relationOid store' name = relationOid store name ∧ managedRecord store' name = managedRecord store name

theorem Spares.refl (pipeline : PipelineId) (store : Store) : Spares pipeline store store := fun _ _ => ⟨rfl,rfl⟩

theorem foreignSame {pipeline store store' name} (oid : relationOid store' name = relationOid store name)
    (record : managedRecord store' name = managedRecord store name) :
    Foreign pipeline store' name ↔ Foreign pipeline store name := by
  rw [Foreign,Foreign,oid,record]

theorem Spares.trans {pipeline first second third} (one : Spares pipeline first second)
    (two : Spares pipeline second third) : Spares pipeline first third := by
  intro name foreign
  have middle : Foreign pipeline second name := by
    rcases foreign with here | there
    · obtain ⟨oid,record⟩ := one name (.inl here)
      exact (foreignSame oid record).mpr here
    · obtain ⟨oid,record⟩ := two name (.inr there)
      exact (foreignSame oid record).mp there
  obtain ⟨oid,record⟩ := one name (.inr middle)
  obtain ⟨oid',record'⟩ := two name (.inl middle)
  exact ⟨oid'.trans oid,record'.trans record⟩

theorem sparesSame {pipeline store store'} (oids : ∀ name, relationOid store' name = relationOid store name)
    (rows : store'.managedTables = store.managedTables) : Spares pipeline store store' :=
  fun name _ => ⟨oids name,by rw [managedRecord,managedRecord,rows]⟩

theorem sparesWithout {pipeline store name record} (found : managedRecord store name = some record)
    (owner : record.pipelineId = pipeline) : Spares pipeline store (withoutTable store name) := by
  intro other foreign
  have apart : other ≠ name := by
    rintro rfl
    rcases foreign with here | ⟨there,_⟩
    · exact here.2 record found owner
    · simp [relationOidWithout] at there
  simp [relationOidWithout,recordWithout,apart]

theorem sparesWith {pipeline store name relation record} (vacant : loadRelationState store name = .vacant)
    (owner : record.pipelineId = pipeline) : Spares pipeline store (withTable store name relation record) := by
  obtain ⟨empty,free⟩ := loadVacant.mp vacant
  intro other foreign
  have apart : other ≠ name := by
    rintro rfl
    rcases foreign with ⟨here,_⟩ | there
    · simp [relationOid,empty] at here
    · exact there.2 record (by simp [recordWith free]) owner
  simp [relationOidWith,recordWith free,apart]

end CloudberryEtl.StoreChange
