import CloudberryEtl.Transactions
import CloudberryEtl.Resume

/-! The states of the target that any owners reach from empty metadata. Their metadata is consistent with the catalog,
no transaction touches a relation that its pipeline does not manage, and a generation has one active group as long as
no activation is of a generation that another group serves. -/
namespace CloudberryEtl.Reachable
open Schema Change TablePlan StagedApply KeyedTable Result TargetStore Manifest ShadowLoad Activation Cleanup Fencing
open ActivatedGroup Maintenance StoreChange Metadata RoundTrip Moves Transactions
open Checkpoint hiding databaseGeneration

structure SoundTarget (platform : Platform) (target : Target) : Prop where
  store : Sound platform target.checkpoints.pipelineState none target.store
  fences : ∀ pipeline current, target.checkpoints.pipelineState pipeline = some current →
    current.topologyGeneration < 2 ^ 63 ∧ 0 < current.fencingToken

structure Fresh (target : Target) : Prop where
  pipelineState : ∀ pipeline, target.checkpoints.pipelineState pipeline = none
  nextOid : 0 < target.store.nextOid
  managedTables : target.store.managedTables = []
  snapshotGroups : target.store.snapshotGroups = []
  groupTables : target.store.groupTables = []
  groupNodes : target.store.groupNodes = []
  reconciliationLog : target.store.reconciliationLog = []

theorem freshSound (platform : Platform) {target} (fresh : Fresh target) : SoundTarget platform target := by
  refine ⟨⟨fresh.nextOid,?_,?_,?_,?_,?_,?_,?_,?_,?_,?_⟩,fun pipeline current found => ?_⟩
  · simp [fresh.managedTables,UniqueKeys]
  · simp [fresh.managedTables]
  · simp [fresh.managedTables]
  · simp [fresh.snapshotGroups,UniqueKeys]
  · simp [fresh.snapshotGroups]
  · simp [fresh.snapshotGroups]
  · simp [fresh.groupTables]
  · simp [fresh.groupNodes]
  · simp [fresh.reconciliationLog]
  · simp [fresh.reconciliationLog,UniqueKeys]
  · rw [fresh.pipelineState] at found
    contradiction

/- What a transaction leaves: nothing, a newer fence, a chain of changes under the stored fence, or an activation. -/
inductive Committed (platform : Platform) (admits : Admission) (target : Target) (operation : Operation) : Target → Prop where
  | idle : Committed platform admits target operation target
  | fenced (valid : operation.fence.topologyGeneration < 2 ^ 63 ∧ 0 < operation.fence.fencingToken)
      (newer : ∀ current, target.checkpoints.pipelineState operation.fence.pipelineId = some current →
        current.topologyGeneration ≤ operation.fence.topologyGeneration ∧
        current.fencingToken ≤ operation.fence.fencingToken) :
      Committed platform admits target operation {target with checkpoints := target.checkpoints.putFence operation.fence}
  | changed {target' : Target} (guard : Guarded operation.fence target target')
      (changes : Changes platform admits operation.fence none target.store target'.store) :
      Committed platform admits target operation target'
  | activated {target' : Target} {now : Nat} {request : SnapshotActivationRequest}
      (kind : operation = .activateSnapshotGroup now request) (guard : Guarded operation.fence target target')
      (changes : ActivationChanges platform admits operation.fence request.snapshotGroupId target.store target'.store) :
      Committed platform admits target operation target'

theorem activatedFence {tables fence tables'} (ok : activatePipelineFence tables fence = .ok tables') :
    fence.topologyGeneration < 2 ^ 63 ∧ 0 < fence.fencingToken := by
  obtain ⟨_,_,ok⟩ := bindOk.mp ok
  obtain ⟨_,valid,_⟩ := bindOk.mp ok
  obtain ⟨_,range,positive⟩ := bindOk.mp valid
  obtain ⟨positive,_⟩ := iteOk.mp positive
  unfold Checkpoint.databaseGeneration at range
  split at range
  · exact ⟨by assumption,by omega⟩
  · contradiction

def Admitted (admits : Admission) (target : Target) : Operation → Prop
  | .beginSnapshotGroup request => AdmittedBy admits target.store request
  | _ => True

def anyRequest : Admission := fun _ _ => True

theorem anyAdmitted (target : Target) (operation : Operation) : Admitted anyRequest target operation := by
  cases operation <;> first | exact fun _ _ _ => trivial | exact trivial

section Steps
variable {platform : Platform} {equal : Operators} {target : Target} {admits : Admission}

theorem stepCommitted (sound : SoundTarget platform target) (operation : Operation)
    (admitted : Admitted admits target operation) :
    Committed platform admits target operation (step platform equal target operation) := by
  unfold step
  cases committed : commit platform equal target operation with
  | none => exact .idle
  | some target' =>
    rw [Option.getD_some]
    cases operation with
    | activatePipelineFence fence =>
      obtain ⟨checkpoints,ok,rfl⟩ := Option.map_eq_some_iff.mp committed
      have valid := activatedFence (toOptionSome.mp ok)
      obtain ⟨newer,rfl⟩ := activateSource (toOptionSome.mp ok)
      exact .fenced valid newer
    | executeApply request =>
      obtain ⟨result,ok,rfl⟩ := Option.map_eq_some_iff.mp committed
      exact .changed (executeApplyGuarded (toOptionSome.mp ok)) (applyChanges (toOptionSome.mp ok))
    | beginSnapshotGroup request =>
      obtain ⟨result,ok,rfl⟩ := Option.map_eq_some_iff.mp committed
      exact .changed (beginSnapshotGroupGuarded (toOptionSome.mp ok)) (beginChanges admitted (toOptionSome.mp ok))
    | snapshotApply plan ownership copied =>
      have ok := toOptionSome.mp committed
      exact .changed (snapshotApplyGuarded ok) (loadChanges sound.store ok)
    | activateSnapshotGroup now request =>
      obtain ⟨result,ok,rfl⟩ := Option.map_eq_some_iff.mp committed
      exact .activated rfl (activateSnapshotGroupGuarded (toOptionSome.mp ok))
        (activateChanges sound.store (toOptionSome.mp ok))
    | cleanupLoadingSnapshotGroup request =>
      obtain ⟨result,ok,rfl⟩ := Option.map_eq_some_iff.mp committed
      refine .changed (cleanupLoadingGuarded (toOptionSome.mp ok)) ?_
      obtain ⟨_,_,ok⟩ := bindOk.mp (toOptionSome.mp ok)
      obtain ⟨_,_,ok⟩ := bindOk.mp ok
      obtain ⟨⟨outcome,store⟩,locked,ok⟩ := bindOk.mp ok
      cases Except.ok.inj ok
      exact cleanupLockedChanges sound.store locked
    | cleanupStaleSnapshotGroups fence =>
      obtain ⟨result,ok,rfl⟩ := Option.map_eq_some_iff.mp committed
      exact .changed (cleanupStaleGuarded (toOptionSome.mp ok)) (cleanupStaleChanges sound.store (toOptionSome.mp ok))
    | garbageCollect now fence policy =>
      obtain ⟨result,ok,rfl⟩ := Option.map_eq_some_iff.mp committed
      rcases garbageCollectGuarded (toOptionSome.mp ok) with same | guard
      · rw [same]
        exact .idle
      · exact .changed guard (garbageCollectChanges sound.store (toOptionSome.mp ok))

theorem guardedFence {fence target'} (sound : SoundTarget platform target) (guard : Guarded fence target target') :
    0 < fence.fencingToken := (sound.fences _ _ guard.held).2

theorem soundMoved {fence group store'} {fences : PipelineId → Option StoredFence}
    (held : fences fence.pipelineId = some fence.stored) (valid : 0 < fence.fencingToken)
    (sound : Sound platform fences none target.store)
    (changes : ActivationChanges platform admits fence group target.store store') :
    Sound platform fences none store' ∧ Spares fence.pipelineId target.store store' := by
  cases changes with
  | retried changes serving =>
    exact ⟨(soundChanges held valid sound.moving changes).resting serving,spareChanges held valid sound.moving changes⟩
  | marked member named own changes manifests empty marking =>
    have moved := soundChanges held valid sound.moving changes
    refine ⟨soundMarked moved empty marking,(spareChanges held valid sound.moving changes).trans ?_⟩
    obtain ⟨_,rfl⟩ := markSource marking
    exact sparesSame (fun _ => rfl) rfl

theorem committedSound {operation target'} (sound : SoundTarget platform target)
    (committed : Committed platform admits target operation target') :
    SoundTarget platform target' ∧ Spares operation.fence.pipelineId target.store target'.store := by
  cases committed with
  | idle => exact ⟨sound,.refl _ _⟩
  | fenced valid newer =>
    refine ⟨⟨soundFences sound.store fun pipeline current found => ?_,fun pipeline current found => ?_⟩,.refl _ _⟩
    · by_cases same : pipeline = operation.fence.pipelineId
      · subst same
        obtain ⟨generation,token⟩ := newer current found
        exact ⟨operation.fence.stored,by simp [CheckpointTables.putFence],generation,token⟩
      · exact ⟨current,by simpa [CheckpointTables.putFence,same] using found,Nat.le_refl _,Int.le_refl _⟩
    · by_cases same : pipeline = operation.fence.pipelineId
      · subst same
        have stored : operation.fence.stored = current := by simpa [CheckpointTables.putFence] using found
        rw [← stored]
        exact valid
      · exact sound.fences pipeline current (by simpa [CheckpointTables.putFence,same] using found)
  | changed guard changes =>
    have fences := guard.keeps.fences
    have valid := guardedFence sound guard
    refine ⟨⟨?_,?_⟩,spareChanges guard.held valid sound.store changes⟩
    · rw [fences]
      exact soundChanges guard.held valid sound.store changes
    · rw [fences]
      exact sound.fences
  | activated _ guard changes =>
    have fences := guard.keeps.fences
    obtain ⟨moved,spares⟩ := soundMoved guard.held (guardedFence sound guard) sound.store changes
    refine ⟨⟨?_,?_⟩,spares⟩
    · rw [fences]
      exact moved
    · rw [fences]
      exact sound.fences

theorem stepSound (sound : SoundTarget platform target) (operation : Operation) :
    SoundTarget platform (step platform equal target operation) :=
  (committedSound sound (stepCommitted sound operation (anyAdmitted target operation))).1

theorem runSound (operations : List Operation) : ∀ {target : Target}, SoundTarget platform target →
    SoundTarget platform (run platform equal target operations) := by
  induction operations with
  | nil => exact fun sound => sound
  | cons operation operations ih => exact fun sound => ih (stepSound sound operation)

end Steps

def OneActive (store : Store) : Prop :=
  ∀ one ∈ store.snapshotGroups, ∀ two ∈ store.snapshotGroups, one.state = .active → two.state = .active →
    one.fence.pipelineId = two.fence.pipelineId → one.fence.topologyGeneration = two.fence.topologyGeneration → one = two

structure Consistent (store : Store) : Prop where
  present : ∀ row ∈ store.managedTables, ∃ relation, store.relations row.name = some relation ∧
    row.record.relationOid = some relation.oid
  shadows : ∀ row ∈ store.managedTables, row.record.state = .shadow → ∃ header ∈ store.snapshotGroups,
    row.record.snapshotGroupId = some header.snapshotGroupId ∧ header.state = .loading ∧
    header.fence.pipelineId = row.record.pipelineId ∧
    ∃ table, ⟨header.snapshotGroupId,table⟩ ∈ store.groupTables ∧ table.shadow = row.name
  actives : ∀ row ∈ store.managedTables, row.record.state = .active → ∃ header ∈ store.snapshotGroups,
    row.record.snapshotGroupId = some header.snapshotGroupId ∧ header.state = .active ∧
    header.fence.pipelineId = row.record.pipelineId
  oneActive : OneActive store
  quarantined : ∀ row ∈ store.managedTables, row.record.state = .quarantined →
    (store.reconciliationLog.filter (fun entry => entry.quarantine = row.name ∧ entry.purgedAt = none)).length = 1

section Consistency
variable {platform : Platform} {equal : Operators} {admits : Admission}

theorem openEntry {fences transit store entry} (sound : Sound platform fences transit store)
    (member : entry ∈ store.reconciliationLog) (unpurged : entry.purgedAt = none) :
    store.reconciliationLog.filter (fun other => other.quarantine = entry.quarantine ∧ other.purgedAt = none) = [entry] := by
  have opened : entry ∈ store.reconciliationLog.filter (fun other => other.purgedAt = none) :=
    List.mem_filter.mpr ⟨member,by simpa using unpurged⟩
  have split : store.reconciliationLog.filter (fun other => other.quarantine = entry.quarantine ∧ other.purgedAt = none) =
      (store.reconciliationLog.filter (fun other => other.purgedAt = none)).filter
        (fun other => other.quarantine = entry.quarantine) := by
    rw [List.filter_filter]
    exact List.filter_congr fun other _ => by simp
  rw [split,filterKey sound.once,lookupOfMem sound.once opened]
  rfl

theorem consistentSound {fences store} (sound : Sound platform fences none store) (alone : OneActive store) :
    Consistent store where
  present row mem := by
    obtain ⟨oid,_,placed,recorded⟩ := (sound.stands row mem).relation
    obtain ⟨relation,found,rfl⟩ := Option.map_eq_some_iff.mp placed
    exact ⟨relation,found,recorded⟩
  shadows row mem state := by
    obtain ⟨header,member,table,oid,loading,listed,name,record⟩ := (sound.accounted row mem).whenShadow state
    exact ⟨header,member,by rw [record]; rfl,loading,by rw [record]; rfl,table,listed,name.symm⟩
  actives row mem state := by
    obtain ⟨header,member,table,serving,_,_,owner,matching⟩ := (sound.accounted row mem).whenActive state
    simp only [matchesActivation,decide_eq_true_eq] at matching
    exact ⟨header,member,matching.1,serving.resolve_right (by simp),owner.symm⟩
  oneActive := alone
  quarantined row mem state := by
    obtain ⟨entry,member,unpurged,name,_⟩ := (sound.accounted row mem).whenQuarantined state
    rw [name,openEntry sound member unpurged]
    rfl

theorem activeBefore {fence transit store store'} (change : Change platform admits fence transit store store') {header}
    (member : header ∈ store'.snapshotGroups) (active : header.state = .active) : header ∈ store.snapshotGroups := by
  cases change with
  | reshaped same => exact same.manifests.headers ▸ member
  | removed => exact member
  | shadowed => exact member
  | promoted => exact member
  | quarantined => exact member
  | purged => exact member
  | registered _ _ _ _ header' =>
    rcases List.mem_append.mp member with member | member
    · exact member
    · rw [List.mem_singleton.mp member,header'] at active
      contradiction
  | unregistered => exact List.mem_of_mem_filter member

theorem activesBefore {fence transit store store'} (changes : Changes platform admits fence transit store store') {header}
    (member : header ∈ store'.snapshotGroups) (active : header.state = .active) : header ∈ store.snapshotGroups := by
  induction changes with
  | refl => exact member
  | tail _ change ih => exact ih (activeBefore change member active)

def ActivatesAlone (target : Target) : Operation → Prop
  | .activateSnapshotGroup _ request => ∀ header ∈ target.store.snapshotGroups, header.state = .active →
      header.fence.pipelineId = request.fence.pipelineId →
      header.fence.topologyGeneration = request.fence.topologyGeneration →
      header.snapshotGroupId = request.snapshotGroupId
  | _ => True

instance (target : Target) : (operation : Operation) → Decidable (ActivatesAlone target operation)
  | .activateSnapshotGroup _ _ => inferInstanceAs (Decidable (∀ header ∈ target.store.snapshotGroups, _ → _ → _ → _))
  | .activatePipelineFence _ | .executeApply _ | .beginSnapshotGroup _ | .snapshotApply _ _ _
  | .cleanupLoadingSnapshotGroup _ | .cleanupStaleSnapshotGroups _ | .garbageCollect _ _ _ => .isTrue trivial

variable (platform equal) in
def EachAlone : Target → List Operation → Prop
  | _,[] => True
  | target,operation :: operations =>
      ActivatesAlone target operation ∧ EachAlone (step platform equal target operation) operations

variable (platform equal) in
def decideEachAlone : (target : Target) → (operations : List Operation) → Decidable (EachAlone platform equal target operations)
  | _,[] => .isTrue trivial
  | target,operation :: operations =>
      @instDecidableAnd _ _ inferInstance (decideEachAlone (step platform equal target operation) operations)

instance (target : Target) (operations : List Operation) : Decidable (EachAlone platform equal target operations) :=
  decideEachAlone platform equal target operations

theorem committedAlone {target operation target'} (sound : SoundTarget platform target) (alone : OneActive target.store)
    (fresh : ActivatesAlone target operation) (committed : Committed platform admits target operation target') :
    OneActive target'.store := by
  cases committed with
  | idle => exact alone
  | fenced => exact alone
  | changed _ changes =>
    intro one memOne two memTwo activeOne activeTwo
    exact alone one (activesBefore changes memOne activeOne) two (activesBefore changes memTwo activeTwo) activeOne activeTwo
  | activated kind guard changes =>
    rename_i now request
    subst kind
    cases changes with
    | retried changes _ =>
      intro one memOne two memTwo activeOne activeTwo
      exact alone one (activesBefore changes memOne activeOne) two (activesBefore changes memTwo activeTwo) activeOne
        activeTwo
    | marked member named own changes manifests empty marking =>
      rename_i header middle
      obtain ⟨_,marked⟩ := markSource marking
      rw [marked]
      -- every active header was active before, or is the one of the group
      have before : ∀ other ∈ middle.snapshotGroups.map (markedHeader request.snapshotGroupId), other.state = .active →
          (other ∈ target.store.snapshotGroups ∨ other = markedHeader request.snapshotGroupId header) := by
        intro other mem active
        obtain ⟨source,known,rfl⟩ := List.mem_map.mp mem
        rw [manifests.headers] at known
        by_cases same : source.snapshotGroupId = request.snapshotGroupId
        · have one := (lookupIff sound.store.groups).mpr ⟨known,same⟩
          cases one.symm.trans ((lookupIff sound.store.groups).mpr ⟨member,named⟩)
          exact .inr rfl
        · have kept : markedHeader request.snapshotGroupId source = source := by simp [markedHeader,same]
          rw [kept]
          exact .inl known
      obtain ⟨key,fence,_⟩ := markedGroup request.snapshotGroupId header
      have own' : header.fence = request.fence := own
      have joins : ∀ other ∈ target.store.snapshotGroups, other.state = .active →
          other.fence.pipelineId = header.fence.pipelineId →
          other.fence.topologyGeneration = header.fence.topologyGeneration →
          other = markedHeader request.snapshotGroupId header := by
        intro other known active pipeline generation
        rw [own'] at pipeline generation
        have same := fresh other known active pipeline generation
        have one := (lookupIff sound.store.groups).mpr ⟨known,same⟩
        cases one.symm.trans ((lookupIff sound.store.groups).mpr ⟨member,named⟩)
        simp [markedHeader,active]
      intro one memOne two memTwo activeOne activeTwo pipeline generation
      rcases before one memOne activeOne with knownOne | rfl <;> rcases before two memTwo activeTwo with knownTwo | rfl
      · exact alone one knownOne two knownTwo activeOne activeTwo pipeline generation
      · rw [fence] at pipeline generation
        exact joins one knownOne activeOne pipeline generation
      · rw [fence] at pipeline generation
        exact (joins two knownTwo activeTwo pipeline.symm generation.symm).symm
      · rfl

theorem runAlone (operations : List Operation) : ∀ {target : Target}, SoundTarget platform target →
    OneActive target.store → EachAlone platform equal target operations →
    OneActive (run platform equal target operations).store := by
  induction operations with
  | nil => exact fun _ alone _ => alone
  | cons operation operations ih =>
    intro target sound alone ⟨fresh,rest⟩
    exact ih (stepSound sound operation) (committedAlone sound alone fresh
      (stepCommitted sound operation (anyAdmitted target operation))) rest

/-- From empty metadata and under any interleaving of transactions of any owners, the metadata is consistent in every
state, as long as no group is activated in a generation that another group serves; and no transaction creates, renames
or drops a relation that is unmanaged or managed by another pipeline. -/
theorem metadataConsistent {start : Target} {operations : List Operation} (fresh : Fresh start)
    (alone : EachAlone platform equal start operations) :
    Consistent (run platform equal start operations).store ∧
    ∀ operation, Spares operation.fence.pipelineId (run platform equal start operations).store
      (step platform equal (run platform equal start operations) operation).store := by
  have sound := freshSound platform fresh
  have reached : SoundTarget platform (run platform equal start operations) := runSound operations sound
  refine ⟨consistentSound reached.store (runAlone operations sound ?_ alone),fun operation => ?_⟩
  · intro one mem
    rw [fresh.snapshotGroups] at mem
    contradiction
  · exact (committedSound reached (stepCommitted reached operation (anyAdmitted _ operation))).2

end Consistency

section Sample
open Resume

def idTable (table : SnapshotActivationTable) : SnapshotTargetPlan :=
  ⟨table.target,⟨table.shadow,[⟨1,"id","bigint",false,some 1⟩],["id"],["id"],[],"CREATE TABLE " ++ table.shadow.display ++
    " (\n    \"id\" bigint NOT NULL,\n    PRIMARY KEY (\"id\")\n)\nUSING heap\nDISTRIBUTED BY (\"id\")"⟩,
    table.sourceRelationId,table.tableGeneration⟩

def groupRequest (fence : PipelineFence) (group : Uuid) (tables : List SnapshotActivationTable) : SnapshotActivationRequest :=
  ⟨fence,group,tables,[⟨⟨fence.pipelineId,fence.topologyGeneration,0⟩,42,1,"pg2cb_slot",100⟩]⟩

def loadGroup (request : SnapshotActivationRequest) : List Operation :=
  .beginSnapshotGroup request :: request.tables.map (fun table =>
    .snapshotApply (idTable table) ⟨request.fence,request.snapshotGroupId,table.schemaFingerprint⟩ (some []))

def serveGroup (request : SnapshotActivationRequest) : List Operation :=
  loadGroup request ++ [.activateSnapshotGroup 0 request]

def accountsTable : SnapshotActivationTable :=
  ⟨⟨"dw","accounts",dwValid,accountsValid⟩,⟨"dw","accounts_shadow",dwValid,accountsShadowValid⟩,16385,1,"accounts v1"⟩

def ordersTable : SnapshotActivationTable :=
  ⟨⟨"dw","orders",dwValid,ordersValid⟩,⟨"dw","orders_shadow",dwValid,ordersShadowValid⟩,16386,1,"orders v1"⟩

def firstFence : PipelineFence := ⟨7,1,1⟩

def serveAccounts : List Operation :=
  .activatePipelineFence firstFence :: serveGroup (groupRequest firstFence 1 [accountsTable])

def serveBoth : List Operation := serveAccounts ++ serveGroup (groupRequest firstFence 2 [ordersTable])

theorem emptyFresh : Fresh emptyTarget := ⟨fun _ => rfl,Nat.zero_lt_one,rfl,rfl,rfl,rfl,rfl⟩

theorem bothActive : ((run sha256Platform textOperators emptyTarget serveBoth).store.snapshotGroups.map
    (fun header => (header.snapshotGroupId,header.fence,header.state))) =
    [(1,firstFence,.active),(2,firstFence,.active)] := by decide +kernel

theorem twoGroupsServe : Fresh emptyTarget ∧ ¬ Consistent (run sha256Platform textOperators emptyTarget serveBoth).store := by
  refine ⟨emptyFresh,fun consistent => ?_⟩
  have both := bothActive
  generalize run sha256Platform textOperators emptyTarget serveBoth = reached at both consistent
  obtain ⟨one,rest,headers,first,others⟩ := List.map_eq_cons_iff.mp both
  obtain ⟨two,_,rfl,second,_⟩ := List.map_eq_cons_iff.mp others
  simp only [Prod.mk.injEq] at first second
  have same := consistent.oneActive one (by simp [headers]) two (by simp [headers]) first.2.2 second.2.2
    (by rw [first.2.1,second.2.1]) (by rw [first.2.1,second.2.1])
  rw [same,second.1] at first
  exact absurd first.1 (by decide)

def secondFence : PipelineFence := ⟨7,2,2⟩

def accountsAgain : SnapshotActivationTable :=
  ⟨⟨"dw","accounts",dwValid,accountsValid⟩,⟨"dw","accounts_shadow_2",dwValid,accountsShadow2Valid⟩,16385,2,"accounts v2"⟩

def replaceAccounts : List Operation :=
  serveAccounts ++ .activatePipelineFence secondFence :: serveGroup (groupRequest secondFence 2 [accountsAgain])

theorem accountsConsistent : Consistent (run sha256Platform textOperators emptyTarget replaceAccounts).store ∧
    ((run sha256Platform textOperators emptyTarget replaceAccounts).store.snapshotGroups.map
      (fun header => (header.snapshotGroupId,header.fence,header.state))) =
      [(1,firstFence,.active),(2,secondFence,.active)] :=
  ⟨(metadataConsistent emptyFresh (by decide +kernel)).1,by decide +kernel⟩

end Sample

end CloudberryEtl.Reachable
