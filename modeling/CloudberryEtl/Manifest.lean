import CloudberryEtl.TargetStore

/-! Registration and validation of snapshot-group manifests, from `target::snapshot::manifest`. -/
namespace CloudberryEtl.Manifest
open Schema Change TablePlan StagedApply SqlText KeyedTable Result TargetStore
open Checkpoint hiding databaseGeneration

def beBytes (width value : Nat) : Bytes := (List.range width).reverse.map (fun place => UInt8.ofNat (value / 256 ^ place))

def beInt (width : Nat) (value : Int) : Bytes := beBytes width (value % 256 ^ width).toNat

def strBytes (value : String) : Bytes := value.toByteArray.data.toList

def hashField (value : Bytes) : Bytes := beBytes 8 value.length ++ value

def nameLe (left right : QualifiedName) : Prop :=
  left.schema < right.schema ∨ (left.schema = right.schema ∧ left.name ≤ right.name)

instance : DecidableRel nameLe := fun left right => by unfold nameLe; infer_instance

def adjacentSame {α : Type} (same : α → α → Bool) : List α → Bool
  | first :: second :: rest => same first second || adjacentSame same (second :: rest)
  | _ => false

def validateTable (table : SnapshotActivationTable) : Except SnapshotTargetError Unit :=
  if table.target = table.shadow then .error .targetIsShadow
  else if table.target.schema ≠ table.shadow.schema then
    .error (.crossSchemaShadowUnsupported table.target.display table.shadow.display)
  else if table.sourceRelationId = 0 then .error .invalidActivationSourceRelation
  else do
    let _ ← databaseGeneration table.tableGeneration
    if table.schemaFingerprint = "" then .error (.emptyActivationFingerprint table.target.display) else .ok ()

def validateBoundary (fence : PipelineFence) (checkpoint : NodeCheckpoint) : Except SnapshotTargetError Unit :=
  if checkpoint.key.pipelineId ≠ fence.pipelineId ∨ checkpoint.key.topologyGeneration ≠ fence.topologyGeneration then
    .error (.checkpoint .fenceKeyMismatch)
  else if checkpoint.appliedLsn = 0 then .error (.zeroInitialCheckpoint checkpoint.key.nodeId)
  else do
    let _ ← (checkpointReached none checkpoint).mapError .checkpoint
    .ok ()

def sortTables (tables : List SnapshotActivationTable) : List SnapshotActivationTable :=
  tables.insertionSort (fun left right => nameLe left.target right.target)

def sortBoundaries (checkpoints : List NodeCheckpoint) : List NodeCheckpoint :=
  checkpoints.insertionSort (fun left right => left.key.nodeId ≤ right.key.nodeId)

def relationNames (tables : List SnapshotActivationTable) : List QualifiedName :=
  tables.flatMap (fun table => [table.target,table.shadow])

def canonicalRequest (request : SnapshotActivationRequest) : Except SnapshotTargetError SnapshotActivationRequest := do
  if request.snapshotGroupId = Uuid.nil then .error .invalidSnapshotGroupId
  else if request.tables = [] ∨ request.initialCheckpoints = [] then .error .emptyActivationGroup
  else if request.fence.fencingToken ≤ 0 then .error (.checkpoint .invalidFencingToken)
  else
    let _ ← databaseGeneration request.fence.topologyGeneration
    let _ ← request.tables.mapM validateTable
    let tables := sortTables request.tables
    if adjacentSame (fun left right => left.target = right.target) tables then .error .duplicateActivationIdentity
    else if ¬ (relationNames tables).Nodup ∨ ¬ (tables.map SnapshotActivationTable.sourceRelationId).Nodup then
      .error .duplicateActivationIdentity
    else
      let _ ← request.initialCheckpoints.mapM (validateBoundary request.fence)
      let initialCheckpoints := sortBoundaries request.initialCheckpoints
      if adjacentSame (fun left right => left.key.nodeId = right.key.nodeId) initialCheckpoints then
        .error .duplicateActivationIdentity
      else .ok ⟨request.fence,request.snapshotGroupId,tables,initialCheckpoints⟩

def tableFields (table : SnapshotActivationTable) : List Bytes :=
  [strBytes table.target.schema,strBytes table.target.name,strBytes table.shadow.schema,strBytes table.shadow.name,
    beBytes 4 table.sourceRelationId,beBytes 8 table.tableGeneration,strBytes table.schemaFingerprint]

def boundaryFields (checkpoint : NodeCheckpoint) : List Bytes :=
  [beInt 4 checkpoint.key.nodeId,beBytes 8 checkpoint.systemIdentifier,beBytes 4 checkpoint.timeline,
    strBytes checkpoint.slotName,beBytes 8 checkpoint.appliedLsn]

def manifestFields (request : SnapshotActivationRequest) : List Bytes :=
  [strBytes "pg2cb-snapshot-manifest-v1",beBytes 16 request.snapshotGroupId,beBytes 16 request.fence.pipelineId,
    beBytes 8 request.fence.topologyGeneration] ++
  request.tables.flatMap tableFields ++ request.initialCheckpoints.flatMap boundaryFields

structure StoredSnapshotGroup where
  state : SnapshotGroupState
  request : SnapshotActivationRequest
  deriving DecidableEq, Repr

inductive SnapshotGroupRegistrationDisposition where
  | registered | alreadyRegistered | alreadyActive
  deriving DecidableEq, Repr

def groupNode (group : Uuid) (checkpoint : NodeCheckpoint) : GroupNode :=
  ⟨group,checkpoint.key.nodeId,checkpoint.systemIdentifier,checkpoint.timeline,checkpoint.slotName,checkpoint.appliedLsn⟩

def checkpointFromRow (pipelineId : PipelineId) (topologyGeneration : Nat) (row : GroupNode) : NodeCheckpoint :=
  ⟨⟨pipelineId,topologyGeneration,row.nodeId⟩,row.systemIdentifier,row.timeline,row.slotName,row.consistentLsn⟩

section Platform
variable (platform : Platform)

def manifestChecksum (request : SnapshotActivationRequest) : Bytes :=
  platform.sha256 ((manifestFields request).flatMap hashField)

def orderedLe (left right : QualifiedName) : Prop :=
  platform.textLe left.schema right.schema ∧
    (platform.textLe right.schema left.schema → platform.textLe left.name right.name)

instance : DecidableRel (orderedLe platform) := fun left right => by unfold orderedLe; infer_instance

/- The counts of the three INSERTs are those of the lists they unnest, and a canonical request violates none of the
unique constraints. -/
def insertSnapshotGroup (store : Store) (request : SnapshotActivationRequest) : Except SnapshotTargetError Store := do
  let _ ← databaseGeneration request.fence.topologyGeneration
  let header : SnapshotGroup := ⟨request.snapshotGroupId,request.fence,.loading,request.tables.length,
    request.initialCheckpoints.length,manifestChecksum platform request⟩
  .ok {store with
    snapshotGroups := store.snapshotGroups ++ [header]
    groupTables := store.groupTables ++ request.tables.map (GroupTable.mk request.snapshotGroupId)
    groupNodes := store.groupNodes ++ request.initialCheckpoints.map (groupNode request.snapshotGroupId)}

def groupTablesOf (store : Store) (group : Uuid) : List SnapshotActivationTable :=
  ((store.groupTables.filter (fun row => row.snapshotGroupId = group)).map GroupTable.table).insertionSort
    (fun left right => orderedLe platform left.target right.target)

def groupNodesOf (store : Store) (group : Uuid) : List GroupNode :=
  (store.groupNodes.filter (fun row => row.snapshotGroupId = group)).insertionSort
    (fun left right => left.nodeId ≤ right.nodeId)

def reconstruct (store : Store) (header : SnapshotGroup) : SnapshotActivationRequest :=
  ⟨header.fence,header.snapshotGroupId,groupTablesOf platform store header.snapshotGroupId,
    (groupNodesOf store header.snapshotGroupId).map
      (checkpointFromRow header.fence.pipelineId header.fence.topologyGeneration)⟩

def readSnapshotGroup (store : Store) (header : SnapshotGroup) : Except SnapshotTargetError StoredSnapshotGroup :=
  let corrupt := SnapshotTargetError.corruptSnapshotGroupManifest header.snapshotGroupId
  let request := reconstruct platform store header
  if header.tableCount = 0 ∨ header.nodeCount = 0 then .error corrupt
  else if header.fence.fencingToken ≤ 0 ∨ header.manifestChecksum.length ≠ 32 then .error corrupt
  else if request.tables.length ≠ header.tableCount then .error corrupt
  else if request.initialCheckpoints.length ≠ header.nodeCount then .error corrupt
  else match canonicalRequest request with
  | .error _ => .error corrupt
  | .ok canonical =>
    if canonical ≠ request ∨ manifestChecksum platform canonical ≠ header.manifestChecksum then .error corrupt
    else .ok ⟨header.state,canonical⟩

def loadSnapshotGroupOptional (store : Store) (group : Uuid) :
    Except SnapshotTargetError (Option StoredSnapshotGroup) :=
  if group = Uuid.nil then .error .invalidSnapshotGroupId
  else match lookup SnapshotGroup.snapshotGroupId store.snapshotGroups group with
  | none => .ok none
  | some header => (readSnapshotGroup platform store header).map some

def loadSnapshotGroup (store : Store) (group : Uuid) : Except SnapshotTargetError StoredSnapshotGroup := do
  match ← loadSnapshotGroupOptional platform store group with
  | none => .error (.snapshotGroupNotRegistered group)
  | some stored => .ok stored

def validateExactRequest (stored : StoredSnapshotGroup) (request : SnapshotActivationRequest) :
    Except SnapshotTargetError SnapshotActivationRequest := do
  let canonical ← canonicalRequest request
  if stored.request = canonical then .ok canonical
  else .error (.snapshotGroupManifestMismatch request.snapshotGroupId)

def beginSnapshotGroup (target : Target) (request : SnapshotActivationRequest) :
    Except SnapshotTargetError (SnapshotGroupRegistrationDisposition × Target) := do
  let canonical ← canonicalRequest request
  (lockPipelineFence target.checkpoints canonical.fence).mapError .checkpoint
  match ← loadSnapshotGroupOptional platform target.store canonical.snapshotGroupId with
  | some stored =>
    if stored.request ≠ canonical then .error (.snapshotGroupManifestMismatch request.snapshotGroupId)
    else match stored.state with
    | .loading => .ok (.alreadyRegistered,target)
    | .active => .ok (.alreadyActive,target)
  | none =>
    let store ← insertSnapshotGroup platform target.store canonical
    .ok (.registered,{target with store := store})

-- UPDATE … SET state = 'active' WHERE … AND state = 'loading', which must write one row.
def markSnapshotGroupActive (store : Store) (group : Uuid) : Except SnapshotTargetError Store := do
  let selected := fun (header : SnapshotGroup) => decide (header.snapshotGroupId = group) && decide (header.state = .loading)
  ensureOneMetadataRow (store.snapshotGroups.filter selected).length
  .ok {store with snapshotGroups := store.snapshotGroups.map (fun header =>
    if selected header then {header with state := .active} else header)}

end Platform

structure Canonical (request canonical : SnapshotActivationRequest) : Prop where
  shape : canonical = ⟨request.fence,request.snapshotGroupId,sortTables request.tables,
    sortBoundaries request.initialCheckpoints⟩
  group : request.snapshotGroupId ≠ Uuid.nil
  tables : request.tables ≠ []
  boundaries : request.initialCheckpoints ≠ []
  token : 0 < request.fence.fencingToken
  generation : request.fence.topologyGeneration < 2 ^ 63
  eachTable : ∀ table ∈ request.tables, validateTable table = .ok ()
  targets : adjacentSame (fun left right => left.target = right.target) (sortTables request.tables) = false
  names : (relationNames (sortTables request.tables)).Nodup
  sources : ((sortTables request.tables).map SnapshotActivationTable.sourceRelationId).Nodup
  eachBoundary : ∀ boundary ∈ request.initialCheckpoints, validateBoundary request.fence boundary = .ok ()
  nodes : adjacentSame (fun left right => left.key.nodeId = right.key.nodeId)
    (sortBoundaries request.initialCheckpoints) = false

theorem mapMUnit {α : Type} {check : α → Except SnapshotTargetError Unit} {xs : List α} :
    (∃ units, xs.mapM check = .ok units) ↔ ∀ x ∈ xs, check x = .ok () := by
  constructor
  · rintro ⟨units,ok⟩ x mem
    obtain ⟨_,_,checked⟩ := relatedFrom (mapMOk.mp ok) mem
    exact checked
  · exact fun each => ⟨_,mapMOkOfForall each⟩

theorem databaseGenerationOk {generation value} (ok : databaseGeneration generation = .ok value) :
    generation < 2 ^ 63 ∧ value = generation := by
  unfold databaseGeneration at ok
  split at ok <;> try contradiction
  rename_i small
  exact ⟨small,(Except.ok.inj ok).symm⟩

theorem canonicalSource {request canonical} (ok : canonicalRequest request = .ok canonical) :
    Canonical request canonical := by
  unfold canonicalRequest at ok
  obtain ⟨group,ok⟩ := iteOk.mp ok
  obtain ⟨filled,ok⟩ := iteOk.mp ok
  obtain ⟨token,ok⟩ := iteOk.mp ok
  obtain ⟨_,generation,ok⟩ := bindOk.mp ok
  obtain ⟨units,tables,ok⟩ := bindOk.mp ok
  obtain ⟨targets,ok⟩ := iteOk.mp ok
  obtain ⟨unique,ok⟩ := iteOk.mp ok
  obtain ⟨_,boundaries,ok⟩ := bindOk.mp ok
  obtain ⟨nodes,ok⟩ := iteOk.mp ok
  cases Except.ok.inj ok
  push Not at filled unique
  exact ⟨rfl,group,filled.1,filled.2,by omega,(databaseGenerationOk generation).1,mapMUnit.mp ⟨_,tables⟩,
    by simpa using targets,unique.1,unique.2,mapMUnit.mp ⟨_,boundaries⟩,by simpa using nodes⟩

theorem canonicalOk {request canonical} (source : Canonical request canonical) :
    canonicalRequest request = .ok canonical := by
  obtain ⟨shape,group,tables,boundaries,token,generation,eachTable,targets,names,sources,eachBoundary,nodes⟩ := source
  obtain ⟨_,tablesOk⟩ := mapMUnit.mpr eachTable
  obtain ⟨_,boundariesOk⟩ := mapMUnit.mpr eachBoundary
  have positive : ¬ request.fence.fencingToken ≤ 0 := by omega
  have inRange : databaseGeneration request.fence.topologyGeneration = .ok _ := if_pos generation
  simp [canonicalRequest,bind,Except.bind,group,tables,boundaries,positive,inRange,tablesOk,targets,names,sources,
    boundariesOk,nodes,shape]

instance : Std.Total nameLe where
  total left right := by
    rcases lt_trichotomy left.schema right.schema with less | same | greater
    · exact .inl (.inl less)
    · exact (le_total left.name right.name).imp (fun le => .inr ⟨same,le⟩) (fun le => .inr ⟨same.symm,le⟩)
    · exact .inr (.inl greater)

instance : IsTrans QualifiedName nameLe where
  trans first second third := by
    rintro (less | ⟨same,le⟩) (less' | ⟨same',le'⟩)
    · exact .inl (less.trans less')
    · exact .inl (same' ▸ less)
    · exact .inl (same ▸ less')
    · exact .inr ⟨same.trans same',le.trans le'⟩

theorem sortTablesSorted (tables : List SnapshotActivationTable) : sortTables (sortTables tables) = sortTables tables := by
  let order := fun (left right : SnapshotActivationTable) => nameLe left.target right.target
  have total : Std.Total order := ⟨fun left right => Std.Total.total (r := nameLe) left.target right.target⟩
  have transitive : IsTrans SnapshotActivationTable order :=
    ⟨fun first second third => IsTrans.trans (r := nameLe) first.target second.target third.target⟩
  exact (List.pairwise_insertionSort order tables).insertionSort_eq

theorem sortBoundariesSorted (boundaries : List NodeCheckpoint) :
    sortBoundaries (sortBoundaries boundaries) = sortBoundaries boundaries := by
  let order := fun (left right : NodeCheckpoint) => left.key.nodeId ≤ right.key.nodeId
  have total : Std.Total order := ⟨fun left right => Int.le_total left.key.nodeId right.key.nodeId⟩
  have transitive : IsTrans NodeCheckpoint order := ⟨fun _ _ _ => Int.le_trans⟩
  exact (List.pairwise_insertionSort order boundaries).insertionSort_eq

theorem memSortTables {tables table} : table ∈ sortTables tables ↔ table ∈ tables := List.mem_insertionSort _

theorem memSortBoundaries {boundaries boundary} : boundary ∈ sortBoundaries boundaries ↔ boundary ∈ boundaries :=
  List.mem_insertionSort _

theorem canonicalSorted {fence group tables boundaries canonical}
    (source : Canonical ⟨fence,group,tables,boundaries⟩ canonical) :
    Canonical ⟨fence,group,tables,sortBoundaries boundaries⟩ canonical := by
  obtain ⟨shape,valid,filled,boundaries',token,generation,eachTable,targets,names,sources,eachBoundary,nodes⟩ := source
  refine ⟨?_,valid,filled,?_,token,generation,eachTable,targets,names,sources,?_,?_⟩
  · simpa [sortBoundariesSorted] using shape
  · intro empty
    exact boundaries' (by simpa [sortBoundaries] using congrArg List.length empty)
  · exact fun boundary mem => eachBoundary boundary (memSortBoundaries.mp mem)
  · simpa [sortBoundariesSorted] using nodes

theorem canonicalIdempotent {request canonical} (ok : canonicalRequest request = .ok canonical) :
    canonicalRequest canonical = .ok canonical := by
  have sorted := canonicalSorted (canonicalSource ok)
  obtain ⟨shape,valid,filled,boundaries,token,generation,eachTable,targets,names,sources,eachBoundary,nodes⟩ := sorted
  simp only [sortBoundariesSorted] at shape nodes
  subst shape
  refine canonicalOk ⟨?_,valid,?_,boundaries,token,generation,?_,?_,?_,?_,eachBoundary,?_⟩
  · simp [sortTablesSorted,sortBoundariesSorted]
  · intro empty
    exact filled (by simpa [sortTables] using congrArg List.length empty)
  · exact fun table mem => eachTable table (memSortTables.mp mem)
  · simpa [sortTablesSorted] using targets
  · simpa [sortTablesSorted] using names
  · simpa [sortTablesSorted] using sources
  · simpa [sortBoundariesSorted] using nodes

end CloudberryEtl.Manifest
