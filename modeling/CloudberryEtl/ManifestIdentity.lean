import CloudberryEtl.RoundTrip
import CloudberryEtl.Framing
import CloudberryEtl.Sha256

/-! What a canonical manifest and its checksum identify. The canonical form depends on the tables and the boundaries of a
request but not on their order, and the checksum is of a text from which the tables and the boundaries can be read back. -/
namespace CloudberryEtl.ManifestIdentity
open Schema Change KeyedTable Result TargetStore Manifest ActivatedGroup RoundTrip PrefixCode Framing
open Checkpoint hiding databaseGeneration

structure TableValid (table : SnapshotActivationTable) : Prop where
  shadow : table.target ≠ table.shadow
  schema : table.target.schema = table.shadow.schema
  source : table.sourceRelationId ≠ 0
  generation : table.tableGeneration < 2 ^ 63
  fingerprint : table.schemaFingerprint ≠ ""

structure BoundaryValid (fence : PipelineFence) (boundary : NodeCheckpoint) : Prop where
  pipeline : boundary.key.pipelineId = fence.pipelineId
  topology : boundary.key.topologyGeneration = fence.topologyGeneration
  position : boundary.appliedLsn ≠ 0
  generation : boundary.key.topologyGeneration < 2 ^ 63
  timeline : boundary.timeline ≠ 0
  slot : boundary.slotName ≠ "" ∧ '\x00' ∉ boundary.slotName.toList

structure RequestValid (request : SnapshotActivationRequest) : Prop where
  group : request.snapshotGroupId ≠ Uuid.nil
  tables : request.tables ≠ []
  boundaries : request.initialCheckpoints ≠ []
  token : 0 < request.fence.fencingToken
  generation : request.fence.topologyGeneration < 2 ^ 63
  eachTable : ∀ table ∈ request.tables, TableValid table
  eachBoundary : ∀ boundary ∈ request.initialCheckpoints, BoundaryValid request.fence boundary
  names : (relationNames request.tables).Nodup
  sources : (request.tables.map SnapshotActivationTable.sourceRelationId).Nodup
  nodes : (request.initialCheckpoints.map (fun boundary => boundary.key.nodeId)).Nodup

theorem validateTableOk {table : SnapshotActivationTable} : validateTable table = .ok () ↔ TableValid table := by
  unfold validateTable databaseGeneration
  simp only [iteOk,bindOk]
  constructor
  · intro passed
    obtain ⟨shadow,schema,source,_,generation,fingerprint,_⟩ := passed
    split at generation <;> try contradiction
    rename_i small
    exact ⟨shadow,not_not.mp schema,source,small,fingerprint⟩
  · intro valid
    exact ⟨valid.shadow,not_not.mpr valid.schema,valid.source,_,if_pos valid.generation,valid.fingerprint,trivial⟩

theorem validateBoundaryOk {fence : PipelineFence} {boundary : NodeCheckpoint} :
    validateBoundary fence boundary = .ok () ↔ BoundaryValid fence boundary := by
  unfold validateBoundary checkpointReached validateCheckpoint Checkpoint.databaseGeneration
  simp only [iteOk,bindOk,mapErrorOk]
  constructor
  · intro passed
    obtain ⟨keys,position,_,⟨_,⟨_,generation,timeline,slot,_⟩,_⟩,_⟩ := passed
    push Not at keys slot
    split at generation <;> try contradiction
    rename_i small
    exact ⟨keys.1,keys.2,position,small,timeline,slot⟩
  · intro valid
    refine ⟨?_,valid.position,false,⟨(),⟨_,if_pos valid.generation,valid.timeline,?_,trivial⟩,rfl⟩,trivial⟩
    · push Not
      exact ⟨valid.pipeline,valid.topology⟩
    · push Not
      exact valid.slot

theorem adjacentSameSorted {α κ : Type} [DecidableEq κ] {le : κ → κ → Prop}
    (antisymm : ∀ left right, le left right → le right left → left = right) (key : α → κ) {xs : List α}
    (sorted : xs.Pairwise (fun left right => le (key left) (key right))) :
    adjacentSame (fun left right => decide (key left = key right)) xs = false ↔ UniqueKeys key xs := by
  induction xs with
  | nil => simp [adjacentSame,UniqueKeys]
  | cons first xs ih =>
    obtain ⟨firstLe,others⟩ := List.pairwise_cons.mp sorted
    cases xs with
    | nil => simp [adjacentSame,UniqueKeys]
    | cons second xs =>
      obtain ⟨secondLe,_⟩ := List.pairwise_cons.mp others
      have fresh : key first ∉ (second :: xs).map key ↔ key first ≠ key second := by
        constructor
        · intro apart same
          exact apart (List.mem_map.mpr ⟨second,List.mem_cons_self,same.symm⟩)
        · intro apart mem
          obtain ⟨other,inside,same⟩ := List.mem_map.mp mem
          rcases List.mem_cons.mp inside with next | inside
          · exact apart (by rw [← same,next])
          · -- the second key stands between the first and its repetition
            have between := secondLe other inside
            rw [same] at between
            exact apart (antisymm _ _ (firstLe second List.mem_cons_self) between)
      have split : UniqueKeys key (first :: second :: xs) ↔ key first ≠ key second ∧ UniqueKeys key (second :: xs) := by
        rw [← fresh]
        exact List.nodup_cons
      rw [split,← ih others]
      simp only [adjacentSame,Bool.or_eq_false_iff,decide_eq_false_iff_not,ne_eq]

theorem sortedBoundaries (boundaries : List NodeCheckpoint) :
    (sortBoundaries boundaries).Pairwise (fun left right => left.key.nodeId ≤ right.key.nodeId) := by
  let order := fun (left right : NodeCheckpoint) => left.key.nodeId ≤ right.key.nodeId
  have total : Std.Total order := ⟨fun left right => Int.le_total left.key.nodeId right.key.nodeId⟩
  have transitive : IsTrans NodeCheckpoint order := ⟨fun _ _ _ => Int.le_trans⟩
  exact List.pairwise_insertionSort order boundaries

theorem relationNamesPerm {tables tables' : List SnapshotActivationTable} (perm : tables.Perm tables') :
    (relationNames tables).Perm (relationNames tables') := perm.flatMap_right _

theorem sortTablesPerm (tables : List SnapshotActivationTable) : (sortTables tables).Perm tables :=
  List.perm_insertionSort _ tables

theorem sortBoundariesPerm (boundaries : List NodeCheckpoint) : (sortBoundaries boundaries).Perm boundaries :=
  List.perm_insertionSort _ boundaries

theorem canonicalIff {request canonical : SnapshotActivationRequest} : canonicalRequest request = .ok canonical ↔
    RequestValid request ∧ canonical = ⟨request.fence,request.snapshotGroupId,sortTables request.tables,
      sortBoundaries request.initialCheckpoints⟩ := by
  have names := (relationNamesPerm (sortTablesPerm request.tables)).nodup_iff
  have sources := ((sortTablesPerm request.tables).map SnapshotActivationTable.sourceRelationId).nodup_iff
  have nodes := ((sortBoundariesPerm request.initialCheckpoints).map (fun boundary => boundary.key.nodeId)).nodup_iff
  have targets := adjacentSameSorted (fun _ _ => nameAntisymm) SnapshotActivationTable.target
    (sortedNames request.tables)
  have adjacent := adjacentSameSorted (fun _ _ => Int.le_antisymm) (fun boundary : NodeCheckpoint => boundary.key.nodeId)
    (sortedBoundaries request.initialCheckpoints)
  constructor
  · intro ok
    have source := canonicalSource ok
    exact ⟨⟨source.group,source.tables,source.boundaries,source.token,source.generation,
      fun table mem => validateTableOk.mp (source.eachTable table mem),
      fun boundary mem => validateBoundaryOk.mp (source.eachBoundary boundary mem),
      names.mp source.names,sources.mp source.sources,nodes.mp (adjacent.mp source.nodes)⟩,source.shape⟩
  · intro passed
    obtain ⟨valid,shape⟩ := passed
    exact canonicalOk ⟨shape,valid.group,valid.tables,valid.boundaries,valid.token,valid.generation,
      fun table mem => validateTableOk.mpr (valid.eachTable table mem),
      targets.mpr (targetsDistinct (names.mpr valid.names)),names.mpr valid.names,sources.mpr valid.sources,
      fun boundary mem => validateBoundaryOk.mpr (valid.eachBoundary boundary mem),
      adjacent.mpr (nodes.mpr valid.nodes)⟩

theorem sortedUnique {α κ : Type} [DecidableEq κ] {le : κ → κ → Prop}
    (antisymm : ∀ left right, le left right → le right left → left = right) (key : α → κ) {xs ys : List α}
    (unique : UniqueKeys key ys) (sortedXs : xs.Pairwise (fun left right => le (key left) (key right)))
    (sortedYs : ys.Pairwise (fun left right => le (key left) (key right))) (perm : xs.Perm ys) : xs = ys := by
  refine List.Perm.eq_of_pairwise (fun left right memLeft memRight forward backward => ?_) sortedXs sortedYs perm
  have here := lookupOfMem unique (perm.mem_iff.mp memLeft)
  rw [antisymm _ _ forward backward,lookupOfMem unique memRight] at here
  exact (Option.some.inj here).symm

theorem validPermuted {request : SnapshotActivationRequest} {tables : List SnapshotActivationTable}
    {boundaries : List NodeCheckpoint} (valid : RequestValid request) (tablesPerm : tables.Perm request.tables)
    (boundariesPerm : boundaries.Perm request.initialCheckpoints) :
    RequestValid ⟨request.fence,request.snapshotGroupId,tables,boundaries⟩ where
  group := valid.group
  tables := fun empty => valid.tables (List.nil_perm.mp (empty ▸ tablesPerm))
  boundaries := fun empty => valid.boundaries (List.nil_perm.mp (empty ▸ boundariesPerm))
  token := valid.token
  generation := valid.generation
  eachTable := fun table mem => valid.eachTable table (tablesPerm.mem_iff.mp mem)
  eachBoundary := fun boundary mem => valid.eachBoundary boundary (boundariesPerm.mem_iff.mp mem)
  names := (relationNamesPerm tablesPerm).nodup_iff.mpr valid.names
  sources := (tablesPerm.map _).nodup_iff.mpr valid.sources
  nodes := (boundariesPerm.map _).nodup_iff.mpr valid.nodes

theorem canonicalPermuted {request : SnapshotActivationRequest} {tables : List SnapshotActivationTable}
    {boundaries : List NodeCheckpoint} {canonical} (tablesPerm : tables.Perm request.tables)
    (boundariesPerm : boundaries.Perm request.initialCheckpoints) (ok : canonicalRequest request = .ok canonical) :
    canonicalRequest ⟨request.fence,request.snapshotGroupId,tables,boundaries⟩ = .ok canonical := by
  obtain ⟨valid,shape⟩ := canonicalIff.mp ok
  have targets : UniqueKeys SnapshotActivationTable.target (sortTables request.tables) :=
    targetsDistinct ((relationNamesPerm (sortTablesPerm request.tables)).nodup_iff.mpr valid.names)
  have nodes : UniqueKeys (fun boundary : NodeCheckpoint => boundary.key.nodeId)
      (sortBoundaries request.initialCheckpoints) :=
    ((sortBoundariesPerm request.initialCheckpoints).map _).nodup_iff.mpr valid.nodes
  have tablesSame : sortTables tables = sortTables request.tables :=
    sortedUnique (fun _ _ => nameAntisymm) _ targets (sortedNames tables) (sortedNames request.tables)
      ((sortTablesPerm tables).trans (tablesPerm.trans (sortTablesPerm request.tables).symm))
  have boundariesSame : sortBoundaries boundaries = sortBoundaries request.initialCheckpoints :=
    sortedUnique (fun _ _ => Int.le_antisymm) _ nodes (sortedBoundaries boundaries)
      (sortedBoundaries request.initialCheckpoints)
      ((sortBoundariesPerm boundaries).trans (boundariesPerm.trans (sortBoundariesPerm _).symm))
  refine canonicalIff.mpr ⟨validPermuted valid tablesPerm boundariesPerm,?_⟩
  rw [shape,tablesSame,boundariesSame]

/- The values that the types of the fields can hold: `u32`, `u64`, `i32`, a UUID, and text that fits in memory. -/
structure TableInRange (table : SnapshotActivationTable) : Prop where
  fingerprint : (strBytes table.schemaFingerprint).length < 2 ^ 64
  source : table.sourceRelationId < 2 ^ 32
  generation : table.tableGeneration < 2 ^ 64

structure BoundaryInRange (boundary : NodeCheckpoint) : Prop where
  node : -2 ^ 31 ≤ boundary.key.nodeId ∧ boundary.key.nodeId < 2 ^ 31
  system : boundary.systemIdentifier < 2 ^ 64
  timeline : boundary.timeline < 2 ^ 32
  slot : (strBytes boundary.slotName).length < 2 ^ 64
  position : boundary.appliedLsn < 2 ^ 64

structure RequestInRange (request : SnapshotActivationRequest) : Prop where
  group : request.snapshotGroupId < 256 ^ 16
  pipeline : request.fence.pipelineId < 256 ^ 16
  generation : request.fence.topologyGeneration < 2 ^ 64
  eachTable : ∀ table ∈ request.tables, TableInRange table
  eachBoundary : ∀ boundary ∈ request.initialCheckpoints, BoundaryInRange boundary

theorem qualifiedApart {left right : QualifiedName} (schemas : strBytes left.schema = strBytes right.schema)
    (names : strBytes left.name = strBytes right.name) : left = right := by
  have schema := strBytesInjective schemas
  have name := strBytesInjective names
  cases left
  cases right
  simp_all

theorem tableFieldsApart (left right : SnapshotActivationTable) (here : TableInRange left) (there : TableInRange right)
    (same : tableFields left = tableFields right) : left = right := by
  simp only [tableFields,List.cons.injEq,and_true] at same
  obtain ⟨targetSchema,targetName,shadowSchema,shadowName,source,generation,fingerprint⟩ := same
  have target := qualifiedApart targetSchema targetName
  have shadow := qualifiedApart shadowSchema shadowName
  have source := beBytesInjective here.source there.source source
  have generation := beBytesInjective here.generation there.generation generation
  have fingerprint := strBytesInjective fingerprint
  cases left
  cases right
  simp_all

/- The pipeline and the topology generation of a boundary are not written: they are those of the fence. -/
def BoundaryFor (fence : PipelineFence) (boundary : NodeCheckpoint) : Prop :=
  BoundaryInRange boundary ∧ boundary.key.pipelineId = fence.pipelineId ∧
    boundary.key.topologyGeneration = fence.topologyGeneration

theorem boundaryFieldsApart (fence : PipelineFence) (left right : NodeCheckpoint) (here : BoundaryFor fence left)
    (there : BoundaryFor fence right) (same : boundaryFields left = boundaryFields right) : left = right := by
  obtain ⟨range,pipeline,topology⟩ := here
  obtain ⟨range',pipeline',topology'⟩ := there
  simp only [boundaryFields,List.cons.injEq,and_true] at same
  obtain ⟨node,system,timeline,slot,position⟩ := same
  have node := beInt32Injective range.node range'.node node
  have system := beBytesInjective range.system range'.system system
  have timeline := beBytesInjective range.timeline range'.timeline timeline
  have slot := strBytesInjective slot
  have position := beBytesInjective range.position range'.position position
  obtain ⟨key,_,_,_,_⟩ := left
  obtain ⟨key',_,_,_,_⟩ := right
  cases key
  cases key'
  simp_all

def tableCode : Code SnapshotActivationTable Bytes := Code.fixed 7 tableFields TableInRange (fun _ => rfl) tableFieldsApart

def boundaryCode (fence : PipelineFence) : Code NodeCheckpoint Bytes :=
  Code.fixed 5 boundaryFields (BoundaryFor fence) (fun _ => rfl) (boundaryFieldsApart fence)

theorem recordsApart (fence : PipelineFence) : tableCode.Apart (boundaryCode fence) := by
  -- The fifth field of a table has four bytes, that of a boundary eight.
  intro table boundary rest rest' _ _ same
  have fifth := congrArg (fun fields => fields[4]?.map List.length) same
  simp [tableCode,boundaryCode,Code.fixed,tableFields,boundaryFields,beBytesSize] at fifth

theorem fieldsInMemory {request : SnapshotActivationRequest} (range : RequestInRange request) :
    ∀ field ∈ manifestFields request, fieldCode.valid field := by
  have short : ∀ {width value}, width < 2 ^ 64 → fieldCode.valid (beBytes width value) := by
    intro width value small
    exact lt_of_eq_of_lt (beBytesSize width value) small
  have identifier : ∀ {name}, IdentifierValid name → fieldCode.valid (strBytes name) := by
    intro name valid
    have bound : name.utf8ByteSize ≤ 63 := valid.2.2
    exact show name.utf8ByteSize < 2 ^ 64 by omega
  intro field mem
  simp only [manifestFields,List.mem_append,List.mem_flatMap] at mem
  rcases mem with (header | ⟨table,mem,inside⟩) | ⟨boundary,mem,inside⟩
  · simp only [List.mem_cons,List.not_mem_nil,or_false] at header
    rcases header with rfl | rfl | rfl | rfl
    · exact show (strBytes "pg2cb-snapshot-manifest-v1").length < 2 ^ 64 by decide
    · exact short (by decide)
    · exact short (by decide)
    · exact short (by decide)
  · have each := range.eachTable table mem
    simp only [tableFields,List.mem_cons,List.not_mem_nil,or_false] at inside
    rcases inside with rfl | rfl | rfl | rfl | rfl | rfl | rfl
    · exact identifier table.target.schemaValid
    · exact identifier table.target.nameValid
    · exact identifier table.shadow.schemaValid
    · exact identifier table.shadow.nameValid
    · exact short (by decide)
    · exact short (by decide)
    · exact each.fingerprint
  · have each := range.eachBoundary boundary mem
    simp only [boundaryFields,List.mem_cons,List.not_mem_nil,or_false] at inside
    rcases inside with rfl | rfl | rfl | rfl | rfl
    · exact short (by decide)
    · exact short (by decide)
    · exact short (by decide)
    · exact each.slot
    · exact short (by decide)

theorem manifestFieldsInjective {left right : SnapshotActivationRequest} (range : RequestInRange left)
    (range' : RequestInRange right)
    (same : (manifestFields left).flatMap hashField = (manifestFields right).flatMap hashField) :
    manifestFields left = manifestFields right := by
  have filled : ∀ field, fieldCode.encode field ≠ [] := by
    intro field empty
    have size := congrArg List.length empty
    simp [fieldEncode,hashField,beBytesSize] at size
  exact fieldCode.streamInjective filled _ _ (fieldsInMemory range) (fieldsInMemory range') same

theorem groupOfFields {left right : SnapshotActivationRequest} (range : RequestInRange left)
    (range' : RequestInRange right) (valid : RequestValid left) (valid' : RequestValid right)
    (same : manifestFields left = manifestFields right) :
    left.snapshotGroupId = right.snapshotGroupId ∧ left.fence.pipelineId = right.fence.pipelineId ∧
      left.fence.topologyGeneration = right.fence.topologyGeneration ∧ left.tables = right.tables ∧
      left.initialCheckpoints = right.initialCheckpoints := by
  simp only [manifestFields,List.cons_append,List.nil_append,List.cons.injEq,true_and] at same
  obtain ⟨group,pipeline,generation,records⟩ := same
  have group := beBytesInjective range.group range'.group group
  have pipeline := beBytesInjective range.pipeline range'.pipeline pipeline
  have generation := beBytesInjective range.generation range'.generation generation
  have own : ∀ boundary ∈ left.initialCheckpoints, BoundaryFor left.fence boundary := by
    intro boundary mem
    have each := valid.eachBoundary boundary mem
    exact ⟨range.eachBoundary boundary mem,each.pipeline,each.topology⟩
  have other : ∀ boundary ∈ right.initialCheckpoints, BoundaryFor left.fence boundary := by
    intro boundary mem
    have each := valid'.eachBoundary boundary mem
    exact ⟨range'.eachBoundary boundary mem,by rw [each.pipeline,pipeline],by rw [each.topology,generation]⟩
  obtain ⟨tables,boundaries⟩ := tableCode.streamsInjective (boundaryCode left.fence) (recordsApart left.fence)
    (fun _ => List.cons_ne_nil _ _) (fun _ => List.cons_ne_nil _ _) left.tables right.tables left.initialCheckpoints
    right.initialCheckpoints range.eachTable range'.eachTable own other records
  exact ⟨group,pipeline,generation,tables,boundaries⟩

-- The fencing token is not part of the group.
def SameGroup (left right : SnapshotActivationRequest) : Prop :=
  left.snapshotGroupId = right.snapshotGroupId ∧ left.fence.pipelineId = right.fence.pipelineId ∧
    left.fence.topologyGeneration = right.fence.topologyGeneration ∧ left.tables = right.tables ∧
    left.initialCheckpoints = right.initialCheckpoints

theorem sameFields {left right : SnapshotActivationRequest} (same : SameGroup left right) :
    manifestFields left = manifestFields right := by
  obtain ⟨group,pipeline,generation,tables,boundaries⟩ := same
  simp only [manifestFields,group,pipeline,generation,tables,boundaries]

theorem canonicalInRange {request canonical : SnapshotActivationRequest} (range : RequestInRange request)
    (ok : canonicalRequest request = .ok canonical) : RequestInRange canonical := by
  obtain ⟨_,shape⟩ := canonicalIff.mp ok
  subst shape
  exact ⟨range.group,range.pipeline,range.generation,fun table mem => range.eachTable table (memSortTables.mp mem),
    fun boundary mem => range.eachBoundary boundary (memSortBoundaries.mp mem)⟩

theorem checksumIdentifies {platform : Platform} {left right : SnapshotActivationRequest}
    (range : RequestInRange left) (range' : RequestInRange right) (valid : RequestValid left)
    (valid' : RequestValid right)
    (free : platform.sha256 ((manifestFields left).flatMap hashField) =
      platform.sha256 ((manifestFields right).flatMap hashField) →
      (manifestFields left).flatMap hashField = (manifestFields right).flatMap hashField) :
    manifestChecksum platform left = manifestChecksum platform right ↔ SameGroup left right := by
  constructor
  · intro same
    exact groupOfFields range range' valid valid' (manifestFieldsInjective range range' (free same))
  · intro same
    unfold manifestChecksum
    rw [sameFields same]

/-- A canonical request is its own canonical form. A request has one exactly when it names a table and a boundary, all of
its parts are valid and no relation, source relation or node is named twice, and then it has the same one in every order
of its tables and boundaries. The checksums of two canonical requests are equal exactly when they are the same group. -/
theorem manifestIdentifiesGroup (platform : Platform) (request other : SnapshotActivationRequest)
    (range : RequestInRange request) (range' : RequestInRange other) :
    (∀ canonical, canonicalRequest request = .ok canonical → canonicalRequest canonical = .ok canonical) ∧
    ((∃ canonical, canonicalRequest request = .ok canonical) ↔ RequestValid request) ∧
    (∀ tables boundaries canonical, tables.Perm request.tables → boundaries.Perm request.initialCheckpoints →
      (canonicalRequest ⟨request.fence,request.snapshotGroupId,tables,boundaries⟩ = .ok canonical ↔
        canonicalRequest request = .ok canonical)) ∧
    ∀ left right, canonicalRequest request = .ok left → canonicalRequest other = .ok right →
      (platform.sha256 ((manifestFields left).flatMap hashField) =
        platform.sha256 ((manifestFields right).flatMap hashField) →
        (manifestFields left).flatMap hashField = (manifestFields right).flatMap hashField) →
      (manifestChecksum platform left = manifestChecksum platform right ↔ SameGroup left right) := by
  refine ⟨fun canonical => canonicalIdempotent,?_,?_,?_⟩
  · constructor
    · intro found
      obtain ⟨_,ok⟩ := found
      exact (canonicalIff.mp ok).1
    · intro valid
      exact ⟨_,canonicalIff.mpr ⟨valid,rfl⟩⟩
  · intro tables boundaries canonical tablesPerm boundariesPerm
    exact ⟨canonicalPermuted tablesPerm.symm boundariesPerm.symm,canonicalPermuted tablesPerm boundariesPerm⟩
  · intro left right ok ok' free
    have valid := (canonicalIff.mp (canonicalIdempotent ok)).1
    have valid' := (canonicalIff.mp (canonicalIdempotent ok')).1
    exact checksumIdentifies (canonicalInRange range ok) (canonicalInRange range' ok') valid valid' free

section Sample

theorem appIdentifier : IdentifierValid "app" := by decide
theorem itemsIdentifier : IdentifierValid "items" := by decide
theorem loadIdentifier : IdentifierValid "items_load" := by decide
theorem ordersIdentifier : IdentifierValid "orders" := by decide
theorem ordersLoadIdentifier : IdentifierValid "orders_load" := by decide

def itemsTable (relation : Nat) : SnapshotActivationTable :=
  ⟨⟨"app","items",appIdentifier,itemsIdentifier⟩,⟨"app","items_load",appIdentifier,loadIdentifier⟩,relation,5,"sha256:items"⟩

def ordersTable : SnapshotActivationTable :=
  ⟨⟨"app","orders",appIdentifier,ordersIdentifier⟩,⟨"app","orders_load",appIdentifier,ordersLoadIdentifier⟩,43,5,
    "sha256:orders"⟩

def selfShadow : SnapshotActivationTable :=
  ⟨⟨"app","orders",appIdentifier,ordersIdentifier⟩,⟨"app","orders",appIdentifier,ordersIdentifier⟩,43,5,"sha256:orders"⟩

def groupOf (tables : List SnapshotActivationTable) (slot : String) : SnapshotActivationRequest :=
  ⟨⟨9,3,7⟩,11,tables,[⟨⟨9,3,1⟩,99,1,slot,100⟩]⟩

theorem firstInvalidReported :
    [itemsTable 0,selfShadow].Perm [selfShadow,itemsTable 0] ∧
    canonicalRequest (groupOf [itemsTable 0,selfShadow] "slot") ≠
      canonicalRequest (groupOf [selfShadow,itemsTable 0] "slot") ∧
    validateBoundary ⟨9,3,7⟩ ⟨⟨9,3,1⟩,99,1,"slot",100⟩ = .ok () ∧
    canonicalRequest (groupOf [] "slot") = .error .emptyActivationGroup :=
  ⟨.swap _ _ _,by decide +kernel,by decide +kernel,by decide +kernel⟩

def digesting : Platform := ⟨Sha256.digest,fun left right => decide (left ≤ right)⟩

theorem itemsInRange : TableInRange (itemsTable 42) := ⟨by decide,by decide,by decide⟩

theorem ordersInRange : TableInRange ordersTable := ⟨by decide,by decide,by decide⟩

theorem groupInRange {tables : List SnapshotActivationTable} (each : ∀ table ∈ tables, TableInRange table) {slot : String}
    (short : (strBytes slot).length < 2 ^ 64) : RequestInRange (groupOf tables slot) where
  group := show 11 < 256 ^ 16 by decide
  pipeline := show 9 < 256 ^ 16 by decide
  generation := show 3 < 2 ^ 64 by decide
  eachTable := each
  eachBoundary := by
    intro boundary mem
    cases List.mem_singleton.mp mem
    exact ⟨show -2 ^ 31 ≤ 1 ∧ 1 < 2 ^ 31 by decide,show 99 < 2 ^ 64 by decide,show 1 < 2 ^ 32 by decide,short,
      show 100 < 2 ^ 64 by decide⟩

theorem bothInRange : ∀ table ∈ [ordersTable,itemsTable 42], TableInRange table := by
  intro table mem
  rcases List.mem_pair.mp mem with rfl | rfl
  · exact ordersInRange
  · exact itemsInRange

theorem reorderedGroupIdentified :
    canonicalRequest (groupOf [itemsTable 42,ordersTable] "slot") = .ok (groupOf [itemsTable 42,ordersTable] "slot") ∧
    manifestChecksum digesting (groupOf [itemsTable 42,ordersTable] "slot") ≠
      manifestChecksum digesting (groupOf [itemsTable 42,ordersTable] "other") := by
  have sorted : canonicalRequest (groupOf [ordersTable,itemsTable 42] "slot") =
      .ok (groupOf [itemsTable 42,ordersTable] "slot") := by decide +kernel
  have sorted' : canonicalRequest (groupOf [ordersTable,itemsTable 42] "other") =
      .ok (groupOf [itemsTable 42,ordersTable] "other") := by decide +kernel
  obtain ⟨_,_,permuted,identified⟩ := manifestIdentifiesGroup digesting (groupOf [ordersTable,itemsTable 42] "slot")
    (groupOf [ordersTable,itemsTable 42] "other") (groupInRange bothInRange (by decide)) (groupInRange bothInRange (by decide))
  refine ⟨(permuted [itemsTable 42,ordersTable] _ _ (.swap _ _ _) (.refl _)).mpr sorted,fun same => ?_⟩
  have group := (identified _ _ sorted sorted' (fun digests => absurd digests (by decide +kernel))).mp same
  exact absurd group.2.2.2.2 (by decide +kernel)

end Sample

end CloudberryEtl.ManifestIdentity
