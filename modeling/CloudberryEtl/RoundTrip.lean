import CloudberryEtl.Metadata
import CloudberryEtl.Maintenance

/-! Reading a manifest back. The rows of a registered group come back in the order of the target's text columns, while
the canonical form is in byte order, so the group reads back as it was registered exactly when the two orders agree on
the targets of its tables. -/
namespace CloudberryEtl.RoundTrip
open Schema Change TablePlan StagedApply KeyedTable Result TargetStore Manifest Activation Cleanup ActivatedGroup Maintenance
open StoreChange Metadata
open Checkpoint hiding databaseGeneration

structure TextOrder (platform : Platform) : Prop where
  total : ∀ left right, platform.textLe left right ∨ platform.textLe right left
  trans : ∀ first second third, platform.textLe first second → platform.textLe second third → platform.textLe first third
  antisymm : ∀ left right, platform.textLe left right → platform.textLe right left → left = right

def Agrees (platform : Platform) (tables : List SnapshotActivationTable) : Prop :=
  ∀ left ∈ tables, ∀ right ∈ tables, nameLe left.target right.target → orderedLe platform left.target right.target

instance (platform : Platform) (tables : List SnapshotActivationTable) : Decidable (Agrees platform tables) :=
  inferInstanceAs (Decidable (∀ left ∈ tables, ∀ right ∈ tables, _ → _))

def InTargetOrder (platform : Platform) (tables : List SnapshotActivationTable) : Prop :=
  tables.Pairwise (fun left right => orderedLe platform left.target right.target)

theorem nameAntisymm {left right : QualifiedName} (forward : nameLe left right) (backward : nameLe right left) :
    left = right := by
  have schema : left.schema = right.schema := by
    rcases forward with less | ⟨same,_⟩
    · rcases backward with more | ⟨same,_⟩
      · exact absurd (less.trans more) (lt_irrefl _)
      · exact same.symm
    · exact same
  have name : left.name = right.name := by
    rcases forward with less | ⟨_,forward⟩
    · exact absurd schema (ne_of_lt less)
    · rcases backward with more | ⟨_,backward⟩
      · exact absurd schema.symm (ne_of_lt more)
      · exact le_antisymm forward backward
  cases left
  cases right
  simp_all

theorem sortedNames (tables : List SnapshotActivationTable) :
    (sortTables tables).Pairwise (fun left right => nameLe left.target right.target) := by
  let relation := fun (left right : SnapshotActivationTable) => nameLe left.target right.target
  have total : Std.Total relation := ⟨fun left right => Std.Total.total (r := nameLe) left.target right.target⟩
  have transitive : IsTrans SnapshotActivationTable relation :=
    ⟨fun first second third => IsTrans.trans (r := nameLe) first.target second.target third.target⟩
  exact List.pairwise_insertionSort relation tables

theorem canonicalSortedTables {request} (canonical : canonicalRequest request = .ok request) :
    sortTables request.tables = request.tables ∧ sortBoundaries request.initialCheckpoints = request.initialCheckpoints :=
  ⟨congrArg (·.tables) (canonicalSource canonical).shape.symm,
    congrArg (·.initialCheckpoints) (canonicalSource canonical).shape.symm⟩

theorem targetsDistinct {tables : List SnapshotActivationTable} (names : (relationNames tables).Nodup) :
    UniqueKeys SnapshotActivationTable.target tables := by
  induction tables with
  | nil => exact List.nodup_nil
  | cons table tables ih =>
    have split : relationNames (table :: tables) = [table.target,table.shadow] ++ relationNames tables := rfl
    rw [split] at names
    obtain ⟨_,rest,apart⟩ := List.nodup_append.mp names
    refine List.nodup_cons.mpr ⟨fun mem => ?_,ih rest⟩
    obtain ⟨other,mem,same⟩ := List.mem_map.mp mem
    exact apart table.target (by simp) _ (targetNamed mem) same.symm

theorem canonicalTargets {request} (canonical : canonicalRequest request = .ok request) :
    UniqueKeys SnapshotActivationTable.target request.tables := by
  have names := (canonicalSource canonical).names
  rw [(canonicalSortedTables canonical).1] at names
  exact targetsDistinct names

theorem permSorted {request tables} (canonical : canonicalRequest request = .ok request)
    (perm : tables.Perm request.tables) (sorted : sortTables tables = tables) : tables = request.tables := by
  have own := sortedNames tables
  rw [sorted] at own
  have other := sortedNames request.tables
  rw [(canonicalSortedTables canonical).1] at other
  refine List.Perm.eq_of_pairwise (fun left right memLeft memRight forward backward => ?_) own other perm
  have unique := canonicalTargets canonical
  have left' := lookupOfMem unique (perm.mem_iff.mp memLeft)
  rw [nameAntisymm forward backward,lookupOfMem unique memRight] at left'
  exact (Option.some.inj left').symm

section Order
variable {platform : Platform} (order : TextOrder platform)
include order

theorem orderedTotal (left right : QualifiedName) : orderedLe platform left right ∨ orderedLe platform right left := by
  unfold orderedLe
  by_cases forward : platform.textLe left.schema right.schema <;>
    by_cases backward : platform.textLe right.schema left.schema
  · rcases order.total left.name right.name with name | name <;> simp [forward,backward,name]
  · simp [forward,backward]
  · simp [forward,backward]
  · rcases order.total left.schema right.schema with schema | schema <;> contradiction

theorem orderedTrans {first second third : QualifiedName} (one : orderedLe platform first second)
    (two : orderedLe platform second third) : orderedLe platform first third := by
  refine ⟨order.trans _ _ _ one.1 two.1,fun back => ?_⟩
  have first' := order.trans _ _ _ two.1 back
  have second' := order.trans _ _ _ back one.1
  exact order.trans _ _ _ (one.2 first') (two.2 second')

theorem sortedOrdered (tables : List SnapshotActivationTable) :
    (tables.insertionSort (fun left right => orderedLe platform left.target right.target)).Pairwise
      (fun left right => orderedLe platform left.target right.target) := by
  let relation := fun (left right : SnapshotActivationTable) => orderedLe platform left.target right.target
  have total : Std.Total relation := ⟨fun left right => orderedTotal order left.target right.target⟩
  have transitive : IsTrans SnapshotActivationTable relation := ⟨fun _ _ _ => orderedTrans order⟩
  exact List.pairwise_insertionSort relation tables

theorem agreesIff {tables : List SnapshotActivationTable} :
    Agrees platform tables ↔ InTargetOrder platform (sortTables tables) := by
  constructor
  · intro agrees
    refine (sortedNames tables).imp_of_mem fun memLeft memRight le => ?_
    exact agrees _ (memSortTables.mp memLeft) _ (memSortTables.mp memRight) le
  · intro pairwise
    have reflexive : ∀ name : QualifiedName, orderedLe platform name name := by
      intro name
      rcases orderedTotal order name name with here | here <;> exact here
    let agree := fun (left right : SnapshotActivationTable) =>
      nameLe left.target right.target → orderedLe platform left.target right.target
    have forwards : (sortTables tables).Pairwise agree := by
      refine pairwise.imp fun {left right} ordered => ?_
      exact fun _ => ordered
    have backwards : (sortTables tables).Pairwise (flip agree) := by
      refine (sortedNames tables).imp fun {left right} forward => ?_
      intro backward
      rw [nameAntisymm backward forward]
      exact reflexive _
    have each := List.Pairwise.forall_of_forall_of_flip (fun table _ _ => reflexive table.target) forwards backwards
    exact fun left memLeft right memRight => each (memSortTables.mpr memLeft) (memSortTables.mpr memRight)

end Order

section Reading
variable {platform : Platform} {store : Store} {header : SnapshotGroup} {request : SnapshotActivationRequest}

theorem boundaryKey {fence boundary} (ok : validateBoundary fence boundary = .ok ()) :
    boundary.key.pipelineId = fence.pipelineId ∧ boundary.key.topologyGeneration = fence.topologyGeneration := by
  obtain ⟨same,_⟩ := iteOk.mp ok
  push Not at same
  exact same

theorem nodesStored (stored : Stored platform store header request) :
    (groupNodesOf store header.snapshotGroupId).map
      (checkpointFromRow header.fence.pipelineId header.fence.topologyGeneration) = request.initialCheckpoints := by
  have sorted : groupNodesOf store header.snapshotGroupId =
      (sortBoundaries request.initialCheckpoints).map (groupNode request.snapshotGroupId) := by
    rw [groupNodesOf,stored.nodes,sortBoundaries]
    exact (List.map_insertionSort (fun left right => left.key.nodeId ≤ right.key.nodeId)
      (fun left right => left.nodeId ≤ right.nodeId) (groupNode request.snapshotGroupId) request.initialCheckpoints
      fun _ _ _ _ => Iff.rfl).symm
  rw [sorted,(canonicalSortedTables stored.canonical).2,List.map_map]
  refine (List.map_congr_left fun boundary mem => ?_).trans (List.map_id _)
  obtain ⟨pipeline,generation⟩ := boundaryKey ((canonicalSource stored.canonical).eachBoundary boundary mem)
  rw [stored.fence]
  simp only [Function.comp_apply,checkpointFromRow,groupNode,id,← pipeline,← generation]

theorem reconstructStored (stored : Stored platform store header request) :
    reconstruct platform store header = {request with
      tables := request.tables.insertionSort (fun left right => orderedLe platform left.target right.target)} := by
  have tables : groupTablesOf platform store header.snapshotGroupId =
      request.tables.insertionSort (fun left right => orderedLe platform left.target right.target) := by
    rw [groupTablesOf,stored.tables,List.map_map]
    congr 1
    exact List.map_id _
  rw [reconstruct,tables,nodesStored stored,stored.group,stored.fence]

theorem readOnly {stored'} (stored : Stored platform store header request)
    (ok : readSnapshotGroup platform store header = .ok stored') : stored' = ⟨header.state,request⟩ ∧
      request.tables.insertionSort (fun left right => orderedLe platform left.target right.target) = request.tables := by
  unfold readSnapshotGroup at ok
  simp only [reconstructStored stored] at ok
  obtain ⟨_,ok⟩ := iteOk.mp ok
  obtain ⟨_,ok⟩ := iteOk.mp ok
  obtain ⟨_,ok⟩ := iteOk.mp ok
  obtain ⟨_,ok⟩ := iteOk.mp ok
  split at ok <;> try contradiction
  rename_i canonical valid
  obtain ⟨exact',ok⟩ := iteOk.mp ok
  push Not at exact'
  have sorted := (canonicalSortedTables (exact'.1 ▸ valid)).1
  have same := permSorted stored.canonical (List.perm_insertionSort _ _) sorted
  cases Except.ok.inj ok
  refine ⟨?_,same⟩
  rw [exact'.1,same]

theorem readBack (stored : Stored platform store header request)
    (digest : ∀ bytes, (platform.sha256 bytes).length = 32) (ordered : InTargetOrder platform request.tables) :
    readSnapshotGroup platform store header = .ok ⟨header.state,request⟩ := by
  have source := canonicalSource stored.canonical
  have same : reconstruct platform store header = request := by
    rw [reconstructStored stored,ordered.insertionSort_eq]
  have filled : ¬ (header.tableCount = 0 ∨ header.nodeCount = 0) := by
    rw [stored.tableCount,stored.nodeCount,List.length_eq_zero_iff,List.length_eq_zero_iff]
    rintro (none' | none')
    · exact source.tables none'
    · exact source.boundaries none'
  have token : ¬ (header.fence.fencingToken ≤ 0 ∨ header.manifestChecksum.length ≠ 32) := by
    rw [stored.fence,stored.checksum]
    have positive := source.token
    rintro (negative | other)
    · omega
    · exact other (digest _)
  unfold readSnapshotGroup
  simp only [same]
  rw [if_neg filled,if_neg token,if_neg (by simp [stored.tableCount]),if_neg (by simp [stored.nodeCount]),stored.canonical]
  simp [stored.checksum]

end Reading

end CloudberryEtl.RoundTrip
