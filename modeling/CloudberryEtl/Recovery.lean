import CloudberryEtl.Collection

/-! Recovery of interrupted loads. As long as every group is registered with shadow names of its own, each shadow of a
loading group is either not there or the one that its own load has left, so a cleanup under the stored fence succeeds. -/
namespace CloudberryEtl.Recovery
open Schema Change TablePlan StagedApply KeyedTable Result TargetStore Manifest ShadowLoad Activation Cleanup Fencing
open ActivatedGroup Maintenance StoreChange Metadata RoundTrip Moves Transactions Reachable Collection
open Checkpoint hiding databaseGeneration

def quarantineLike (name : QualifiedName) : Bool := "pg2cb_q_".toList.isPrefixOf name.name.toList

structure Loading (store : Store) (header : SnapshotGroup) (table : SnapshotActivationTable) : Prop where
  member : header ∈ store.snapshotGroups
  loading : header.state = .loading
  listed : ⟨header.snapshotGroupId,table⟩ ∈ store.groupTables

/- The shadow names of a request are free, no quarantine takes them and no group that is being loaded uses them. -/
def Separate (store : Store) (request : SnapshotActivationRequest) : Prop :=
  ∀ table ∈ request.tables, loadRelationState store table.shadow = .vacant ∧ ¬ quarantineLike table.shadow ∧
    ∀ header ∈ store.snapshotGroups, header.state = .loading → ∀ row ∈ store.groupTables,
      row.snapshotGroupId = header.snapshotGroupId →
        table.shadow ≠ row.table.shadow ∧ table.shadow ≠ row.table.target ∧ row.table.shadow ≠ table.target

instance (store : Store) (request : SnapshotActivationRequest) : Decidable (Separate store request) :=
  inferInstanceAs (Decidable (∀ table ∈ request.tables, _ ∧ _ ∧ ∀ header ∈ store.snapshotGroups, _ → ∀ row ∈ store.groupTables,
    _ → _))

section Changes
variable {platform : Platform} {fences : PipelineId → Option StoredFence} {transit : Option Uuid} {store : Store}

theorem Loading.same {store' header table} (headers : store'.snapshotGroups = store.snapshotGroups)
    (tables : store'.groupTables = store.groupTables) (known : Loading store' header table) : Loading store header table :=
  ⟨headers ▸ known.member,known.loading,tables ▸ known.listed⟩

end Changes

section Runs
variable {platform : Platform} {equal : Operators}

/- A registration finds its group registered already or brings shadow names of its own. -/
def RegistersApart (target : Target) : Operation → Prop
  | .beginSnapshotGroup request =>
      (∃ header ∈ target.store.snapshotGroups, header.snapshotGroupId = request.snapshotGroupId) ∨
        Separate target.store request
  | _ => True

instance (target : Target) : (operation : Operation) → Decidable (RegistersApart target operation)
  | .beginSnapshotGroup _ => inferInstanceAs (Decidable (_ ∨ _))
  | .activatePipelineFence _ | .executeApply _ | .snapshotApply _ _ _ | .activateSnapshotGroup _ _
  | .cleanupLoadingSnapshotGroup _ | .cleanupStaleSnapshotGroups _ | .garbageCollect _ _ _ => .isTrue trivial

variable (platform equal) in
def EachApart (target : Target) : List Operation → Prop
  | [] => True
  | operation :: operations => RegistersApart target operation ∧ EachApart (step platform equal target operation) operations

variable (platform equal) in
def decideApart : (target : Target) → (operations : List Operation) → Decidable (EachApart platform equal target operations)
  | _,[] => .isTrue trivial
  | target,operation :: operations =>
      @instDecidableAnd _ _ inferInstance (decideApart (step platform equal target operation) operations)

instance (target : Target) (operations : List Operation) : Decidable (EachApart platform equal target operations) :=
  decideApart platform equal target operations

end Runs

section Cleanup
variable {platform : Platform} {fences : PipelineId → Option StoredFence} {store : Store} {header : SnapshotGroup}
  {request : SnapshotActivationRequest}

structure Removed (removed : List SnapshotGroup) (store store' : Store) : Prop where
  groups : store'.snapshotGroups = store.snapshotGroups.filter (fun header =>
    header.snapshotGroupId ∉ removed.map SnapshotGroup.snapshotGroupId)
  tables : store'.groupTables = store.groupTables.filter (fun row =>
    row.snapshotGroupId ∉ removed.map SnapshotGroup.snapshotGroupId)
  nodes : store'.groupNodes = store.groupNodes.filter (fun row =>
    row.snapshotGroupId ∉ removed.map SnapshotGroup.snapshotGroupId)
  gone : ∀ header ∈ removed, ∀ table, ⟨header.snapshotGroupId,table⟩ ∈ store.groupTables →
    loadRelationState store' table.shadow = .vacant
  others : ∀ name, (∀ header ∈ removed, ∀ table, ⟨header.snapshotGroupId,table⟩ ∈ store.groupTables →
    table.shadow ≠ name) → store'.relations name = store.relations name ∧
    managedRecord store' name = managedRecord store name
  log : store'.reconciliationLog = store.reconciliationLog
  types : store'.types = store.types ∧ store'.managedTypes = store.managedTypes

theorem Removed.nil (store : Store) : Removed [] store store := by
  refine ⟨?_,?_,?_,nofun,fun _ _ => ⟨rfl,rfl⟩,rfl,rfl,rfl⟩ <;> simp

theorem Removed.trans {one two : List SnapshotGroup} {first second third : Store} (here : Removed one first second)
    (there : Removed two second third)
    (apart : ∀ left ∈ one, ∀ right ∈ two, left.snapshotGroupId ≠ right.snapshotGroupId) :
    Removed (one ++ two) first third := by
  have later : ∀ header ∈ two, ∀ table, ⟨header.snapshotGroupId,table⟩ ∈ first.groupTables ↔
      ⟨header.snapshotGroupId,table⟩ ∈ second.groupTables := by
    intro header mem table
    rw [here.tables,List.mem_filter]
    refine ⟨fun listed => ⟨listed,?_⟩,fun kept => kept.1⟩
    simp only [decide_eq_true_eq,List.mem_map,not_exists,not_and]
    exact fun other known => apart other known header mem
  refine ⟨?_,?_,?_,fun header mem table listed => ?_,fun name outside => ?_,there.log.trans here.log,
    there.types.1.trans here.types.1,there.types.2.trans here.types.2⟩
  · rw [there.groups,here.groups,List.filter_filter]
    exact List.filter_congr fun row _ => by simp [Bool.and_comm]
  · rw [there.tables,here.tables,List.filter_filter]
    exact List.filter_congr fun row _ => by simp [Bool.and_comm]
  · rw [there.nodes,here.nodes,List.filter_filter]
    exact List.filter_congr fun row _ => by simp [Bool.and_comm]
  · by_cases again : ∃ other ∈ two, ∃ entry, ⟨other.snapshotGroupId,entry⟩ ∈ second.groupTables ∧
        entry.shadow = table.shadow
    · obtain ⟨other,member,entry,known,same⟩ := again
      rw [← same]
      exact there.gone other member entry known
    · rcases List.mem_append.mp mem with mem | mem
      · obtain ⟨relations,records⟩ := there.others table.shadow fun other member entry known same =>
          again ⟨other,member,entry,known,same⟩
        obtain ⟨empty,free⟩ := loadVacant.mp (here.gone header mem table listed)
        exact loadVacant.mpr ⟨relations.trans empty,records.trans free⟩
      · exact there.gone header mem table ((later header mem table).mp listed)
  · obtain ⟨relations,records⟩ := here.others name fun header mem =>
      outside header (List.mem_append_left _ mem)
    obtain ⟨relations',records'⟩ := there.others name fun header mem table listed =>
      outside header (List.mem_append_right _ mem) table ((later header mem table).mpr listed)
    exact ⟨relations'.trans relations,records'.trans records⟩

end Cleanup

section Safety
variable {platform : Platform} {equal : Operators}

end Safety

section Sample
open Resume

def secondLease : PipelineFence := ⟨7,1,2⟩

def interrupted : List Operation :=
  .activatePipelineFence firstFence :: loadGroup (groupRequest firstFence 1 [accountsTable]) ++
    [.activatePipelineFence secondLease]

end Sample

end CloudberryEtl.Recovery
