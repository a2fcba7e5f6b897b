import CloudberryEtl.Reachable

/-! The manifest that `begin_snapshot_group` has committed and what `load_snapshot_group` makes of it under any order of
text columns that the target may use. -/
namespace CloudberryEtl.Registration
open Schema Change TablePlan StagedApply KeyedTable Result TargetStore Manifest ShadowLoad Activation Cleanup Fencing
open ActivatedGroup Maintenance StoreChange Metadata RoundTrip Moves Transactions Reachable
open Checkpoint hiding databaseGeneration

section Loading
variable {platform : Platform} {equal : Operators} {fences : PipelineId → Option StoredFence}
  {transit : Option Uuid} {store : Store}

theorem loadOfHeader (sound : Sound platform fences transit store) {header} (member : header ∈ store.snapshotGroups)
    {stored} (read : readSnapshotGroup platform store header = .ok stored) :
    loadSnapshotGroup platform store header.snapshotGroupId = .ok stored := by
  obtain ⟨request,manifest⟩ := sound.manifests header member
  have valid : header.snapshotGroupId ≠ Uuid.nil := manifest.group ▸ (canonicalSource manifest.canonical).group
  have found := (headerIff sound).mpr ⟨member,rfl⟩
  refine bindOk.mpr ⟨some stored,?_,rfl⟩
  unfold loadSnapshotGroupOptional
  rw [if_neg valid,found]
  simp [read,Except.map]

theorem loadIff (sound : Sound platform fences transit store) (order : TextOrder platform)
    (digest : ∀ bytes, (platform.sha256 bytes).length = 32) {header request} (member : header ∈ store.snapshotGroups)
    (manifest : Stored platform store header request) {state} :
    loadSnapshotGroup platform store header.snapshotGroupId = .ok ⟨state,request⟩ ↔
      header.state = state ∧ InTargetOrder platform request.tables := by
  constructor
  · intro ok
    obtain ⟨other,known,_,read⟩ := loadedHeader ok
    cases known.symm.trans ((headerIff sound).mpr ⟨member,rfl⟩)
    obtain ⟨same,sorted⟩ := readOnly manifest read
    have ordered := sortedOrdered order request.tables
    rw [sorted] at ordered
    exact ⟨(congrArg StoredSnapshotGroup.state same).symm,ordered⟩
  · rintro ⟨rfl,ordered⟩
    exact loadOfHeader sound member (readBack manifest digest ordered)

theorem begunHeader {target : Target} {request canonical disposition target'}
    (sound : Sound platform fences none target.store) (valid : canonicalRequest request = .ok canonical)
    (ok : beginSnapshotGroup platform target request = .ok (disposition,target')) :
    ∃ header ∈ target'.store.snapshotGroups, header.snapshotGroupId = request.snapshotGroupId ∧
      Stored platform target'.store header canonical ∧ (header.state = .loading ↔
        ∀ other ∈ target.store.snapshotGroups, other.snapshotGroupId = request.snapshotGroupId → other.state ≠ .active) := by
  have group : canonical.snapshotGroupId = request.snapshotGroupId := by rw [(canonicalSource valid).shape]
  obtain ⟨again,valid',ok⟩ := bindOk.mp ok
  cases Except.ok.inj (valid.symm.trans valid')
  obtain ⟨_,_,ok⟩ := bindOk.mp ok
  obtain ⟨found,optional,ok⟩ := bindOk.mp ok
  cases found with
  | some stored =>
    obtain ⟨same,ok⟩ := iteOk.mp ok
    push Not at same
    have loaded : loadSnapshotGroup platform target.store canonical.snapshotGroupId = .ok stored :=
      bindOk.mpr ⟨some stored,optional,rfl⟩
    obtain ⟨header,member,own,state,manifest⟩ := loadedSource sound loaded
    have store : target' = target := by
      split at ok <;> cases Except.ok.inj ok <;> rfl
    subst store
    refine ⟨header,member,own.trans group,same ▸ manifest,fun loading other known named => ?_,fun inactive => ?_⟩
    · have one := (lookupIff sound.groups).mpr ⟨known,named⟩
      cases one.symm.trans ((lookupIff sound.groups).mpr ⟨member,own.trans group⟩)
      rw [loading]
      nofun
    · cases kind : header.state with
      | loading => rfl
      | active => exact absurd kind (inactive header member (own.trans group))
  | none =>
    obtain ⟨store,inserted,ok⟩ := bindOk.mp ok
    cases Except.ok.inj ok
    obtain ⟨_,_,inserted⟩ := bindOk.mp inserted
    cases Except.ok.inj inserted
    have fresh := absentGroup optional
    refine ⟨_,List.mem_append_right _ (List.mem_singleton_self _),group,
      storedRegistered sound (canonicalIdempotent valid) fresh rfl,fun _ other known named => ?_,fun _ => rfl⟩
    exact absurd (named.trans group.symm) (fresh other known)

/-- After a committed `begin_snapshot_group`, the group reads back as loading with exactly the canonical request, and
stays readable as long as its rows are there, if and only if the target orders the targets of its tables as their bytes
do and the group was not active already. -/
theorem roundTripIff {start : Target} {operations : List Operation} {request canonical disposition target'}
    (order : TextOrder platform) (digest : ∀ bytes, (platform.sha256 bytes).length = 32) (fresh : Fresh start)
    (valid : canonicalRequest request = .ok canonical)
    (begun : beginSnapshotGroup platform (run platform equal start operations) request = .ok (disposition,target')) :
    (loadSnapshotGroup platform target'.store request.snapshotGroupId = .ok ⟨.loading,canonical⟩ ∧
      ∀ later header, header ∈ (run platform equal target' later).store.snapshotGroups →
        Stored platform (run platform equal target' later).store header canonical →
        loadSnapshotGroup platform (run platform equal target' later).store request.snapshotGroupId =
          .ok ⟨header.state,canonical⟩) ↔
    Agrees platform request.tables ∧ ∀ other ∈ (run platform equal start operations).store.snapshotGroups,
      other.snapshotGroupId = request.snapshotGroupId → other.state ≠ .active := by
  have sound : SoundTarget platform (run platform equal start operations) := runSound operations (freshSound platform fresh)
  have committed : step platform equal (run platform equal start operations) (.beginSnapshotGroup request) = target' := by
    simp [step,commit,begun,Except.toOption]
  have sound' : SoundTarget platform target' := by
    rw [← committed]
    exact stepSound sound _
  obtain ⟨header,member,named,manifest,loading⟩ := begunHeader sound.store valid begun
  have shape := (canonicalSource valid).shape
  have ordered : Agrees platform request.tables ↔ InTargetOrder platform canonical.tables := by
    rw [agreesIff order,shape]
  rw [ordered,← loading,← named]
  constructor
  · rintro ⟨loaded,_⟩
    exact ((loadIff sound'.store order digest member manifest).mp loaded).symm
  · rintro ⟨agrees,state⟩
    refine ⟨(loadIff sound'.store order digest member manifest).mpr ⟨state,agrees⟩,fun later other known rows => ?_⟩
    have reached : SoundTarget platform (run platform equal target' later) := runSound later sound'
    have same : header.snapshotGroupId = other.snapshotGroupId := manifest.group.trans rows.group.symm
    rw [same]
    exact (loadIff reached.store order digest known rows).mpr ⟨rfl,agrees⟩

end Loading

section Sample
open Resume

theorem byteOrder : TextOrder sha256Platform := by
  refine ⟨fun left right => ?_,fun first second third => ?_,fun left right => ?_⟩ <;>
    simp only [sha256Platform,decide_eq_true_eq]
  · exact le_total left right
  · exact le_trans
  · exact le_antisymm

def foldedLe (left right : String) : Bool :=
  decide (left.toLower < right.toLower ∨ (left.toLower = right.toLower ∧ left ≤ right))

def foldedPlatform : Platform := ⟨Sha256.digest,foldedLe⟩

theorem foldedOrder : TextOrder foldedPlatform := by
  refine ⟨fun left right => ?_,fun first second third one two => ?_,fun left right forward backward => ?_⟩ <;>
    simp only [foldedPlatform,foldedLe,decide_eq_true_eq] at *
  · rcases lt_trichotomy left.toLower right.toLower with less | same | more
    · exact .inl (.inl less)
    · exact (le_total left right).imp (fun le => .inr ⟨same,le⟩) (fun le => .inr ⟨same.symm,le⟩)
    · exact .inr (.inl more)
  · rcases one with less | ⟨same,le⟩ <;> rcases two with less' | ⟨same',le'⟩
    · exact .inl (lt_trans less less')
    · exact .inl (same' ▸ less)
    · exact .inl (same ▸ less')
    · exact .inr ⟨same.trans same',le_trans le le'⟩
  · rcases forward with less | ⟨_,le⟩ <;> rcases backward with more | ⟨same,le'⟩
    · exact absurd (lt_trans less more) (lt_irrefl _)
    · exact absurd same.symm (ne_of_lt less)
    · rename_i same
      exact absurd same.symm (ne_of_lt more)
    · exact le_antisymm le le'

def upperTable : SnapshotActivationTable :=
  ⟨⟨"dw","Orders",dwValid,upperOrdersValid⟩,⟨"dw","orders_shadow",dwValid,ordersShadowValid⟩,16386,1,"orders v1"⟩

def fencedTarget (platform : Platform) : Target := run platform textOperators emptyTarget [.activatePipelineFence firstFence]

theorem mixedCaseRun : ((beginSnapshotGroup foldedPlatform (fencedTarget foldedPlatform)
    (groupRequest firstFence 1 [accountsTable,upperTable])).toOption.bind fun (disposition,target') =>
      some (disposition,Resume.failure (loadSnapshotGroup foldedPlatform target'.store 1))) =
    some (.registered,some (.corruptSnapshotGroupManifest 1)) := by decide +kernel

theorem mixedCaseCorrupt : TextOrder foldedPlatform ∧ ∃ target', beginSnapshotGroup foldedPlatform
    (fencedTarget foldedPlatform) (groupRequest firstFence 1 [accountsTable,upperTable]) = .ok (.registered,target') ∧
    loadSnapshotGroup foldedPlatform target'.store 1 = .error (.corruptSnapshotGroupManifest 1) := by
  have sample := mixedCaseRun
  simp only [Option.bind_eq_some_iff,toOptionSome,Option.some.injEq,Prod.mk.injEq] at sample
  obtain ⟨⟨disposition,target'⟩,begun,rfl,failed⟩ := sample
  exact ⟨foldedOrder,target',begun,failureSome.mp failed⟩

theorem accountsBegun : ((beginSnapshotGroup sha256Platform (fencedTarget sha256Platform)
    (groupRequest firstFence 1 [accountsTable,ordersTable])).toOption.map Prod.fst) = some .registered := by decide +kernel

theorem accountsReadBack : ∃ disposition target', beginSnapshotGroup sha256Platform (fencedTarget sha256Platform)
    (groupRequest firstFence 1 [accountsTable,ordersTable]) = .ok (disposition,target') ∧
    loadSnapshotGroup sha256Platform target'.store 1 =
      .ok ⟨.loading,groupRequest firstFence 1 [accountsTable,ordersTable]⟩ := by
  obtain ⟨⟨disposition,target'⟩,begun,_⟩ := Option.map_eq_some_iff.mp accountsBegun
  refine ⟨disposition,target',toOptionSome.mp begun,?_⟩
  exact ((roundTripIff byteOrder Sha256.digestLength emptyFresh (by decide +kernel) (toOptionSome.mp begun)).mpr
    ⟨by decide +kernel,by decide +kernel⟩).1

end Sample

end CloudberryEtl.Registration
