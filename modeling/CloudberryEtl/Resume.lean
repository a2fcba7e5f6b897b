import CloudberryEtl.Maintenance
import CloudberryEtl.Planning
import CloudberryEtl.Sha256

/-! A later run of an active snapshot group: `prepare_resume` plans the inventory again and compares the plan with the
manifest of the group. The derived names hold the fencing token of the run that planned them. -/
namespace CloudberryEtl.Resume
open Schema Change TablePlan StagedApply KeyedTable Result TargetStore Manifest ShadowLoad Activation Cleanup Fencing
open ActivatedGroup Maintenance Planning
open Checkpoint hiding databaseGeneration

section Group
variable {platform : Platform}

theorem loadOfHeader (header : SnapshotGroup) {store group stored} (valid : group ≠ Uuid.nil)
    (known : lookup SnapshotGroup.snapshotGroupId store.snapshotGroups group = some header)
    (read : readSnapshotGroup platform store header = .ok stored) :
    loadSnapshotGroup platform store group = .ok stored := by
  simp [loadSnapshotGroup,loadSnapshotGroupOptional,valid,known,read,bind,Except.bind,Except.map]

theorem sameLoads {store store' : Store} {group stored} (manifests : SameManifests store store')
    (loaded : loadSnapshotGroup platform store group = .ok stored) : loadSnapshotGroup platform store' group = .ok stored := by
  obtain ⟨header,known,valid,read⟩ := loadedHeader loaded
  exact loadOfHeader _ valid (by rw [manifests.headers,known])
    (readSame read (by rw [manifests.tables]) (by rw [manifests.nodes]))

theorem markedLoads {store group request store'} (ok : markSnapshotGroupActive store group = .ok store')
    (loaded : loadSnapshotGroup platform store group = .ok ⟨.loading,request⟩) :
    loadSnapshotGroup platform store' group = .ok ⟨.active,request⟩ := by
  obtain ⟨header,known,valid,read⟩ := loadedHeader loaded
  obtain ⟨loading,again⟩ := readSource read
  obtain ⟨_,_,ok⟩ := bindOk.mp ok
  cases Except.ok.inj ok
  refine loadOfHeader {header with state := .active} valid ?_ (again _ .active rfl rfl)
  rw [lookupMapSameKey (by intro row _; split <;> rfl),known]
  simp [lookupKey known,← loading]

theorem readRequest {store header stored} (ok : readSnapshotGroup platform store header = .ok stored) :
    stored.request.fence = header.fence ∧ stored.request.snapshotGroupId = header.snapshotGroupId := by
  unfold readSnapshotGroup at ok
  simp only at ok
  obtain ⟨_,ok⟩ := iteOk.mp ok
  obtain ⟨_,ok⟩ := iteOk.mp ok
  obtain ⟨_,ok⟩ := iteOk.mp ok
  obtain ⟨_,ok⟩ := iteOk.mp ok
  split at ok <;> try contradiction
  obtain ⟨exact',ok⟩ := iteOk.mp ok
  cases Except.ok.inj ok
  push Not at exact'
  rw [exact'.1]
  exact ⟨rfl,rfl⟩

theorem filterMapTurned {α : Type} {turn : α → α} {before gained : α → Bool}
    (turned : ∀ x, before (turn x) = (before x || gained x)) (apart : ∀ x, gained x → ¬ before x) (xs : List α) :
    ((xs.map turn).filter before).length = (xs.filter before).length + (xs.filter gained).length := by
  induction xs with
  | nil => rfl
  | cons x xs ih =>
    have here := apart x
    cases b : before x <;> cases g : gained x <;> simp_all <;> omega

theorem markedActives {store group request store'} (ok : markSnapshotGroupActive store group = .ok store')
    (loaded : loadSnapshotGroup platform store group = .ok ⟨.loading,request⟩) :
    (activeGroups store' request.fence).length = (activeGroups store request.fence).length + 1 := by
  obtain ⟨header,known,_,read⟩ := loadedHeader loaded
  have loading : SnapshotGroupState.loading = header.state := (readSource read).1
  have fence : request.fence = header.fence := (readRequest read).1
  obtain ⟨_,one,ok⟩ := bindOk.mp ok
  cases Except.ok.inj ok
  let selected := fun (header : SnapshotGroup) => decide (header.snapshotGroupId = group) && decide (header.state = .loading)
  let owned := fun (header : SnapshotGroup) => decide (header.fence.pipelineId = request.fence.pipelineId ∧
    header.fence.topologyGeneration = request.fence.topologyGeneration)
  have single : (store.snapshotGroups.filter selected).length = 1 := by
    unfold ensureOneMetadataRow at one
    split at one <;> try contradiction
    assumption
  have listed : header ∈ store.snapshotGroups.filter selected :=
    List.mem_filter.mpr ⟨lookupMem known,by simp [selected,lookupKey known,← loading]⟩
  have gained : (store.snapshotGroups.filter (fun header => selected header && owned header)).length = 1 := by
    obtain ⟨only,same⟩ := List.length_eq_one_iff.mp single
    rw [same,List.mem_singleton] at listed
    have filtered : store.snapshotGroups.filter (fun header => selected header && owned header) =
        (store.snapshotGroups.filter selected).filter owned := by
      rw [List.filter_filter]
      exact List.filter_congr fun row _ => Bool.and_comm _ _
    rw [filtered,same,← listed]
    simp [owned,fence]
  rw [← gained]
  refine filterMapTurned (fun row => ?_) (fun row chosen => ?_) store.snapshotGroups
  · by_cases chosen : row.snapshotGroupId = group <;> by_cases idle : row.state = .loading <;>
      simp [selected,owned,chosen,idle]
  · simp only [selected,owned,Bool.and_eq_true,decide_eq_true_eq] at chosen
    simp [chosen.1.2]

theorem advancedReached {fence : PipelineFence} (boundaries : List NodeCheckpoint) : ∀ {tables tables'},
    boundaries.foldlM (advanceBoundary fence) tables = .ok tables' →
    ∀ boundary ∈ boundaries, ∃ stored, tables'.nodeCheckpoints boundary.key = some stored ∧
      stored.checkpoint.key = boundary.key ∧ stored.checkpoint.systemIdentifier = boundary.systemIdentifier ∧
      stored.checkpoint.timeline = boundary.timeline ∧ stored.checkpoint.slotName = boundary.slotName ∧
      boundary.appliedLsn ≤ stored.checkpoint.appliedLsn := by
  induction boundaries with
  | nil => simp
  | cons head boundaries ih =>
    intro tables tables' ok boundary mem
    obtain ⟨middle,first,rest⟩ := bindOk.mp ok
    rcases List.mem_cons.mp mem with rfl | mem
    · obtain ⟨⟨_,_⟩,moved,result⟩ := bindOk.mp first
      cases Except.ok.inj result
      have found := advanceWritten (mapErrorOk.mp moved)
      obtain ⟨later,foundLater,key,system,timeline,slot,lsn⟩ :=
        (advanceBoundariesKeeps boundaries rest).advances boundary.key _ found
      exact ⟨later,foundLater,key.symm,system.symm,timeline.symm,slot.symm,lsn⟩
    · exact ih rest boundary mem

theorem retryVerified {checkpoints fence boundary stored} (valid : validateBoundary fence boundary = .ok ())
    (found : checkpoints.nodeCheckpoints boundary.key = some stored) (key : stored.checkpoint.key = boundary.key)
    (system : stored.checkpoint.systemIdentifier = boundary.systemIdentifier)
    (timeline : stored.checkpoint.timeline = boundary.timeline) (slot : stored.checkpoint.slotName = boundary.slotName)
    (reached : boundary.appliedLsn ≤ stored.checkpoint.appliedLsn) :
    verifyRetryCheckpoint checkpoints boundary = .ok () := by
  obtain ⟨_,valid⟩ := iteOk.mp valid
  obtain ⟨_,valid⟩ := iteOk.mp valid
  obtain ⟨_,valid,_⟩ := bindOk.mp valid
  obtain ⟨_,valid,_⟩ := bindOk.mp (mapErrorOk.mp valid)
  obtain ⟨_,generation,_⟩ := bindOk.mp valid
  simp [verifyRetryCheckpoint,loadNodeCheckpoint,checkpointReached,ensureSameIdentity,generation,valid,found,key,system,
    timeline,slot,reached,bind,Except.bind,Except.mapError]

end Group

section Names
variable {sha256 : Bytes → Bytes}

def rawShadowName (job : JobSettings) (attempt : Nat) (source : TableSchema) : String :=
  "pg2cb_shadow_" ++ nameSuffix job attempt source

def shadowStem (job : JobSettings) : List Char := "pg2cb_shadow_".toList ++ uuidSimple job.pipelineId

theorem shadowStemParts (job : JobSettings) :
    shadowStem job = "pg2cb_shadow_".toList ++ uuidSimple job.pipelineId := rfl

theorem rawShadowChars (job : JobSettings) (attempt : Nat) (source : TableSchema) :
    (rawShadowName job attempt source).toList =
      shadowStem job ++ '_' :: (Nat.toDigits 10 source.relationId ++ '_' :: Nat.toDigits 10 attempt) := by
  have underscore : "_".toList = ['_'] := by decide +kernel
  have digits : ∀ n : Nat, (toString n).toList = Nat.toDigits 10 n := fun n => Nat.toList_repr
  simp only [rawShadowName,nameSuffix,shadowStemParts,String.toList_append,String.toList_ofList,underscore,digits,
    List.append_assoc,List.cons_append,List.nil_append]

theorem stemLength (job : JobSettings) : (shadowStem job).length = 45 := by
  have start : "pg2cb_shadow_".toList.length = 13 := by decide +kernel
  simp only [shadowStemParts,List.length_append,start,uuidSimple,List.length_map,List.length_reverse,List.length_range]

theorem shadowNameRaw (job : JobSettings) (attempt : Nat) (source : TableSchema) :
    shadowName sha256 job attempt source = shortenIdentifier sha256 (rawShadowName job attempt source) := rfl

theorem digitAscii : ∀ digit < 16, (Nat.digitChar digit).utf8Size = 1 ∧ Nat.digitChar digit ≠ '_' := by decide

theorem stemAscii {job : JobSettings} {c} (mem : c ∈ shadowStem job) : c.utf8Size = 1 := by
  have start : "pg2cb_shadow_".toList.all (fun c => c.utf8Size == 1) = true := by decide +kernel
  rcases List.mem_append.mp mem with mem | mem
  · simpa using List.all_eq_true.mp start c mem
  · obtain ⟨place,_,rfl⟩ := List.mem_map.mp mem
    exact (digitAscii _ (Nat.mod_lt _ (by decide))).1

theorem charPrefixAscii (xs ys : List Char) (ascii : ∀ c ∈ xs, c.utf8Size = 1) : charPrefix xs.length (xs ++ ys) = xs := by
  induction xs with
  | nil =>
    cases ys with
    | nil => rfl
    | cons y ys =>
      have positive := y.utf8Size_pos
      simp [charPrefix,Nat.ne_of_gt positive]
  | cons x xs ih =>
    have here := ascii x (by simp)
    simpa [charPrefix,here] using ih (fun c mem => ascii c (by simp [mem]))

theorem hexBytesLength (bytes : Bytes) : (bytes.flatMap hexByte).length = 2 * bytes.length := by
  induction bytes with
  | nil => rfl
  | cons octet bytes ih => simp [hexByte,ih]; omega

def digitValue (c : Char) : Nat := if 'a' ≤ c then c.toNat - 87 else c.toNat - 48

theorem digitValueDigit : ∀ digit < 16, digitValue (Nat.digitChar digit) = digit := by decide

theorem hexByteInjective {left right : UInt8} (same : hexByte left = hexByte right) : left = right := by
  have bounds := left.toNat_lt
  have bounds' := right.toNat_lt
  simp only [hexByte,List.cons.injEq,and_true] at same
  have high := congrArg digitValue same.1
  have low := congrArg digitValue same.2
  rw [digitValueDigit _ (by omega),digitValueDigit _ (by omega)] at high
  rw [digitValueDigit _ (by omega),digitValueDigit _ (by omega)] at low
  exact UInt8.toNat_inj.mp (by omega)

theorem hexBytesInjective (left : Bytes) : ∀ {right : Bytes}, left.flatMap hexByte = right.flatMap hexByte → left = right := by
  induction left with
  | nil =>
    intro right same
    cases right with
    | nil => rfl
    | cons octet right => simp [hexByte] at same
  | cons octet left ih =>
    intro right same
    cases right with
    | nil => simp [hexByte] at same
    | cons octet' right =>
      simp only [List.flatMap_cons] at same
      obtain ⟨head,tail⟩ := List.append_inj same (by simp [hexByte])
      rw [hexByteInjective head,ih tail]

theorem shortenedShadow {job attempt source} (width : ∀ input, (sha256 input).length = 32)
    (long : ¬ (rawShadowName job attempt source).utf8ByteSize ≤ postgresIdentifierMaxBytes) :
    (shadowName sha256 job attempt source).toList = (shadowStem job).take 38 ++
      '_' :: ((sha256 (strBytes (rawShadowName job attempt source))).take hashSuffixBytes).flatMap hexByte := by
  let suffix := ((sha256 (strBytes (rawShadowName job attempt source))).take hashSuffixBytes).flatMap hexByte
  have room : postgresIdentifierMaxBytes - 1 - suffix.length = ((shadowStem job).take 38).length := by
    rw [hexBytesLength,List.length_take,List.length_take,width,stemLength]
    decide
  have kept : charPrefix (postgresIdentifierMaxBytes - 1 - suffix.length) (rawShadowName job attempt source).toList =
      (shadowStem job).take 38 := by
    have split := (shadowStem job).take_append_drop 38
    rw [room,rawShadowChars,← split,List.append_assoc,split]
    exact charPrefixAscii _ _ fun c mem => stemAscii (List.mem_of_mem_take mem)
  rw [shadowNameRaw,shortenIdentifier,if_neg long]
  simp only [String.toList_ofList]
  rw [kept]

theorem shortenedDiffers {job attempt attempt' source source'} (width : ∀ input, (sha256 input).length = 32)
    (short : (rawShadowName job attempt source).utf8ByteSize ≤ postgresIdentifierMaxBytes)
    (long : ¬ (rawShadowName job attempt' source').utf8ByteSize ≤ postgresIdentifierMaxBytes) :
    shadowName sha256 job attempt source ≠ shadowName sha256 job attempt' source' := by
  -- A short name has a digit of the pipeline where a shortened one has the underscore.
  intro same
  have shortened := shortenedShadow width long
  rw [← same,shadowNameRaw,shortenIdentifier,if_pos short,rawShadowChars] at shortened
  have here := congrArg (fun chars => chars[38]?) shortened
  have size : ((shadowStem job).take 38).length = 38 := by simp [stemLength]
  rw [List.getElem?_append_left (by simp [stemLength]),List.getElem?_append_right (by omega),size] at here
  simp only [shadowStemParts,Nat.sub_self,List.getElem?_cons_zero] at here
  rw [List.getElem?_append_right (by decide +kernel)] at here
  simp only [uuidSimple,List.getElem?_map] at here
  obtain ⟨place,_,digit⟩ := Option.map_eq_some_iff.mp here
  exact (digitAscii _ (Nat.mod_lt _ (by decide))).2 digit

theorem shadowApart {job attempt attempt' source source'} (width : ∀ input, (sha256 input).length = 32)
    (apart : attempt ≠ attempt') (same : source.relationId = source'.relationId)
    (digests : (sha256 (strBytes (rawShadowName job attempt source))).take hashSuffixBytes ≠
      (sha256 (strBytes (rawShadowName job attempt' source'))).take hashSuffixBytes) :
    shadowName sha256 job attempt source ≠ shadowName sha256 job attempt' source' := by
  by_cases short : (rawShadowName job attempt source).utf8ByteSize ≤ postgresIdentifierMaxBytes
  · by_cases short' : (rawShadowName job attempt' source').utf8ByteSize ≤ postgresIdentifierMaxBytes
    · intro equal
      rw [shadowNameRaw,shortenIdentifier,if_pos short,shadowNameRaw,shortenIdentifier,if_pos short'] at equal
      have chars := congrArg String.toList equal
      simp only [rawShadowChars,same,List.append_cancel_left_eq,List.cons.injEq,true_and] at chars
      apply apart
      rw [← Nat.ofDigitChars_ten_toDigits (n := attempt),chars,Nat.ofDigitChars_ten_toDigits]
    · exact shortenedDiffers width short short'
  · by_cases short' : (rawShadowName job attempt' source').utf8ByteSize ≤ postgresIdentifierMaxBytes
    · exact (shortenedDiffers width short' short).symm
    · intro equal
      have chars := congrArg String.toList equal
      rw [shortenedShadow width short,shortenedShadow width short',List.append_cancel_left_eq,List.cons.injEq] at chars
      exact digests (hexBytesInjective _ chars.2)

end Names

section Plan
variable {sha256 : Bytes → Bytes} {toVec : Json → Bytes} {job : JobSettings}

def NamedBy (sha256 : Bytes → Bytes) (job : JobSettings) (attempt : Nat) (planned : PlannedTable) : Prop :=
  planned.shadow.name = shadowName sha256 job attempt planned.source

theorem planTableNamed {attempt planned source planned'} (ok : planTable sha256 toVec job attempt planned source = .ok planned') :
    ∃ table, planned' = planned ++ [table] ∧ table.source = source ∧ NamedBy sha256 job attempt table := by
  unfold planTable at ok
  cases explicit : explicitTarget job source.name <;> simp only [explicit] at ok
  all_goals
    obtain ⟨target,_,ok⟩ := bindOk.mp ok
    obtain ⟨_,ok⟩ := iteOk.mp ok
    obtain ⟨shadow,named,ok⟩ := bindOk.mp ok
    obtain ⟨_,ok⟩ := iteOk.mp ok
    obtain ⟨_,ok⟩ := iteOk.mp ok
    cases Except.ok.inj ok
    exact ⟨_,rfl,rfl,(QualifiedName.newSource (mapErrorOk.mp named)).2⟩

theorem planTablesNamed {attempt sources planned} (ok : planTables sha256 toVec job attempt sources = .ok planned) :
    planned.map PlannedTable.source = sources ∧ ∀ table ∈ planned, NamedBy sha256 job attempt table := by
  unfold planTables at ok
  split at ok
  · contradiction
  · have invariant := @foldlMInvariant _ _ _ _ (fun past (planned : List PlannedTable) =>
      planned.map PlannedTable.source = past ∧ ∀ table ∈ planned, NamedBy sha256 job attempt table)
      (fun past state source state' before step => ?_) sources [] [] planned ⟨rfl,by simp⟩ ok
    · simpa using invariant
    · obtain ⟨table,rfl,same,named⟩ := planTableNamed step
      refine ⟨by simp [before.1,same],fun other mem => ?_⟩
      rcases List.mem_append.mp mem with mem | mem
      · exact before.2 other mem
      · rw [List.mem_singleton.mp mem]
        exact named

theorem snapshotTableSource {planned table} (ok : snapshotTable job planned = .ok table) :
    table.planned = planned ∧ table.snapshotPlan.shadow.target = planned.shadow ∧
      table.snapshotPlan.sourceRelationId = planned.source.relationId := by
  obtain ⟨plan,planOk,ok⟩ := bindOk.mp ok
  cases Except.ok.inj ok
  obtain ⟨_,planOk⟩ := iteOk.mp (mapErrorOk.mp planOk)
  obtain ⟨_,planOk⟩ := iteOk.mp planOk
  obtain ⟨shadow,created,planOk⟩ := bindOk.mp planOk
  obtain ⟨_,_,planOk⟩ := bindOk.mp planOk
  obtain ⟨_,_,planOk⟩ := bindOk.mp planOk
  cases Except.ok.inj planOk
  exact ⟨rfl,(planCreateTableSource (mapErrorOk.mp created)).2,rfl⟩

def Shadows (sha256 : Bytes → Bytes) (job : JobSettings) (attempt : Nat) (source : TableSchema)
    (table : SnapshotActivationTable) : Prop :=
  table.sourceRelationId = source.relationId ∧ table.shadow.name = shadowName sha256 job attempt source

theorem planInventorySource {token inventory tables}
    (ok : planInventory sha256 toVec job token inventory = .ok tables) :
    inventory.supported ≠ [] ∧
    List.Forall₂ (Shadows sha256 job token.toNat) inventory.supported (activationTables tables) := by
  unfold planInventory at ok
  split at ok
  · contradiction
  · obtain ⟨_,ok⟩ := iteOk.mp ok
    obtain ⟨planned,plannedOk,ok⟩ := bindOk.mp ok
    obtain ⟨accepted,acceptedOk,ok⟩ := bindOk.mp ok
    obtain ⟨filled,ok⟩ := iteOk.mp ok
    cases Except.ok.inj ok
    obtain ⟨sources,named⟩ := planTablesNamed (mapErrorOk.mp plannedOk)
    have related := mapMOk.mp acceptedOk
    rw [← sources]
    refine ⟨fun empty => filled ?_,?_⟩
    · rw [List.map_eq_nil_iff.mp empty] at related
      cases related
      rfl
    · rw [activationTables,List.forall₂_map_left_iff,List.forall₂_map_right_iff]
      refine List.forall₂_iff_zip.mpr ⟨related.length_eq,fun {one two} paired => ?_⟩
      obtain ⟨same,shadow,relation⟩ := snapshotTableSource ((List.forall₂_iff_zip.mp related).2 paired)
      exact ⟨relation,(congrArg QualifiedName.name shadow).trans (named one (List.of_mem_zip paired).1)⟩

end Plan

section Resumption
variable {platform : Platform} {toVec : Json → Bytes} {equal : Operators} {now : Nat} {job : JobSettings}

def jobFence (job : JobSettings) (token : Int) : PipelineFence := ⟨job.pipelineId,job.topologyGeneration,token⟩

theorem sameToken {inventory token token' tables replanned}
    (width : ∀ input, (platform.sha256 input).length = 32) (positive : 0 < token) (positive' : 0 < token')
    (digests : ∀ source ∈ inventory.supported, token ≠ token' →
      (platform.sha256 (strBytes (rawShadowName job token.toNat source))).take hashSuffixBytes ≠
        (platform.sha256 (strBytes (rawShadowName job token'.toNat source))).take hashSuffixBytes)
    (planned : planInventory platform.sha256 toVec job token inventory = .ok tables)
    (again : planInventory platform.sha256 toVec job token' inventory = .ok replanned)
    (subset : ∀ table ∈ activationTables tables, table ∈ activationTables replanned) : token' = token := by
  by_contra apart
  obtain ⟨filled,named⟩ := planInventorySource planned
  obtain ⟨_,named'⟩ := planInventorySource again
  obtain ⟨source,mem⟩ := List.exists_mem_of_ne_nil _ filled
  obtain ⟨index,found⟩ := List.getElem?_of_mem mem
  obtain ⟨table,here,relation,shadow⟩ := relatedAt named found
  obtain ⟨source',_,relation',shadow'⟩ := relatedMem named' (subset table (List.mem_of_getElem? here))
  have sameSource : source.relationId = source'.relationId := relation.symm.trans relation'
  have sameRaw : rawShadowName job token'.toNat source' = rawShadowName job token'.toNat source := by
    simp only [rawShadowName,nameSuffix,sameSource]
  refine shadowApart width (by omega) sameSource ?_ (shadow.symm.trans shadow')
  rw [sameRaw]
  exact digests source mem (Ne.symm apart)

structure Resumable (platform : Platform) (request : SnapshotActivationRequest) (start current : Target) : Prop where
  loaded : loadSnapshotGroup platform current.store request.snapshotGroupId = .ok ⟨.active,request⟩
  serve : ∀ table ∈ request.tables, Serves request.fence request.snapshotGroupId current.store table
  actives : (activeGroups current.store request.fence).length = (activeGroups start.store request.fence).length + 1
  header : ∃ header ∈ activeGroups current.store request.fence, header.snapshotGroupId = request.snapshotGroupId
  verified : ∀ boundary ∈ request.initialCheckpoints, verifyRetryCheckpoint current.checkpoints boundary = .ok ()

theorem resumable (equal : Operators) {request : SnapshotActivationRequest} {start activated : Target} {operations : List Operation}
    (canonical : canonicalRequest request = .ok request) (source : Activated platform request start activated)
    (maintenance : ∀ operation ∈ operations, isMaintenance operation) :
    Resumable platform request start (run platform equal activated operations) := by
  have maintained : Maintained activated.store (run platform equal activated operations).store :=
    runMaintained operations maintenance
  obtain ⟨marked,manifests,markOk⟩ := source.marked
  have loadedMarked := sameLoads manifests source.loading
  have loaded := markedLoads markOk loadedMarked
  obtain ⟨header,known,valid,read⟩ := loadedHeader loaded
  have state : SnapshotGroupState.active = header.state := (readSource read).1
  have fence : request.fence = header.fence := (readRequest read).1
  have id := lookupKey known
  refine ⟨?_,fun table mem => ?_,?_,⟨header,?_,id⟩,fun boundary mem => ?_⟩
  · refine loadOfHeader _ valid (maintained.headers _ header known state.symm) (readSame read ?_ ?_)
    · rw [id]
      exact maintained.tables _ header known state.symm
    · rw [id]
      exact maintained.nodes _ header known state.symm
  · obtain ⟨record,found,facts⟩ := (source.serve table mem).target
    exact ⟨⟨record,maintained.serving _ record found facts.2.1,facts⟩,maintained.vacant _ (source.serve table mem).shadow⟩
  · have counted := markedActives markOk loadedMarked
    rw [maintained.actives,counted,activeGroups,manifests.headers]
    rfl
  · rw [maintained.actives]
    refine List.mem_filter.mpr ⟨lookupMem known,?_⟩
    simp [fence,← state]
  · have valid := (canonicalSource canonical).eachBoundary boundary mem
    obtain ⟨stored,found,key,system,timeline,slot,reached⟩ := advancedReached _ source.advanced boundary mem
    obtain ⟨later,foundLater,key',system',timeline',slot',reached'⟩ :=
      (runRises platform equal operations activated).2 boundary.key stored found
    exact retryVerified valid foundLater (key'.symm.trans key) (system'.symm.trans system)
      (timeline'.symm.trans timeline) (slot'.symm.trans slot) (Nat.le_trans reached reached')

/-- A later run validates an active group exactly when it runs under the token of the activation and no other group of
the generation was active before. -/
theorem resumesIffSameToken {inventory token token' group boundaries tables outcome start activated operations}
    (width : ∀ input, (platform.sha256 input).length = 32)
    (digests : ∀ source ∈ inventory.supported, token ≠ token' →
      (platform.sha256 (strBytes (rawShadowName job token.toNat source))).take hashSuffixBytes ≠
        (platform.sha256 (strBytes (rawShadowName job token'.toNat source))).take hashSuffixBytes)
    (planned : planInventory platform.sha256 toVec job token inventory = .ok tables)
    (activation : activateSnapshotGroup platform now start ⟨jobFence job token,group,activationTables tables,boundaries⟩ =
      .ok (outcome,activated))
    (promoted : outcome.disposition = .activated)
    (maintenance : ∀ operation ∈ operations, isMaintenance operation)
    (held : lockPipelineFence (run platform equal activated operations).checkpoints (jobFence job token') = .ok ()) :
    (∃ replanned active, planInventory platform.sha256 toVec job token' inventory = .ok replanned ∧
      validateActiveSnapshotGroup platform (run platform equal activated operations) (jobFence job token')
        (activationTables replanned) = .ok active) ↔
    token' = token ∧ activeGroups start.store (jobFence job token) = [] := by
  obtain ⟨canonical,valid,source⟩ := activatedSource activation promoted
  have canonicalAgain := canonicalIdempotent valid
  have shape := canonicalSource valid
  obtain ⟨loaded,serve,actives,⟨header,listed,owned⟩,verified⟩ :=
    resumable equal canonicalAgain source maintenance
  generalize run platform equal activated operations = current at *
  have positive : 0 < token := shape.token
  have positive' : 0 < token' := (lockSource held).2
  have fence : canonical.fence = jobFence job token := congrArg (·.fence) shape.shape
  have groupId : canonical.snapshotGroupId = group := congrArg (·.snapshotGroupId) shape.shape
  have tablesEq : canonical.tables = sortTables (activationTables tables) := congrArg (·.tables) shape.shape
  have boundariesEq : canonical.initialCheckpoints = sortBoundaries boundaries :=
    congrArg (·.initialCheckpoints) shape.shape
  have sameActives : activeGroups current.store (jobFence job token') = activeGroups current.store canonical.fence := by
    rw [fence]
    rfl
  have startActives : activeGroups start.store canonical.fence = activeGroups start.store (jobFence job token) := by
    rw [fence]
  rw [startActives] at actives
  constructor
  · rintro ⟨replanned,active,again,ok⟩
    obtain ⟨_,_,ok⟩ := bindOk.mp ok
    obtain ⟨_,_,ok⟩ := bindOk.mp ok
    rw [sameActives] at ok
    split at ok <;> try contradiction
    rename_i only found
    rw [found,List.mem_singleton] at listed
    rw [← listed,owned] at ok
    rw [found] at actives
    simp only [loaded,bind,Except.bind] at ok
    obtain ⟨_,ok⟩ := iteOk.mp ok
    obtain ⟨expected,expectedOk,ok⟩ := bindOk.mp ok
    obtain ⟨same,_⟩ := iteOk.mp ok
    push Not at same
    rw [(canonicalSource expectedOk).shape,tablesEq] at same
    refine ⟨sameToken width positive positive' digests planned again fun table mem => ?_,?_⟩
    · have sorted := memSortTables.mpr mem
      rw [← same] at sorted
      exact memSortTables.mp sorted
    · exact List.eq_nil_of_length_eq_zero (by simpa using actives.symm)
  · rintro ⟨rfl,none'⟩
    rw [none'] at actives
    obtain ⟨only,found⟩ := List.length_eq_one_iff.mp actives
    rw [found,List.mem_singleton] at listed
    refine ⟨tables,canonical.snapshotGroupId,planned,?_⟩
    have expected : canonicalRequest ⟨jobFence job token',canonical.snapshotGroupId,activationTables tables,
        canonical.initialCheckpoints⟩ = .ok canonical := by
      rw [boundariesEq,groupId]
      exact canonicalOk (canonicalSorted shape)
    have tablesActive : ∃ units, canonical.tables.mapM (requireActive current.store canonical) = .ok units := by
      refine mapMUnit.mpr fun table mem => ?_
      simp [requireActive,(serve table mem).classified rfl (Int.le_refl _) rfl,bind,Except.bind]
    obtain ⟨units,tablesActive⟩ := tablesActive
    obtain ⟨units',reached⟩ := mapMUnit.mpr verified
    have inRange : databaseGeneration (jobFence job token').topologyGeneration = .ok _ := if_pos shape.generation
    refine bindOk.mpr ⟨(),mapErrorOk.mpr held,bindOk.mpr ⟨_,inRange,?_⟩⟩
    rw [sameActives,found]
    simp only
    rw [← listed,owned]
    refine bindOk.mpr ⟨_,loaded,?_⟩
    rw [if_neg (by simp [fence])]
    refine bindOk.mpr ⟨canonical,expected,?_⟩
    rw [if_neg (by simp)]
    exact bindOk.mpr ⟨_,tablesActive,bindOk.mpr ⟨_,reached,rfl⟩⟩

end Resumption

section Sample

def accounts : TableSchema :=
  ⟨16385,0,⟨"public","accounts",publicValid,accountsValid⟩,.ordinary,.default,
    [⟨1,"id",⟨20,⟨"pg_catalog","int8",pgCatalogValid,int8Valid⟩,.int8⟩,false,some 1,.none,.none,none⟩],[],[]⟩

def inventory : TableInventory := ⟨[accounts],[]⟩

def settings : JobSettings := ⟨7,1,"src","app","dw",[]⟩

def sha256Platform : Platform := ⟨Sha256.digest,fun left right => decide (left ≤ right)⟩

def boundary : NodeCheckpoint := ⟨⟨7,1,0⟩,42,1,"pg2cb_slot",100⟩

def planUnder (token : Int) : Except PlanInventoryError (List RuntimeTable) :=
  planInventory sha256Platform.sha256 compactBytes settings token inventory

def firstRequest (tables : List RuntimeTable) : SnapshotActivationRequest :=
  ⟨jobFence settings 1,1,activationTables tables,[boundary]⟩

def emptyTarget : Target := ⟨⟨fun _ => none,fun _ => none⟩,⟨fun _ => none,1,fun _ => none,[],fun _ => none,[],[],[],[]⟩⟩

def loadOperations (tables : List RuntimeTable) : List Operation :=
  .activatePipelineFence (jobFence settings 1) :: .beginSnapshotGroup (firstRequest tables) ::
    tables.map (fun table => .snapshotApply table.snapshotPlan ⟨jobFence settings 1,1,table.planned.schemaFingerprint⟩ (some []))

def loadedTarget (tables : List RuntimeTable) : Target := run sha256Platform textOperators emptyTarget (loadOperations tables)

def firstActivation (tables : List RuntimeTable) : Except SnapshotTargetError (SnapshotActivationOutcome × Target) :=
  activateSnapshotGroup sha256Platform 0 (loadedTarget tables) (firstRequest tables)

def leased (token : Int) (activated : Target) : Target :=
  run sha256Platform textOperators activated [.activatePipelineFence (jobFence settings token)]

def failure {ε α : Type} : Except ε α → Option ε
  | .error error => some error
  | .ok _ => none

theorem failureSome {ε α : Type} {x : Except ε α} {error : ε} : failure x = some error ↔ x = .error error := by
  cases x <;> simp [failure]

theorem sampleRun : ((planUnder 1).toOption.bind fun tables => (planUnder 2).toOption.bind fun replanned =>
    (firstActivation tables).toOption.bind fun (outcome,activated) =>
    some (outcome.disposition,activeGroups (loadedTarget tables).store (jobFence settings 1),
      (lockPipelineFence (leased 1 activated).checkpoints (jobFence settings 1)).toOption,
      (lockPipelineFence (leased 2 activated).checkpoints (jobFence settings 2)).toOption,
      failure (validateActiveSnapshotGroup sha256Platform (leased 2 activated) (jobFence settings 2)
        (activationTables replanned)))) =
    some (.activated,[],some (),some (),some (.snapshotGroupManifestMismatch 1)) := by
  simp only [planUnder,compactFlat]
  decide +kernel

theorem newerTokenRejected : ∃ tables outcome activated replanned, planUnder 1 = .ok tables ∧
    firstActivation tables = .ok (outcome,activated) ∧ outcome.disposition = .activated ∧ planUnder 2 = .ok replanned ∧
    validateActiveSnapshotGroup sha256Platform (leased 2 activated) (jobFence settings 2) (activationTables replanned) =
      .error (.snapshotGroupManifestMismatch 1) := by
  have sample := sampleRun
  simp only [Option.bind_eq_some_iff,toOptionSome,Option.some.injEq,Prod.mk.injEq] at sample
  obtain ⟨tables,planned,replanned,again,⟨outcome,activated⟩,activation,disposition,_,_,_,failed⟩ := sample
  exact ⟨tables,outcome,activated,replanned,planned,activation,disposition,again,failureSome.mp failed⟩

theorem resumesUnderTheSameToken : ∃ tables outcome activated, planUnder 1 = .ok tables ∧
    firstActivation tables = .ok (outcome,activated) ∧
    (∃ replanned active, planUnder 1 = .ok replanned ∧ validateActiveSnapshotGroup sha256Platform (leased 1 activated)
      (jobFence settings 1) (activationTables replanned) = .ok active) ∧
    ¬ ∃ replanned active, planUnder 2 = .ok replanned ∧ validateActiveSnapshotGroup sha256Platform (leased 2 activated)
      (jobFence settings 2) (activationTables replanned) = .ok active := by
  have sample := sampleRun
  simp only [Option.bind_eq_some_iff,toOptionSome,Option.some.injEq,Prod.mk.injEq] at sample
  obtain ⟨tables,planned,_,_,⟨outcome,activated⟩,activation,disposition,fresh,held,held',_⟩ := sample
  refine ⟨tables,outcome,activated,planned,activation,?_,?_⟩
  · exact (resumesIffSameToken Sha256.digestLength (by simp) planned activation disposition
      (by simp [isMaintenance]) held).mpr ⟨rfl,fresh⟩
  · intro resumes
    have same := (resumesIffSameToken Sha256.digestLength (by decide +kernel) planned activation disposition
      (by simp [isMaintenance]) held').mp resumes
    exact absurd same.1 (by decide)

end Sample

end CloudberryEtl.Resume
