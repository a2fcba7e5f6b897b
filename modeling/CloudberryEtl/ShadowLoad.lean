import CloudberryEtl.Manifest

/-! Loading one table of a snapshot group into its shadow, from `target::snapshot`. `begin_snapshot_apply`, the COPY
and the commit are one target transaction, so they are one step here. -/
namespace CloudberryEtl.ShadowLoad
open Schema Change TablePlan StagedApply SqlText KeyedTable Result TargetStore Manifest
open Checkpoint hiding databaseGeneration

structure SnapshotOwnership where
  fence : PipelineFence
  snapshotGroupId : Uuid
  schemaFingerprint : String
  deriving DecidableEq, Repr

structure SnapshotTargetPlan where
  target : QualifiedName
  shadow : CreateTablePlan
  sourceRelationId : Nat
  sourceGeneration : Nat
  deriving DecidableEq, Repr

def planSnapshotTarget (source : TableSchema) (target shadow : QualifiedName) :
    Except SnapshotTargetError SnapshotTargetPlan := do
  if target = shadow then .error .targetIsShadow
  else if target.schema ≠ shadow.schema then
    .error (.crossSchemaShadowUnsupported target.display shadow.display)
  else
    let shadow ← (planCreateTable source shadow).mapError .schema
    let _ ← (quoteQualifiedName shadow.target).mapError .sql
    let _ ← (quoteIdentifierList (shadow.columns.map ColumnPlan.name)).mapError .sql
    .ok ⟨target,shadow,source.relationId,source.generation⟩

def SnapshotTargetPlan.activationTable (plan : SnapshotTargetPlan) (schemaFingerprint : String) :
    SnapshotActivationTable :=
  ⟨plan.target,plan.shadow.target,plan.sourceRelationId,plan.sourceGeneration,schemaFingerprint⟩

def validateOwnership (ownership : SnapshotOwnership) : Except SnapshotTargetError Unit :=
  if ownership.fence.fencingToken ≤ 0 ∨ ownership.schemaFingerprint = "" then .error .invalidOwnership
  else if ownership.snapshotGroupId = Uuid.nil then .error .invalidSnapshotGroupId
  else .ok ()

def validateApplyMembership (stored : StoredSnapshotGroup) (plan : SnapshotTargetPlan) (ownership : SnapshotOwnership) :
    Except SnapshotTargetError Unit :=
  if stored.request.snapshotGroupId ≠ ownership.snapshotGroupId ∨ stored.request.fence ≠ ownership.fence then
    .error (.snapshotGroupManifestMismatch ownership.snapshotGroupId)
  else match stored.request.tables.find? (fun table => table.target = plan.target) with
  | none => .error (.snapshotTableNotInManifest ownership.snapshotGroupId plan.target.display)
  | some table =>
    if table ≠ plan.activationTable ownership.schemaFingerprint then
      .error (.snapshotTableManifestMismatch ownership.snapshotGroupId plan.target.display)
    else .ok ()

def validateTargetForLoad (state : RelationState) (plan : SnapshotTargetPlan) (ownership : SnapshotOwnership) :
    Except SnapshotTargetError Unit :=
  match state with
  | .vacant => .ok ()
  | .unmanaged => .error (.existingUnmanagedTable plan.target.display)
  | .managedObjectMissing _ => .error (.managedRelationMissing plan.target.display)
  | .managed record => do
    validateManagedIdentity plan.target record ownership.fence.pipelineId plan.sourceRelationId
    validateManagedFence plan.target record ownership.fence.fencingToken
    requireState plan.target record .active
    if record.tableGeneration = plan.sourceGeneration ∧ record.schemaFingerprint = ownership.schemaFingerprint then
      .error (.targetAlreadyActive plan.target.display)
    else .ok ()

def validateShadowForRebuild (state : RelationState) (plan : SnapshotTargetPlan) (ownership : SnapshotOwnership) :
    Except SnapshotTargetError Bool :=
  let name := plan.shadow.target.display
  match state with
  | .vacant => .ok false
  | .unmanaged => .error (.existingUnmanagedTable name)
  | .managedObjectMissing _ => .error (.managedRelationMissing name)
  | .managed record => do
    validateManagedIdentity plan.shadow.target record ownership.fence.pipelineId plan.sourceRelationId
    validateManagedFence plan.shadow.target record ownership.fence.fencingToken
    requireState plan.shadow.target record .shadow
    if record.snapshotGroupId ≠ some ownership.snapshotGroupId then
      if record.fencingToken < ownership.fence.fencingToken then .ok true
      else .error (.shadowSnapshotGroupMismatch name ownership.snapshotGroupId record.snapshotGroupId)
    else if record.tableGeneration ≠ plan.sourceGeneration then
      .error (.shadowGenerationMismatch name plan.sourceGeneration record.tableGeneration)
    else if record.schemaFingerprint ≠ ownership.schemaFingerprint then .error (.shadowFingerprintMismatch name)
    else .ok true

def removeManagedShadow (store : Store) (table : QualifiedName) : Except SnapshotTargetError Store := do
  let store ← dropTable store table
  deleteManaged store (fun row => row.name = table)

inductive EnumAlteration where
  | addBefore (label before : String)
  | append (label : String)
  | rename (old new : String)
  deriving DecidableEq, Repr

def subsequenceEnd (desired : List String) : List String → Nat → Option Nat
  | [],position => some position
  | label :: rest,position =>
      match (desired.drop position).findIdx? (fun candidate => candidate = label) with
      | none => none
      | some offset => subsequenceEnd desired rest (position + offset + 1)

def planAdditions : List String → Nat → List String → Except String (List EnumAlteration)
  | [],_,_ => .ok []
  | label :: rest,position,current =>
      if current[position]? = some label then planAdditions rest (position + 1) current
      else if label ∈ current then .error "enum label reordering is not supported"
      else do
        let step := match current[position]? with
          | some before => EnumAlteration.addBefore label before
          | none => EnumAlteration.append label
        let steps ← planAdditions rest (position + 1) (current.insertIdx position label)
        .ok (step :: steps)

def planEnumEvolution (existing desired : List String) : Except String (List EnumAlteration) :=
  if existing = desired then .ok []
  else if (subsequenceEnd desired existing 0).isSome then planAdditions desired 0 existing
  else if existing.length = desired.length ∧
      (existing.zip desired).all (fun (old,new) => old = new ∨ new ∉ existing) then
    .ok (((existing.zip desired).filter (fun (old,new) => old ≠ new)).map (fun (old,new) => .rename old new))
  else .error "enum label removal, reordering, or combined rename/add is not supported"

-- ALTER TYPE … ADD VALUE and RENAME VALUE on the labels in their sort order.
def alterEnum (labels : List String) : EnumAlteration → Except SnapshotTargetError (List String)
  | .addBefore label before =>
      if label ∈ labels ∨ before ∉ labels then .error (.database .invalidEnumLabel)
      else .ok (labels.insertIdx (labels.findIdx (fun candidate => candidate = before)) label)
  | .append label => if label ∈ labels then .error (.database .invalidEnumLabel) else .ok (labels ++ [label])
  | .rename old new =>
      if old ∉ labels ∨ new ∈ labels then .error (.database .invalidEnumLabel)
      else .ok (labels.map (fun label => if label = old then new else label))

def loadEnumLabels (store : Store) (name : QualifiedName) : Except SnapshotTargetError (List String) :=
  match store.types name with
  | some (.enum labels) => .ok labels
  | some (.domain _) => .error (.unsupportedPrerequisiteTypeEvolution name.display
      "managed object is PostgreSQL type kind `d`, expected enum")
  | none => .error (.unsupportedPrerequisiteTypeEvolution name.display
      "managed object is PostgreSQL type kind `c`, expected enum")

def reconcilePrerequisiteType (store : Store) (prerequisite : UserTypePlan) : Except SnapshotTargetError Store :=
  match prerequisite.definition with
  | .domain _ => .error (.unsupportedPrerequisiteTypeEvolution prerequisite.name.display
      "constraint-free domain base-type changes require a versioned target type")
  | .enum desired => do
    let existing ← loadEnumLabels store prerequisite.name
    let alterations ← (planEnumEvolution existing desired).mapError
      (.unsupportedPrerequisiteTypeEvolution prerequisite.name.display)
    let labels ← alterations.foldlM alterEnum existing
    .ok {store with types := Function.update store.types prerequisite.name (some (.enum labels))}

inductive ManagedTypeAction where
  | create | reuse | reconcile
  deriving DecidableEq, Repr

def classifyPrerequisiteType (name : QualifiedName) (present : Bool) (managed : Option ManagedTypeRecord)
    (pipelineId : PipelineId) (fencingToken : Int) (definitionChecksum : Bytes) :
    Except SnapshotTargetError ManagedTypeAction :=
  match present,managed with
  | false,none => .ok .create
  | true,none => .error (.existingPrerequisiteType name.display)
  | false,some _ => .error (.managedPrerequisiteTypeMissing name.display)
  | true,some record =>
      if record.pipelineId ≠ pipelineId then
        .error (.prerequisiteTypeManagedByOtherPipeline name.display pipelineId record.pipelineId)
      else if fencingToken < record.fencingToken then
        .error (.managedByNewerFence name.display fencingToken record.fencingToken)
      else if record.definitionChecksum ≠ definitionChecksum then .ok .reconcile
      else .ok .reuse

def putType (store : Store) (name : QualifiedName) (record : ManagedTypeRecord) : Store :=
  {store with managedTypes := Function.update store.managedTypes name (some record)}

-- UPDATE of the checksum and the token; the row was read FOR UPDATE, so it is there.
def updateManagedType (store : Store) (name : QualifiedName) (definitionChecksum : Bytes) (fencingToken : Int) : Store :=
  match store.managedTypes name with
  | none => store
  | some record => putType store name {record with definitionChecksum := definitionChecksum, fencingToken := fencingToken}

section Platform
variable (platform : Platform) (equal : Operators)

def ensurePrerequisiteType (ownership : SnapshotOwnership) (store : Store) (prerequisite : UserTypePlan) :
    Except SnapshotTargetError Store := do
  let name := prerequisite.name
  let checksum := platform.sha256 (strBytes prerequisite.createSql)
  let action ← classifyPrerequisiteType name (typeExists store name) (store.managedTypes name)
    ownership.fence.pipelineId ownership.fence.fencingToken checksum
  match action with
  | .create =>
    let created := {store with types := Function.update store.types name (some prerequisite.definition)}
    .ok (putType created name ⟨ownership.fence.pipelineId,checksum,ownership.fence.fencingToken⟩)
  | .reuse => .ok (updateManagedType store name checksum ownership.fence.fencingToken)
  | .reconcile =>
    let store ← reconcilePrerequisiteType store prerequisite
    .ok (updateManagedType store name checksum ownership.fence.fencingToken)

def registerShadow (store : Store) (plan : SnapshotTargetPlan) (ownership : SnapshotOwnership) :
    Except SnapshotTargetError Store := do
  let generation ← databaseGeneration plan.sourceGeneration
  match relationOid store plan.shadow.target with
  | none => .error (.managedRelationMissing plan.shadow.target.display)
  | some oid =>
    let record : ManagedTableRecord := ⟨ownership.fence.pipelineId,some ownership.snapshotGroupId,some oid,
      plan.sourceRelationId,generation,ownership.schemaFingerprint,.shadow,ownership.fence.fencingToken⟩
    insertManaged store plan.shadow.target record

def tableConstraints (table : CreateTablePlan) : ApplyPlan := ⟨table,"",⟨"",[],[],"",[]⟩⟩

def copyShadow (store : Store) (shadow : CreateTablePlan) (rows : List Row) : Except SnapshotTargetError Store :=
  match store.relations shadow.target with
  | none => .error (.database .undefinedTable)
  | some relation =>
    if rows.any (fun row => row.length ≠ shadow.columns.length) then .error (.database .malformedCopy)
    else if ¬ rows.all (admitted (tableConstraints shadow)) then .error (.database .notNullViolation)
    else if conflicts (equal.of shadow) (tableConstraints shadow) (relation.rows ++ rows) then .error (.database .uniqueViolation)
    else .ok (putRelation store shadow.target {relation with rows := relation.rows ++ rows})

-- CREATE SCHEMA IF NOT EXISTS changes nothing that is read here.
def createShadow (store : Store) (plan : SnapshotTargetPlan) (ownership : SnapshotOwnership) :
    Except SnapshotTargetError Store := do
  let stored ← loadSnapshotGroup platform store ownership.snapshotGroupId
  validateApplyMembership stored plan ownership
  if stored.state = .active then .error (.snapshotGroupAlreadyActive ownership.snapshotGroupId)
  else
    validateTargetForLoad (loadRelationState store plan.target) plan ownership
    let replaces ← validateShadowForRebuild (loadRelationState store plan.shadow.target) plan ownership
    let store ← if replaces then removeManagedShadow store plan.shadow.target else .ok store
    let store ← plan.shadow.prerequisites.foldlM (ensurePrerequisiteType platform ownership) store
    let store ← createTable store plan.shadow
    registerShadow store plan ownership

-- `copied` is the COPY stream when it was finished before `commit`.
def snapshotApply (target : Target) (plan : SnapshotTargetPlan) (ownership : SnapshotOwnership)
    (copied : Option (List Row)) : Except SnapshotTargetError Target := do
  validateOwnership ownership
  (lockPipelineFence target.checkpoints ownership.fence).mapError .checkpoint
  let store ← createShadow platform target.store plan ownership
  match copied with
  | none => .error .copyNotCompleted
  | some rows =>
    let store ← copyShadow equal store plan.shadow rows
    .ok {target with store := store}

end Platform

inductive Cleared (store : Store) (plan : SnapshotTargetPlan) (ownership : SnapshotOwnership) : Store → Prop
  | kept (fresh : validateShadowForRebuild (loadRelationState store plan.shadow.target) plan ownership = .ok false) :
      Cleared store plan ownership store
  | removed {cleared : Store}
      (replaces : validateShadowForRebuild (loadRelationState store plan.shadow.target) plan ownership = .ok true)
      (removing : removeManagedShadow store plan.shadow.target = .ok cleared) : Cleared store plan ownership cleared

structure LoadSteps (platform : Platform) (equal : Operators) (target : Target)
    (plan : SnapshotTargetPlan) (ownership : SnapshotOwnership) (copied : Option (List Row)) (target' : Target)
    (stored : StoredSnapshotGroup) (cleared ensured built created : Store) : Prop where
  owned : validateOwnership ownership = .ok ()
  locked : lockPipelineFence target.checkpoints ownership.fence = .ok ()
  loaded : loadSnapshotGroup platform target.store ownership.snapshotGroupId = .ok stored
  membership : validateApplyMembership stored plan ownership = .ok ()
  loading : stored.state ≠ .active
  admitted : validateTargetForLoad (loadRelationState target.store plan.target) plan ownership = .ok ()
  clearing : Cleared target.store plan ownership cleared
  ensuring : plan.shadow.prerequisites.foldlM (ensurePrerequisiteType platform ownership) cleared = .ok ensured
  building : createTable ensured plan.shadow = .ok built
  registering : registerShadow built plan ownership = .ok created
  copying : ∃ rows store, copied = some rows ∧ copyShadow equal created plan.shadow rows = .ok store ∧
    target' = {target with store := store}

theorem snapshotApplySource {platform equal target plan ownership copied target'}
    (ok : snapshotApply platform equal target plan ownership copied = .ok target') :
    ∃ stored cleared ensured built created,
      LoadSteps platform equal target plan ownership copied target' stored cleared ensured built created := by
  obtain ⟨_,owned,ok⟩ := bindOk.mp ok
  obtain ⟨_,locked,ok⟩ := bindOk.mp ok
  obtain ⟨created,creation,ok⟩ := bindOk.mp ok
  obtain ⟨rows,store,given,copying,ok⟩ : ∃ rows store, copied = some rows ∧
      copyShadow equal created plan.shadow rows = .ok store ∧ target' = {target with store := store} := by
    cases copied with
    | none => contradiction
    | some rows =>
      obtain ⟨store,copying,ok⟩ := bindOk.mp ok
      exact ⟨rows,store,rfl,copying,(Except.ok.inj ok).symm⟩
  obtain ⟨stored,loaded,creation⟩ := bindOk.mp creation
  obtain ⟨_,membership,creation⟩ := bindOk.mp creation
  obtain ⟨loading,creation⟩ := iteOk.mp creation
  obtain ⟨_,admitted,creation⟩ := bindOk.mp creation
  obtain ⟨replaces,checked,creation⟩ := bindOk.mp creation
  obtain ⟨cleared,clearing,creation⟩ : ∃ cleared, Cleared target.store plan ownership cleared ∧ (do
      let store ← plan.shadow.prerequisites.foldlM (ensurePrerequisiteType platform ownership) cleared
      let store ← createTable store plan.shadow
      registerShadow store plan ownership) = .ok created := by
    simp only at creation
    cases replaces with
    | true =>
      obtain ⟨cleared,removing,creation⟩ := bindOk.mp creation
      exact ⟨cleared,.removed checked removing,creation⟩
    | false => exact ⟨target.store,.kept checked,creation⟩
  obtain ⟨ensured,ensuring,creation⟩ := bindOk.mp creation
  obtain ⟨built,building,registering⟩ := bindOk.mp creation
  exact ⟨stored,cleared,ensured,built,created,owned,mapErrorOk.mp locked,loaded,membership,loading,admitted,clearing,
    ensuring,building,registering,rows,store,given,copying,ok⟩

end CloudberryEtl.ShadowLoad
