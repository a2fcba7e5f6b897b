import CloudberryEtl.Placement
import CloudberryEtl.Standalone
import CloudberryEtl.Inventory
import CloudberryEtl.SchemaDrift
import CloudberryEtl.StagedSteps

/-! `prepare_initial_snapshot` of `engine::runtime::job`: the publication, the slot, one load for each table that the
exported snapshot shows and the activation, while other owners commit their own transactions on the target in between. -/
namespace CloudberryEtl.InitialSnapshot
open Schema Change TablePlan Result Settings Catalog Publication Planning Fencing Activation TargetStore ShadowLoad StagedApply
open Inventory Standalone Manifest ActivatedGroup Reachable CarriedRelations Provenance Placement KeyedTable
open Checkpoint hiding databaseGeneration

structure ReplicationSlotSnapshot where
  slotName : String
  consistentPoint : PgLsn
  snapshotName : String
  deriving DecidableEq, Repr

inductive InitialSnapshotError where
  | runtime (error : RuntimeJobError)
  | initialCatalogChanged
  | interrupted
  deriving DecidableEq, Repr

def InitialSnapshotError.snapshot (error : SnapshotTargetError) : InitialSnapshotError := .runtime (.snapshot error)

def InitialSnapshotError.source (error : SourceError) : InitialSnapshotError := .runtime (.source error)

/- What one run meets. `server` is what it finds on the source first, `imported` the catalog under the exported snapshot;
a COPY that fails or is cancelled sends nothing. `others` commit on the target before each transaction of the run. -/
structure Surroundings where
  server : SourceServer
  dropped : Except SourceError Unit
  ensured : PublicationSpec → Except SourceError PublicationState
  created : String → Except SourceError ReplicationSlotSnapshot
  imported : PgCatalog
  copies : PlannedTable → Option (List Row)
  snapshotGroupId : Uuid
  now : Nat
  others : Nat → List Operation

section Run
variable (platform : Platform) (equal : Operators) (toVec : Json → Bytes) (job : StandaloneJob)
  (met : Surroundings)

-- No checkpoint exists, so an old slot of the name is of no use.
def removeOrphan : Except RuntimeJobError Unit :=
  match inspectLogicalSlot met.server job.names.slot with
  | none => .ok ()
  | some slot => do
    validateSlotMode job slot
    met.dropped.mapError .source

def catalogUnchanged (before current : List RuntimeTable) : Bool :=
  before.length = current.length && (before.zip current).all (fun (before,current) => before.planned = current.planned)

def initialCheckpoint (point : PgLsn) : NodeCheckpoint :=
  ⟨⟨job.settings.pipelineId,job.settings.topologyGeneration,standaloneNodeId⟩,met.server.systemIdentifier,
    met.server.timeline,job.names.slot,point⟩

def activationRequest (tables : List RuntimeTable) (point : PgLsn) : SnapshotActivationRequest :=
  ⟨job.fence,met.snapshotGroupId,activationTables tables,[initialCheckpoint job met point]⟩

def loadTables : Nat → List RuntimeTable → Target → Except InitialSnapshotError Target
  | _,[],target => .ok target
  | turn,table :: tables,target =>
    match met.copies table.planned with
    | none => .error .interrupted
    | some rows => do
      let target ← (snapshotApply platform equal (run platform equal target (met.others turn)) table.snapshotPlan
        ⟨job.fence,met.snapshotGroupId,table.planned.schemaFingerprint⟩ (some rows)).mapError .snapshot
      loadTables (turn + 1) tables target

def loadAndActivate (tables : List RuntimeTable) (point : PgLsn) (target : Target) :
    Except InitialSnapshotError Target := do
  let request := activationRequest job met tables point
  let (_,target) ← (beginSnapshotGroup platform (run platform equal target (met.others 0)) request).mapError .snapshot
  let target ← loadTables platform equal job met 1 tables target
  let (_,target) ← (activateSnapshotGroup platform met.now (run platform equal target (met.others (tables.length + 1)))
    request).mapError .snapshot
  .ok target

-- The slot that a failed run leaves or drops is no part of the result.
def prepareInitialSnapshot (target : Target) : Except InitialSnapshotError (PreparedRun × Target) := do
  (removeOrphan job met).mapError .runtime
  let publicationTables ← (planSource platform toVec job met.server).mapError .runtime
  let spec ← (publicationSpec job publicationTables).mapError .source
  let _ ← (met.ensured spec).mapError .source
  let slot ← (met.created job.names.slot).mapError .source
  let tables ← (planSource platform toVec job {met.server with catalog := met.imported}).mapError .runtime
  if !catalogUnchanged publicationTables tables then .error .initialCatalogChanged
  else
    let target ← loadAndActivate platform equal job met tables slot.consistentPoint target
    .ok (⟨tables,initialCheckpoint job met slot.consistentPoint⟩,target)

end Run

def shadowName (table : RuntimeTable) : QualifiedName := table.snapshotPlan.shadow.target

/- What the run may rely on: nobody else has its fence, and nobody else applies rows to its shadows. -/
structure Apart (job : StandaloneJob) (met : Surroundings) (tables : List RuntimeTable) : Prop where
  fences : ∀ turn, ∀ operation ∈ met.others turn, operation.fence ≠ job.fence
  shadows : ∀ turn, ∀ operation ∈ met.others turn, ∀ table ∈ tables, Avoids (shadowName table) operation

section Owned
variable {platform : Platform} {equal : Operators} {job : StandaloneJob} {met : Surroundings}

structure Owned (platform : Platform) (job : StandaloneJob) (target : Target) : Prop where
  sound : SoundTarget platform target
  numbered : Numbered target.store
  held : target.checkpoints.pipelineState job.fence.pipelineId = some job.fence.stored

def Shadowed (job : StandaloneJob) (table : RuntimeTable) (rows : List Row) (target : Target) : Prop :=
  ∃ oid record, target.store.relations (shadowName table) = some ⟨oid,table.snapshotPlan.shadow,rows⟩ ∧
    managedRecord target.store (shadowName table) = some record ∧ record.pipelineId = job.fence.pipelineId

structure CopyChecked (equal : Operators) (shadow : CreateTablePlan) (rows : List Row) : Prop where
  width : ∀ row ∈ rows, row.length = shadow.columns.length
  filled : rows.all (admitted (tableConstraints shadow))
  unique : conflicts (equal.of shadow) (tableConstraints shadow) rows = false

theorem copyChecked {target target' : Target} {plan ownership copied}
    (ok : snapshotApply platform equal target plan ownership (some copied) = .ok target') :
    CopyChecked equal plan.shadow copied := by
  obtain ⟨stored,cleared,ensured,built,created,steps⟩ := snapshotApplySource ok
  obtain ⟨rows,store,some',copying,_⟩ := steps.copying
  cases Option.some.inj some'
  obtain ⟨_,made⟩ := Transactions.createSource steps.building steps.registering
  unfold copyShadow at copying
  have placed : created.relations plan.shadow.target = some ⟨ensured.nextOid,plan.shadow,[]⟩ := by
    rw [made]
    simp [StoreChange.withTable]
  rw [placed] at copying
  simp only [List.nil_append] at copying
  obtain ⟨width,copying⟩ := iteOk.mp copying
  obtain ⟨filled,copying⟩ := iteOk.mp copying
  obtain ⟨unique,_⟩ := iteOk.mp copying
  exact ⟨by simpa using width,by simpa using filled,by simpa using unique⟩

theorem Shadowed.kept {table : RuntimeTable} {rows : List Row} {target target' : Target}
    (shadowed : Shadowed job table rows target)
    (kept : ∀ record, managedRecord target.store (shadowName table) = some record →
      record.pipelineId = job.fence.pipelineId →
      Undisturbed job.fence.pipelineId (shadowName table) record target target') : Shadowed job table rows target' := by
  obtain ⟨oid,record,relation,managed,own⟩ := shadowed
  have undisturbed := kept record managed own
  exact ⟨oid,record,undisturbed.relation.trans relation,undisturbed.record,own⟩

theorem committedStep {target target' : Target} {operation : Operation}
    (committed : commit platform equal target operation = some target') :
    step platform equal target operation = target' := by
  rw [step,committed,Option.getD_some]

theorem Owned.commits {before target target' : Target} {operations : List Operation} {operation : Operation}
    (owned : Owned platform job before) (reached : target = run platform equal before operations)
    (committed : commit platform equal target operation = some target') (guard : Guarded job.fence target target') :
    Owned platform job target ∧ Owned platform job target' := by
  have sound : SoundTarget platform target := reached ▸ runSound operations owned.sound
  have numbered : Numbered target.store := reached ▸ runNumbered operations owned.numbered
  have step := committedStep committed
  refine ⟨⟨sound,numbered,guard.held⟩,⟨step ▸ stepSound sound operation,step ▸ stepNumbered numbered operation,?_⟩⟩
  rw [guard.keeps.fences]
  exact guard.held

theorem loadUndisturbed {target target' : Target} {plan ownership copied name record} (pipeline : PipelineId)
    (ok : snapshotApply platform equal target plan ownership (some copied) = .ok target')
    (other : name ≠ plan.shadow.target) (managed : managedRecord target.store name = some record) :
    Undisturbed pipeline name record target target' := by
  have loads := loadsSource ok
  refine ⟨loads.others name other,(loads.records name other).trans managed,?_⟩
  rw [(snapshotApplyGuarded ok).keeps.fences]

theorem tablesShadowed (tables : List RuntimeTable) (apart : Apart job met tables) :
    ∀ {rest : List RuntimeTable} {turn : Nat} {target target' : Target}, rest ⊆ tables → (rest.map shadowName).Nodup →
      Owned platform job target → loadTables platform equal job met turn rest target = .ok target' →
      Owned platform job target' ∧
      (∀ table ∈ rest, ∃ rows, met.copies table.planned = some rows ∧ CopyChecked equal table.snapshotPlan.shadow rows ∧
        Shadowed job table rows target') ∧
      ∀ table ∈ tables, shadowName table ∉ rest.map shadowName → ∀ record,
        managedRecord target.store (shadowName table) = some record → record.pipelineId = job.fence.pipelineId →
        Undisturbed job.fence.pipelineId (shadowName table) record target target' := by
  intro rest
  induction rest with
  | nil =>
    intro turn target target' _ _ owned ok
    cases Except.ok.inj ok
    exact ⟨owned,by simp,fun _ _ _ _ managed _ => .refl managed⟩
  | cons head rest ih =>
    intro turn target target' within distinct owned ok
    obtain ⟨fresh,distinct⟩ := List.nodup_cons.mp distinct
    unfold loadTables at ok
    split at ok
    · contradiction
    rename_i rows copied
    obtain ⟨loaded,loading,ok⟩ := bindOk.mp ok
    have loading := mapErrorOk.mp loading
    have guard := snapshotApplyGuarded loading
    have committed : commit platform equal _ (.snapshotApply _ _ (some rows)) = some loaded := toOptionSome.mpr loading
    obtain ⟨ownedBefore,ownedAfter⟩ := owned.commits rfl committed guard
    obtain ⟨ownedLast,restShadowed,restKept⟩ :=
      ih (fun table mem => within (List.mem_cons_of_mem _ mem)) distinct ownedAfter ok
    have load := loadsSource loading
    have here : Shadowed job head rows loaded := ⟨_,_,load.shadow,load.record,rfl⟩
    refine ⟨ownedLast,fun table mem => ?_,fun table mem outside record managed own => ?_⟩
    · rcases List.mem_cons.mp mem with rfl | later
      · exact ⟨rows,copied,copyChecked loading,here.kept (restKept table (within List.mem_cons_self) fresh)⟩
      · exact restShadowed table later
    · rw [List.map_cons,List.mem_cons,not_or] at outside
      have others := ownersUndisturbed owned.sound owned.numbered owned.held ownedBefore.held
        (fun operation member => ⟨apart.fences turn operation member,apart.shadows turn operation member table mem⟩) managed own
      have own' := loadUndisturbed job.fence.pipelineId loading outside.1 others.record
      exact (others.trans own').trans (restKept table mem outside.2 record own'.record own)

theorem shadowsDistinct {tables : List RuntimeTable}
    (names : (relationNames (sortTables (activationTables tables))).Nodup) : (tables.map shadowName).Nodup := by
  have perm : (relationNames (sortTables (activationTables tables))).Perm (relationNames (activationTables tables)) :=
    (List.perm_insertionSort _ _).flatMap_right _
  have shadows : ∀ tables : List RuntimeTable, (tables.map shadowName).Sublist (relationNames (activationTables tables)) := by
    intro tables
    induction tables with
    | nil => exact .slnil
    | cons table tables ih => exact .cons _ (.cons_cons _ ih)
  exact (perm.nodup_iff.mp names).sublist (shadows tables)

structure Loaded (platform : Platform) (equal : Operators) (toVec : Json → Bytes)
    (job : StandaloneJob) (met : Surroundings) (prepared : PreparedRun) (target : Target) : Prop where
  planned : planSource platform toVec job {met.server with catalog := met.imported} = .ok prepared.tables
  point : ∃ slot, met.created job.names.slot = .ok slot ∧
    prepared.checkpoint = initialCheckpoint job met slot.consistentPoint
  stored : target.checkpoints.nodeCheckpoints prepared.checkpoint.key = some ⟨prepared.checkpoint,job.fence.fencingToken⟩
  copied : ∀ table ∈ prepared.tables, ∃ rows oid, met.copies table.planned = some rows ∧
    CopyChecked equal table.snapshotPlan.shadow rows ∧
    target.store.relations table.snapshotPlan.target = some ⟨oid,table.snapshotPlan.shadow,rows⟩

structure HandsOver (platform : Platform) (equal : Operators) (toVec : Json → Bytes)
    (job : StandaloneJob) (met : Surroundings) (prepared : PreparedRun) (target : Target) : Prop
    extends Loaded platform equal toVec job met prepared target where
  scope : List.Forall₂ (Reads met.imported) (inScopeRelations met.imported (catalogOptions job.sourceSettings))
    (prepared.tables.map (fun table => table.planned.source))
  published : ∃ before spec state, planSource platform toVec job met.server = .ok before ∧
    before.map RuntimeTable.planned = prepared.tables.map RuntimeTable.planned ∧
    publicationSpec job before = .ok spec ∧ met.ensured spec = .ok state
  serves : ∀ table ∈ activationTables prepared.tables, Serves job.fence met.snapshotGroupId target.store table
  alone : ∀ row ∈ target.store.managedTables, row.record.pipelineId = job.fence.pipelineId → row.record.state = .active →
    ∃ table ∈ prepared.tables, table.snapshotPlan.target = row.name

theorem unchangedPlans {before current : List RuntimeTable} (unchanged : catalogUnchanged before current) :
    before.map RuntimeTable.planned = current.map RuntimeTable.planned := by
  obtain ⟨length,each⟩ := Bool.and_eq_true_iff.mp unchanged
  simp only [List.all_eq_true,decide_eq_true_eq] at length each
  refine List.ext_getElem (by simpa using length) fun index left right => ?_
  simp only [List.length_map] at left right
  simp only [List.getElem_map]
  refine each (before[index],current[index]) ?_
  rw [← List.getElem_zip (h := by simp [left,right])]
  exact List.getElem_mem _

structure Activated (equal : Operators) (job : StandaloneJob) (met : Surroundings)
    (tables : List RuntimeTable) (point : PgLsn) (target : Target) : Prop where
  stored : target.checkpoints.nodeCheckpoints (initialCheckpoint job met point).key =
    some ⟨initialCheckpoint job met point,job.fence.fencingToken⟩
  copied : ∀ table ∈ tables, ∃ rows oid, met.copies table.planned = some rows ∧
    CopyChecked equal table.snapshotPlan.shadow rows ∧
    target.store.relations table.snapshotPlan.target = some ⟨oid,table.snapshotPlan.shadow,rows⟩
  serves : ∀ table ∈ activationTables tables, Serves job.fence met.snapshotGroupId target.store table
  alone : ∀ row ∈ target.store.managedTables, row.record.pipelineId = job.fence.pipelineId → row.record.state = .active →
    ∃ table ∈ tables, table.snapshotPlan.target = row.name

theorem effectsActivated {tables : List RuntimeTable} {point : PgLsn} {before target : Target} {outcome}
    (sound : SoundTarget platform before) (activated : activateSnapshotGroup platform met.now before
      (activationRequest job met tables point) = .ok (outcome,target)) (disposition : outcome.disposition = .activated)
    (copied : ∀ table ∈ tables, ∃ rows oid, met.copies table.planned = some rows ∧
      CopyChecked equal table.snapshotPlan.shadow rows ∧
      target.store.relations table.snapshotPlan.target = some ⟨oid,table.snapshotPlan.shadow,rows⟩) :
    Activated equal job met tables point target := by
  obtain ⟨canonical,plans,valid,_,effects⟩ := Retry.activationEffects sound.store activated
  have shape := (canonicalSource valid).shape
  have listed : ∀ table, table ∈ canonical.tables ↔ table ∈ activationTables tables := by
    intro table
    rw [shape,sortTables,List.mem_insertionSort]
    rfl
  refine ⟨?_,copied,?_,?_⟩
  · have boundary : initialCheckpoint job met point ∈ canonical.initialCheckpoints := by
      rw [shape,sortBoundaries,List.mem_insertionSort]
      exact List.mem_singleton_self _
    have set := effects.set disposition _ boundary
    rw [shape] at set
    exact set
  · intro table mem
    have serves := effects.serve table ((listed table).mpr mem)
    rw [shape] at serves
    exact serves
  · intro row mem own active
    rw [shape] at effects
    obtain ⟨table,member,name⟩ := effects.alone row mem own active
    obtain ⟨source,memSource,rfl⟩ := List.mem_map.mp
      ((List.mem_insertionSort _).mp member : table ∈ activationTables tables)
    exact ⟨source,memSource,name⟩

theorem activatedTables {tables : List RuntimeTable} {point : PgLsn} {target target' : Target} (filled : tables ≠ [])
    (apart : Apart job met tables) (owned : Owned platform job target)
    (ok : loadAndActivate platform equal job met tables point target = .ok target') :
    Activated equal job met tables point target' := by
  obtain ⟨⟨disposition,begun⟩,begins,ok⟩ := bindOk.mp ok
  obtain ⟨loaded,loads,ok⟩ := bindOk.mp ok
  obtain ⟨⟨outcome,activated⟩,activates,ok⟩ := bindOk.mp ok
  cases Except.ok.inj ok
  have begins := mapErrorOk.mp begins
  have activates := mapErrorOk.mp activates
  obtain ⟨canonical,valid,_⟩ := bindOk.mp begins
  have distinct := shadowsDistinct (canonicalSource valid).names
  have beginsCommitted : commit platform equal _ (.beginSnapshotGroup (activationRequest job met tables point)) =
      some begun := Option.map_eq_some_iff.mpr ⟨_,toOptionSome.mpr begins,rfl⟩
  obtain ⟨_,ownedBegun⟩ := owned.commits rfl beginsCommitted (beginSnapshotGroupGuarded begins)
  obtain ⟨ownedLoaded,shadowed,_⟩ := tablesShadowed tables apart (List.Subset.refl _) distinct ownedBegun loads
  have activatesCommitted : commit platform equal _
      (.activateSnapshotGroup met.now (activationRequest job met tables point)) = some target' :=
    Option.map_eq_some_iff.mpr ⟨_,toOptionSome.mpr activates,rfl⟩
  obtain ⟨ownedBefore,_⟩ := ownedLoaded.commits rfl activatesCommitted (activateSnapshotGroupGuarded activates)
  have waits : ∀ table ∈ tables, ∃ rows, met.copies table.planned = some rows ∧
      CopyChecked equal table.snapshotPlan.shadow rows ∧
      Shadowed job table rows (run platform equal loaded (met.others (tables.length + 1))) := by
    intro table mem
    obtain ⟨rows,copied,checked,here⟩ := shadowed table mem
    refine ⟨rows,copied,checked,here.kept fun record managed own => ?_⟩
    exact ownersUndisturbed ownedLoaded.sound ownedLoaded.numbered ownedLoaded.held ownedBefore.held
      (fun operation member => ⟨apart.fences _ operation member,apart.shadows _ operation member table mem⟩) managed own
  have listed : ∀ table ∈ tables, table.snapshotPlan.activationTable table.planned.schemaFingerprint ∈
      (activationRequest job met tables point).tables := fun table mem => List.mem_map_of_mem mem
  obtain ⟨table,mem⟩ := List.exists_mem_of_ne_nil tables filled
  obtain ⟨_,_,_,_,_,_,managed,_⟩ := waits table mem
  obtain ⟨disposition,moved⟩ := activationRelations activates ⟨_,listed table mem,by
    rw [show (table.snapshotPlan.activationTable table.planned.schemaFingerprint).shadow = shadowName table from rfl,managed]
    rfl⟩
  refine effectsActivated ownedBefore.sound activates disposition fun table mem => ?_
  obtain ⟨rows,copied,checked,oid,_,relation,_⟩ := waits table mem
  exact ⟨rows,oid,copied,checked,(moved _ (listed table mem)).trans relation⟩

theorem plannedFilled {toVec : Json → Bytes} {server : SourceServer} {tables : List RuntimeTable}
    (planned : planSource platform toVec job server = .ok tables) : tables ≠ [] := by
  obtain ⟨inventory,_,planned⟩ := bindOk.mp planned
  have planned := mapErrorOk.mp planned
  unfold planInventory at planned
  split at planned
  · contradiction
  · obtain ⟨_,planned⟩ := iteOk.mp planned
    obtain ⟨_,_,planned⟩ := bindOk.mp planned
    obtain ⟨_,_,planned⟩ := bindOk.mp planned
    obtain ⟨filled,planned⟩ := iteOk.mp planned
    cases Except.ok.inj planned
    simpa using filled

theorem classifiedAll (tables : List TableSchema) : ∀ inventory : TableInventory,
    (tables.foldl Catalog.classifyTable inventory).rejected = [] → inventory.rejected = [] ∧
      (tables.foldl Catalog.classifyTable inventory).supported = inventory.supported ++ tables := by
  induction tables with
  | nil => exact fun _ calm => ⟨calm,(List.append_nil _).symm⟩
  | cons table tables ih =>
    intro inventory calm
    rw [List.foldl_cons] at calm ⊢
    obtain ⟨calm,supported⟩ := ih _ calm
    cases valid : table.validateSupported with
    | error error => simp [Catalog.classifyTable,valid] at calm
    | ok =>
      have step : Catalog.classifyTable inventory table = {inventory with supported := inventory.supported ++ [table]} := by
        simp [Catalog.classifyTable,valid]
      rw [step] at calm supported ⊢
      exact ⟨calm,by rw [supported,List.append_assoc,List.singleton_append]⟩

theorem acceptedPlans {settings plans tables}
    (accepted : List.Forall₂ (fun plan table => snapshotTable settings plan = .ok table) plans tables) :
    tables.map RuntimeTable.planned = plans := by
  induction accepted with
  | nil => rfl
  | cons head tail ih => rw [List.map_cons,ih,(Resume.snapshotTableSource head).1]

theorem plannedScope {toVec : Json → Bytes} {server : SourceServer} {tables : List RuntimeTable}
    (planned : planSource platform toVec job server = .ok tables) :
    List.Forall₂ (Reads server.catalog) (inScopeRelations server.catalog (catalogOptions job.sourceSettings))
      (tables.map (fun table => table.planned.source)) := by
  obtain ⟨inventory,inspected,planned⟩ := bindOk.mp planned
  have inspected := mapErrorOk.mp inspected
  have planned := mapErrorOk.mp planned
  unfold planInventory at planned
  split at planned
  · contradiction
  rename_i calm
  obtain ⟨_,planned⟩ := iteOk.mp planned
  obtain ⟨plans,plansOk,planned⟩ := bindOk.mp planned
  obtain ⟨accepted,acceptedOk,planned⟩ := bindOk.mp planned
  obtain ⟨_,planned⟩ := iteOk.mp planned
  cases Except.ok.inj planned
  have sources := (Resume.planTablesNamed (mapErrorOk.mp plansOk)).1
  have same := acceptedPlans (mapMOk.mp acceptedOk)
  have mapped : tables.map (fun table => table.planned.source) = inventory.supported := by
    rw [← sources,← same,List.map_map]
    rfl
  rw [mapped]
  unfold inspectTables at inspected
  cases loaded : loadTableCandidates server.catalog (catalogOptions job.sourceSettings) with
  | error error => simp [loaded,Except.map] at inspected
  | ok candidates =>
    rw [loaded] at inspected
    cases Except.ok.inj inspected
    have all : (classifyTables candidates).supported = candidates := by
      exact (classifiedAll candidates ⟨[],[]⟩ calm).2
    rw [all]
    exact loadTableCandidatesSource loaded

theorem preparedSource {toVec : Json → Bytes} {start target : Target} {prepared : PreparedRun}
    (ok : prepareInitialSnapshot platform equal toVec job met start = .ok (prepared,target)) :
    ∃ before spec state slot, planSource platform toVec job met.server = .ok before ∧
      publicationSpec job before = .ok spec ∧ met.ensured spec = .ok state ∧ met.created job.names.slot = .ok slot ∧
      planSource platform toVec job {met.server with catalog := met.imported} = .ok prepared.tables ∧
      before.map RuntimeTable.planned = prepared.tables.map RuntimeTable.planned ∧
      prepared.checkpoint = initialCheckpoint job met slot.consistentPoint ∧
      loadAndActivate platform equal job met prepared.tables slot.consistentPoint start = .ok target := by
  obtain ⟨_,_,ok⟩ := bindOk.mp ok
  obtain ⟨before,plannedBefore,ok⟩ := bindOk.mp ok
  obtain ⟨spec,specified,ok⟩ := bindOk.mp ok
  obtain ⟨state,ensured,ok⟩ := bindOk.mp ok
  obtain ⟨slot,created,ok⟩ := bindOk.mp ok
  obtain ⟨tables,planned,ok⟩ := bindOk.mp ok
  obtain ⟨unchanged,ok⟩ := iteOk.mp ok
  obtain ⟨activated,loading,ok⟩ := bindOk.mp ok
  cases Except.ok.inj ok
  exact ⟨before,spec,state,slot,mapErrorOk.mp plannedBefore,mapErrorOk.mp specified,mapErrorOk.mp ensured,
    mapErrorOk.mp created,mapErrorOk.mp planned,unchangedPlans (by simpa using unchanged),rfl,loading⟩

theorem reachedOwned {start : Target} (fresh : Fresh start) (numbered : Numbered start.store) (past : List Operation)
    (held : (run platform equal start past).checkpoints.pipelineState job.fence.pipelineId = some job.fence.stored) :
    Owned platform job (run platform equal start past) :=
  ⟨runSound past (freshSound platform fresh),runNumbered past numbered,held⟩

theorem preparedLoaded {toVec : Json → Bytes} {start target : Target} (owned : Owned platform job start)
    (apart : ∀ tables, planSource platform toVec job {met.server with catalog := met.imported} = .ok tables →
      Apart job met tables) {prepared : PreparedRun}
    (ok : prepareInitialSnapshot platform equal toVec job met start = .ok (prepared,target)) :
    Loaded platform equal toVec job met prepared target := by
  obtain ⟨_,_,_,slot,_,_,_,created,planned,_,point,loading⟩ := preparedSource ok
  have activated := activatedTables (plannedFilled planned) (apart _ planned) owned loading
  exact ⟨planned,⟨slot,created,point⟩,point ▸ activated.stored,activated.copied⟩

/-- Whatever other owners commit on the target in between: when the initial snapshot succeeds, its tables are those of the
catalog at the consistent point, they were planned the same before the publication and the slot were made, each target
serves exactly the rows that its COPY has sent, and the consistent point is the stored checkpoint. -/
theorem initialSnapshotHandsOver {toVec : Json → Bytes} {start : Target} (fresh : Fresh start)
    (numbered : Numbered start.store) (past : List Operation)
    (held : (run platform equal start past).checkpoints.pipelineState job.fence.pipelineId = some job.fence.stored)
    (apart : ∀ tables, planSource platform toVec job {met.server with catalog := met.imported} = .ok tables →
      Apart job met tables) {prepared : PreparedRun} {target : Target}
    (ok : prepareInitialSnapshot platform equal toVec job met (run platform equal start past) = .ok (prepared,target)) :
    HandsOver platform equal toVec job met prepared target := by
  have owned := reachedOwned fresh numbered past held
  obtain ⟨before,spec,state,slot,plannedBefore,specified,ensured,_,planned,unchanged,_,loading⟩ := preparedSource ok
  have activated := activatedTables (plannedFilled planned) (apart _ planned) owned loading
  exact ⟨preparedLoaded owned apart ok,plannedScope planned,⟨before,spec,state,plannedBefore,unchanged,specified,ensured⟩,
    activated.serves,activated.alone⟩

end Owned

section Sample
open SchemaDrift (sampleServer dropNote notedTable notedRuntime sampleJob)
open Resume (emptyTarget sha256Platform)

def sampleMet : Surroundings where
  server := {sampleServer dropNote.before with slots := []}
  dropped := .ok ()
  ensured := fun spec => .ok ⟨"etl",false,true,true,true,true,false,true,spec.tables⟩
  created := fun slot => .ok ⟨slot,100,"00000003-0000001B-1"⟩
  imported := dropNote.before
  copies := fun _ => some [[some [49],some [97]]]
  snapshotGroupId := 1
  now := 0
  others := fun turn => if turn = 1 then [.activatePipelineFence ⟨8,1,1⟩] else []

def samplePast : List Operation := [.activatePipelineFence sampleJob.fence]

theorem samplePlanned : planSource sha256Platform compactBytes sampleJob sampleMet.server = .ok [notedRuntime] := by
  have planned : (planSource sha256Platform compactBytes sampleJob sampleMet.server).toOption = some [notedRuntime] := by
    simp only [compactFlat]
    decide +kernel
  exact toOptionSome.mp planned

theorem sampleApart (tables : List RuntimeTable) : Apart sampleJob sampleMet tables := by
  have others : ∀ turn, ∀ operation ∈ sampleMet.others turn, operation = .activatePipelineFence ⟨8,1,1⟩ := by
    intro turn operation mem
    simp only [sampleMet] at mem
    split at mem
    · exact List.mem_singleton.mp mem
    · contradiction
  refine ⟨fun turn operation mem same => ?_,fun turn operation mem _ _ request is => ?_⟩
  · rw [others turn operation mem] at same
    exact absurd (congrArg PipelineFence.pipelineId same) (by decide)
  · rw [others turn operation mem] at is
    contradiction

theorem samplePrepares {target : Target} (loaded : loadAndActivate sha256Platform textOperators sampleJob sampleMet
      [notedRuntime] 100 (run sha256Platform textOperators emptyTarget samplePast) = .ok target) :
    prepareInitialSnapshot sha256Platform textOperators compactBytes sampleJob sampleMet
      (run sha256Platform textOperators emptyTarget samplePast) =
        .ok (⟨[notedRuntime],initialCheckpoint sampleJob sampleMet 100⟩,target) := by
  have again : planSource sha256Platform compactBytes sampleJob {sampleMet.server with catalog := sampleMet.imported} =
      .ok [notedRuntime] := samplePlanned
  have orphan : removeOrphan sampleJob sampleMet = .ok () := rfl
  have same : catalogUnchanged [notedRuntime] [notedRuntime] = true := by simp [catalogUnchanged]
  obtain ⟨spec,specified⟩ : ∃ spec, publicationSpec sampleJob [notedRuntime] = .ok spec :=
    @okOfToOption _ _ (PublicationSpec.new sampleJob.names.publication [notedTable.name]) (by decide)
  obtain ⟨state,ensured⟩ : ∃ state, sampleMet.ensured spec = .ok state := ⟨_,rfl⟩
  have created : sampleMet.created sampleJob.names.slot = .ok ⟨sampleJob.names.slot,100,"00000003-0000001B-1"⟩ := rfl
  exact bindOk.mpr ⟨_,mapErrorOk.mpr orphan,bindOk.mpr ⟨_,mapErrorOk.mpr samplePlanned,bindOk.mpr ⟨_,mapErrorOk.mpr specified,
    bindOk.mpr ⟨_,mapErrorOk.mpr ensured,bindOk.mpr ⟨_,mapErrorOk.mpr created,bindOk.mpr ⟨_,mapErrorOk.mpr again,
      iteOk.mpr ⟨by simp [same],bindOk.mpr ⟨_,loaded,rfl⟩⟩⟩⟩⟩⟩⟩⟩

theorem sampleHandsOver : ∃ target, HandsOver sha256Platform textOperators compactBytes sampleJob sampleMet
    ⟨[notedRuntime],initialCheckpoint sampleJob sampleMet 100⟩ target := by
  obtain ⟨target,loaded⟩ := @okOfToOption _ _ (loadAndActivate sha256Platform textOperators sampleJob sampleMet
    [notedRuntime] 100 (run sha256Platform textOperators emptyTarget samplePast)) (by decide +kernel)
  exact ⟨target,initialSnapshotHandsOver emptyFresh emptyNumbered samplePast (by decide) (fun tables _ => sampleApart tables)
    (samplePrepares loaded)⟩

end Sample

end CloudberryEtl.InitialSnapshot
