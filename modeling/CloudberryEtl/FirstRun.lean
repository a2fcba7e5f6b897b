import CloudberryEtl.InitialSnapshot
import CloudberryEtl.Inventory
import CloudberryEtl.Convergence

/-! The first run of a job, from `run_standalone`: the initial snapshot and then the stream from its consistent point, with
one binding for each table of the snapshot. -/
namespace CloudberryEtl.FirstRun
open Schema Change Normalize TablePlan StagedApply Result KeyedTable KeyLayout Replay StagedSteps Settings Catalog Planning
open Adapter TargetStore ShadowLoad Fencing Reachable Standalone CarriedRelations InitialSnapshot Inventory
open Replication hiding Run Event step steps
open SortedLog LogContents Convergence KeyEquality SpelledSteps
open Checkpoint hiding databaseGeneration

section Copied

theorem conflictsTable {equal : Nat → Bytes → Bytes → Bool} {left right : ApplyPlan} (same : left.table = right.table)
    (rows : List Row) : conflicts equal left rows = conflicts equal right rows := by
  have keys : left.keyIndexes = right.keyIndexes := by rw [ApplyPlan.keyIndexes,ApplyPlan.keyIndexes,same]
  have pairs : sameKey equal left = sameKey equal right := by
    funext one two
    simp only [sameKey,keysEqual,keyColumns,keys]
  induction rows with
  | nil => rfl
  | cons row rows ih => simp only [conflicts,pairs,ih]

theorem checkedTable {equal : Operators} (sql : SqlOperators equal) {schema : TableSchema} {shadow : CreateTablePlan}
    (distinct : AttnumsDistinct schema) (planned : PlansTable schema shadow) {rows : List Row}
    (checked : CopyChecked equal shadow rows) : IsTable schema rows ∧ SqlDistinct (equal.of shadow) schema rows := by
  let plan : ApplyPlan :=
    ⟨shadow,"",⟨"",[],presenceColumns shadow "","",shadow.primaryKey.map (oldKeyColumn shadow "")⟩⟩
  have plans : Plans schema plan := ⟨planned,⟨"",rfl⟩,by simp [plan,planned.primaryKey]⟩
  have width : ∀ row ∈ rows, row.length = schema.columns.length := by
    intro row mem
    rw [planned.columns.length_eq]
    exact checked.width row mem
  have filled : ∀ row ∈ rows, rowAdmitted schema row := by
    intro row mem
    rw [← SetStatements.admittedRow plans row]
    exact List.all_eq_true.mp checked.filled row mem
  have keyed : ∀ row ∈ rows, ∃ key : Key, rowKey schema row = key.map some :=
    fun row mem => SetStatements.rowKeyText distinct (width row mem) (filled row mem)
  have free : conflicts (equal.of shadow) plan rows = false :=
    (@conflictsTable (equal.of shadow) plan (tableConstraints shadow) rfl rows).trans checked.unique
  have text : conflicts textEqual plan rows = false := by
    rw [Bool.eq_false_iff]
    intro clash
    rw [conflictsText (sql.of shadow) distinct plans rows clash] at free
    contradiction
  exact ⟨⟨width,filled,(SetStatements.conflictsFalse distinct plans keyed).mp text⟩,
    (conflictsDistinct distinct plans keyed).mp free⟩

theorem planColumnSchema {left right : QualifiedName} (same : left.schema = right.schema) :
    planColumn left = planColumn right := by
  funext state column
  simp only [planColumn,collationSql,same]

theorem plannedColumns {source other : TableSchema} (columns : source.columns = other.columns) {left right : QualifiedName}
    (same : left.schema = right.schema) {one two : CreateTablePlan} (first : planCreateTable source left = .ok one)
    (second : planCreateTable other right = .ok two) : one.columns = two.columns := by
  obtain ⟨_,_,first⟩ := bindOk.mp first
  obtain ⟨_,first⟩ := iteOk.mp first
  obtain ⟨state,folded,first⟩ := bindOk.mp first
  obtain ⟨_,_,first⟩ := bindOk.mp first
  obtain ⟨_,_,second⟩ := bindOk.mp second
  obtain ⟨_,second⟩ := iteOk.mp second
  obtain ⟨state',folded',second⟩ := bindOk.mp second
  obtain ⟨_,_,second⟩ := bindOk.mp second
  cases Except.ok.inj first
  cases Except.ok.inj second
  rw [planColumnSchema same,columns,folded'] at folded
  cases Except.ok.inj folded
  rfl

theorem planApplyTable {schema target staging plan} (ok : planApply schema target staging = .ok plan) :
    planCreateTable schema target = .ok plan.table := by
  obtain ⟨table,planned,ok⟩ := bindOk.mp ok
  obtain ⟨_,_,ok⟩ := bindOk.mp ok
  obtain ⟨_,_,ok⟩ := bindOk.mp ok
  cases Except.ok.inj ok
  exact mapErrorOk.mp planned

end Copied

section Planned
variable {platform : Platform} {toVec : Json → Bytes} {job : StandaloneJob} {server : SourceServer}

structure FromCatalog (catalog : PgCatalog) (options : CatalogOptions) (table : RuntimeTable) : Prop where
  relation : ∃ relation ∈ inScopeRelations catalog options, Reads catalog relation table.planned.source
  target : table.snapshotPlan.target = table.planned.target
  shadow : PlansTable table.planned.source table.snapshotPlan.shadow
  columns : ∀ plan, planCreateTable table.planned.source table.planned.target = .ok plan →
    plan.columns = table.snapshotPlan.shadow.columns

theorem liveDistinct (relation : PgClass) : (relation.liveAttributes.map PgAttribute.attnum).Nodup := by
  have filtered : ((relation.attributes.filter PgAttribute.live).map PgAttribute.attnum).Nodup :=
    relation.attnums.sublist (List.filter_sublist.map _)
  exact ((List.perm_insertionSort _ _).map _).nodup_iff.mpr filtered

theorem readsDistinct {catalog relation table} (reads : Reads catalog relation table) : AttnumsDistinct table := by
  obtain ⟨schema,_,_,columns⟩ := reads.named
  have attnums : table.columns.map ColumnSchema.attnum = relation.liveAttributes.map PgAttribute.attnum := by
    generalize relation.liveAttributes = attributes at columns
    generalize table.columns = read at columns
    induction columns with
    | nil => rfl
    | cons head tail ih => simp [ih,(rowColumnSource head).1,catalogRow]
  rw [AttnumsDistinct,UniqueKeys,attnums]
  exact liveDistinct relation

theorem snapshotTablePlanned {settings planned table} (ok : snapshotTable settings planned = .ok table) :
    table.planned = planned ∧ table.snapshotPlan.target = planned.target ∧
      PlansTable planned.source table.snapshotPlan.shadow ∧
      ∀ plan, planCreateTable planned.source planned.target = .ok plan →
        plan.columns = table.snapshotPlan.shadow.columns := by
  obtain ⟨plan,planOk,ok⟩ := bindOk.mp ok
  cases Except.ok.inj ok
  obtain ⟨_,planOk⟩ := iteOk.mp (mapErrorOk.mp planOk)
  obtain ⟨sameSchema,planOk⟩ := iteOk.mp planOk
  obtain ⟨shadow,created,planOk⟩ := bindOk.mp planOk
  obtain ⟨_,_,planOk⟩ := bindOk.mp planOk
  obtain ⟨_,_,planOk⟩ := bindOk.mp planOk
  cases Except.ok.inj planOk
  have plans := (planCreateTableSource (mapErrorOk.mp created)).1
  -- the generation of the snapshot is no part of a table plan
  refine ⟨rfl,rfl,⟨plans.supported,plans.kind,plans.columns,plans.primaryKey,plans.namesNodup,plans.ordinalsNodup,
    plans.ordinalsPositive⟩,?_⟩
  intro plan made
  exact plannedColumns rfl (not_not.mp sameSchema) made (mapErrorOk.mp created)

theorem plannedTables {tables : List RuntimeTable} (planned : planSource platform toVec job server = .ok tables) :
    ∀ table ∈ tables, FromCatalog server.catalog (catalogOptions job.sourceSettings) table := by
  obtain ⟨inventory,inspected,planned⟩ := bindOk.mp planned
  have inspected := mapErrorOk.mp inspected
  have planned := mapErrorOk.mp planned
  unfold planInventory at planned
  split at planned
  · contradiction
  obtain ⟨_,planned⟩ := iteOk.mp planned
  obtain ⟨plans,plansOk,planned⟩ := bindOk.mp planned
  obtain ⟨accepted,acceptedOk,planned⟩ := bindOk.mp planned
  obtain ⟨_,planned⟩ := iteOk.mp planned
  cases Except.ok.inj planned
  have sources := (Resume.planTablesNamed (mapErrorOk.mp plansOk)).1
  intro table mem
  obtain ⟨plan,memPlan,ok⟩ := relatedMem (mapMOk.mp acceptedOk) mem
  obtain ⟨same,target,shadow,columns⟩ := snapshotTablePlanned ok
  have supported : plan.source ∈ inventory.supported := sources ▸ List.mem_map_of_mem memPlan
  rw [← same] at supported target shadow columns
  exact ⟨(supportedSource inspected supported).2,target,shadow,columns⟩

end Planned

section Stream
variable {platform : Platform} {toVec : Json → Bytes} {job : StandaloneJob} {met : Surroundings} {equal : Operators}
  (sql : SqlOperators equal)

def tableBindings (tables : List RuntimeTable) : Except AdapterConfigError (List TableBinding) :=
  tables.mapM (fun table => TableBinding.new table.planned.source table.planned.target table.planned.stagingName)

def streamJob (job : StandaloneJob) (met : Surroundings) (tables : List RuntimeTable) (batchLimits : Batch.BatchLimits) :
    Except AdapterConfigError Replication.Job := do
  let bindings ← tableBindings tables
  let registry ← TableBindingRegistry.new bindings
  let sink ← CloudberryTransactionSink.new job.fence job.names.slot registry (ddlScope job.sourceSettings)
  .ok ⟨sink,⟨standaloneNodeId,met.server.systemIdentifier,met.server.timeline⟩,
    ⟨job.sourceSettings.transaction.maxChanges,job.sourceSettings.transaction.maxBytes⟩,batchLimits⟩

include sql in
theorem streamReady {prepared : PreparedRun} {target : Target} {batchLimits : Batch.BatchLimits} {stream : Replication.Job}
    (loaded : Loaded platform equal toVec job met prepared target)
    (streams : streamJob job met prepared.tables batchLimits = .ok stream) :
    ∃ bindings, TableBindingRegistry.new bindings = .ok stream.sink.registry ∧ Convergence.Ready equal bindings target.store ∧
      (∀ table ∈ prepared.tables, ∃ binding ∈ bindings, binding.schema = table.planned.source ∧
        binding.plan.table.target = table.planned.target ∧ keyEqual equal binding = equal.of table.snapshotPlan.shadow) ∧
      checkpointLsn stream target = some prepared.checkpoint.appliedLsn := by
  obtain ⟨bindings,bound,streams⟩ := bindOk.mp streams
  obtain ⟨registry,accepted,streams⟩ := bindOk.mp streams
  obtain ⟨sink,made,streams⟩ := bindOk.mp streams
  cases Except.ok.inj streams
  obtain ⟨_,made⟩ := iteOk.mp made
  cases Except.ok.inj made
  have related := mapMOk.mp bound
  have bindingSource : ∀ binding ∈ bindings, ∃ table ∈ prepared.tables, binding.schema = table.planned.source ∧
      planApply table.planned.source table.planned.target table.planned.stagingName = .ok binding.plan := by
    intro binding mem
    obtain ⟨table,memTable,new⟩ := relatedMem related mem
    obtain ⟨plan,planned,new⟩ := bindOk.mp new
    cases Except.ok.inj new
    exact ⟨table,memTable,rfl,mapErrorOk.mp planned⟩
  -- the plan of a binding and the shadow of its snapshot have the same columns
  have sameOperators {binding : TableBinding} {table : RuntimeTable} (mem : table ∈ prepared.tables)
      (planned : planApply table.planned.source table.planned.target table.planned.stagingName = .ok binding.plan) :
      keyEqual equal binding = equal.of table.snapshotPlan.shadow := by
    have columns := (plannedTables loaded.planned table mem).columns _ (planApplyTable planned)
    funext index
    rw [keyEqual,Operators.of,Operators.of,columns]
  refine ⟨bindings,accepted,⟨?_,?_,?_⟩,?_,?_⟩
  · intro binding mem
    obtain ⟨table,_,schema,planned⟩ := bindingSource binding mem
    exact ⟨_,_,schema ▸ planned⟩
  · intro binding mem
    obtain ⟨table,memTable,schema,_⟩ := bindingSource binding mem
    obtain ⟨relation,_,reads⟩ := (plannedTables loaded.planned table memTable).relation
    rw [schema]
    exact readsDistinct reads
  · intro binding mem relation found
    obtain ⟨table,memTable,schema,planned⟩ := bindingSource binding mem
    have fromCatalog := plannedTables loaded.planned table memTable
    obtain ⟨_,_,reads⟩ := fromCatalog.relation
    obtain ⟨copied,oid,_,checked,placed⟩ := loaded.copied table memTable
    rw [(planApplySource planned).2.1,← fromCatalog.target,placed] at found
    cases Option.some.inj found
    rw [schema,sameOperators memTable planned]
    exact checkedTable sql (readsDistinct reads) fromCatalog.shadow checked
  · intro table mem
    obtain ⟨binding,memBinding,new⟩ := relatedFrom related mem
    obtain ⟨plan,planned,new⟩ := bindOk.mp new
    cases Except.ok.inj new
    exact ⟨_,memBinding,rfl,(planApplySource (mapErrorOk.mp planned)).2.1,sameOperators mem (mapErrorOk.mp planned)⟩
  · obtain ⟨slot,_,point⟩ := loaded.point
    have stored := loaded.stored
    rw [point] at stored ⊢
    exact congrArg (Option.map _) stored

include sql in
/-- The first run of a job from its initial snapshot on, whatever other owners commit on the target while the snapshot is
loaded and wherever the loop is cut and restarted afterwards: every table of the snapshot holds what the source's log makes
of the rows that its COPY has sent, up to the stored checkpoint, which never lies before the consistent point and has
passed no change that the job may not apply. -/
theorem firstRunMirrors {start : Target} (fresh : Fresh start) (numbered : Numbered start.store) (past : List Operation)
    (held : (run platform equal start past).checkpoints.pipelineState job.fence.pipelineId = some job.fence.stored)
    (apart : ∀ tables, planSource platform toVec job {met.server with catalog := met.imported} = .ok tables →
      Apart job met tables) {prepared : PreparedRun} {target : Target}
    (ok : prepareInitialSnapshot platform equal toVec job met (run platform equal start past) =
      .ok (prepared,target)) {batchLimits : Batch.BatchLimits} {stream : Replication.Job}
    (streams : streamJob job met prepared.tables batchLimits = .ok stream) {log : List SourceCommit} {contents : Contents}
    (increasing : Increasing SourceCommit.endLsn log) (events : List Replication.Event) :
    let reached := (LogContents.steps log contents stream equal (.begins target) events).system.target
    let point := prepared.checkpoint.appliedLsn
    ∃ checkpoint, checkpointLsn stream reached = some checkpoint ∧ point ≤ checkpoint ∧
      (∀ table ∈ prepared.tables, ∃ copied oid rows, met.copies table.planned = some copied ∧
        reached.store.relations table.planned.target = some ⟨oid,table.snapshotPlan.shadow,rows⟩ ∧
        ∀ final, tableAfter (equal.of table.snapshotPlan.shadow) table.planned.source copied ((between SourceCommit.endLsn log point checkpoint).map
          (fun entry => changesOf (contents entry))) = some final → rows.Perm final) ∧
      ∀ entry ∈ between SourceCommit.endLsn log point checkpoint, ∀ change ∈ changesOf (contents entry),
        Passes stream.sink.registry.bindings stream.sink.scope change := by
  intro reached point
  have loaded := preparedLoaded (reachedOwned fresh numbered past held) apart ok
  obtain ⟨bindings,accepted,ready,bound,stored⟩ := streamReady sql loaded streams
  have here : stream.sink.registry.bindings = bindings := (Coverage.registrySource accepted).1
  obtain ⟨checkpoint,reflects⟩ := @runReflects bindings log contents stream equal sql target point increasing accepted ready stored events
  refine ⟨checkpoint,reflects.stored,reflects.later,fun table mem => ?_,here ▸ reflects.passed⟩
  obtain ⟨binding,memBinding,schema,named,operators⟩ := bound table mem
  obtain ⟨copied,oid,sent,_,relation⟩ := loaded.copied table mem
  rw [(plannedTables loaded.planned table mem).target,← named] at relation
  obtain ⟨rows,placed,follows⟩ := reflects.bound memBinding relation
  rw [named] at placed
  rw [schema,operators] at follows
  exact ⟨copied,oid,rows,sent,placed,follows⟩

end Stream

section Sample
open SchemaDrift (notedTable notedRuntime sampleJob)
open Resume (emptyTarget sha256Platform)
open Wire (DecodedMessage)

def sampleLog : List SourceCommit := [⟨700,190,200,5⟩]

def sampleRelation : DecodedMessage := .relation ⟨16510,"app","orders",1,.default,[]⟩

def sampleContents (_ : SourceCommit) : List DecodedMessage :=
  [sampleRelation,.insert 16510 1 ⟨[.text [50],.text [98]]⟩]

def sampleEvents : List Replication.Event :=
  [.start,.deliver (.begin' 190 5 700) true,.crash,.start,.deliver (.begin' 190 5 700) true,.deliver sampleRelation true,
    .deliver (.insert 16510 1 ⟨[.text [50],.text [98]]⟩) true,.deliver (.commit 190 200 5 0) true,.timer,.apply true]

def sampleReached (stream : Replication.Job) (target : Target) : Target :=
  (LogContents.steps sampleLog sampleContents stream textOperators (.begins target) sampleEvents).system.target

theorem sampleStreams : (loadAndActivate sha256Platform textOperators sampleJob sampleMet [notedRuntime] 100
    (run sha256Platform textOperators emptyTarget samplePast)).toOption.bind (fun target =>
      (streamJob sampleJob sampleMet [notedRuntime] ⟨10,1000000,1⟩).toOption.bind (fun stream =>
        checkpointLsn stream (sampleReached stream target))) = some 200 := by decide +kernel

theorem textSql : SqlOperators textOperators := by
  refine ⟨?_,?_,?_⟩
  · intro type value
    exact beq_self_eq_true value
  · intro type left right same
    exact beq_iff_eq.mpr (eq_of_beq same).symm
  · intro type left middle right first second
    exact beq_iff_eq.mpr ((eq_of_beq first).trans (eq_of_beq second))

theorem sampleMirrors : ∃ target stream oid rows,
    prepareInitialSnapshot sha256Platform textOperators compactBytes sampleJob sampleMet
      (run sha256Platform textOperators emptyTarget samplePast) =
        .ok (⟨[notedRuntime],initialCheckpoint sampleJob sampleMet 100⟩,target) ∧
    (sampleReached stream target).store.relations notedRuntime.planned.target =
      some ⟨oid,notedRuntime.snapshotPlan.shadow,rows⟩ ∧
    rows.Perm [[some [49],some [97]],[some [50],some [98]]] := by
  obtain ⟨target,loaded,streams⟩ := Option.bind_eq_some_iff.mp sampleStreams
  obtain ⟨stream,streams,reached⟩ := Option.bind_eq_some_iff.mp streams
  have prepared := samplePrepares (toOptionSome.mp loaded)
  obtain ⟨checkpoint,stored,_,tables,_⟩ := @firstRunMirrors _ _ _ _ _ textSql _ emptyFresh Provenance.emptyNumbered samplePast (by decide)
    (fun tables _ => sampleApart tables) _ _ prepared _ _ (toOptionSome.mp streams) sampleLog sampleContents (by decide)
    sampleEvents
  cases Option.some.inj (reached.symm.trans stored)
  obtain ⟨copied,oid,rows,sent,placed,follows⟩ := tables notedRuntime (List.mem_singleton_self _)
  cases Option.some.inj sent
  exact ⟨target,stream,oid,rows,prepared,placed,follows _ (by decide)⟩

end Sample

end CloudberryEtl.FirstRun
