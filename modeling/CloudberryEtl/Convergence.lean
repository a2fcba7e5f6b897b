import CloudberryEtl.LogContents
import CloudberryEtl.Coverage
import CloudberryEtl.SpelledSteps

/-! What the target holds while the loop runs: in every bound table the source's table as of the stored checkpoint, and
outside the bound tables what was there before. -/
namespace CloudberryEtl.Convergence
open Schema Change TablePlan StagedApply KeyedTable Result Normalize KeyLayout Replay StagedSteps FoldedBatch FoldInvariant
open FoldStep FoldRefines KeyEquality Respelling SpelledSteps Coverage Checkpoint Wire Batch Adapter TargetStore Replication SortedLog Delivery
open LogContents hiding step steps
open Fencing hiding step

/-- The table after the row changes of a part of the log, under the unique index of its key. -/
def tableAfter (equal : Nat → Bytes → Bytes → Bool) (schema : TableSchema) (rows : List Row)
    (entries : List (List TransactionChange)) : Option (List Row) :=
  sqlReplay equal schema rows (ofTable (schema.relationId,schema.generation) (entries.flatMap rowsOf))

section Reordered
variable {schema : TableSchema}

def Reorders (schema : TableSchema) (left right : List Row) : Prop := left.Perm right ∧ IsTable schema right

theorem reordersAdd {left right added : List Row} {key row} (same : Reorders schema left right)
    (ok : add schema right key row = some added) : ∃ added', add schema left key row = some added' ∧ added'.Perm added := by
  have found := (findPerm same.2 same.1).2
  unfold add at ok ⊢
  rw [found]
  split at ok <;> try contradiction
  rename_i guard
  cases Option.some.inj ok
  exact ⟨_,if_pos guard,same.1.append_right _⟩

theorem reordersRemove {left right : List Row} (same : Reorders schema left right) (key : Key) :
    Reorders schema (remove schema left key) (remove schema right key) :=
  ⟨same.1.filter _,same.2.remove key⟩

theorem reordersChange (distinct : AttnumsDistinct schema) {left right after : List Row} {change}
    (same : Reorders schema left right) (ok : replayChange schema right change = some after) :
    ∃ after', replayChange schema left change = some after' ∧ Reorders schema after' after := by
  have table := (replayChangeSource distinct same.2 ok).1
  have found := (findPerm same.2 same.1).2
  suffices ∃ after', replayChange schema left change = some after' ∧ after'.Perm after from
    this.imp fun _ both => ⟨both.1,both.2,table⟩
  unfold replayChange at ok ⊢
  split at ok <;> try contradiction
  rename_i relation
  rw [if_pos relation]
  cases event : change.change with
  | insert new =>
    simp only [event,applyRow,bind,Option.bind_eq_some_iff] at ok ⊢
    obtain ⟨key,full,ok⟩ := ok
    split at ok <;> try contradiction
    rename_i shape
    obtain ⟨added,stored,perm⟩ := reordersAdd same ok
    exact ⟨added,⟨key,full,by rw [if_pos shape,stored]⟩,perm⟩
  | update old new =>
    simp only [event,applyRow,bind,Option.bind_eq_some_iff] at ok ⊢
    obtain ⟨oldKey,explicit,newKey,updated,row,present,ok⟩ := ok
    split at ok <;> try contradiction
    rename_i arity
    obtain ⟨added,stored,perm⟩ := reordersAdd (reordersRemove same _) ok
    exact ⟨added,⟨oldKey,explicit,newKey,updated,row,found ▸ present,by rw [if_pos arity,stored]⟩,perm⟩
  | delete old =>
    simp only [event,applyRow,bind,Option.bind_eq_some_iff] at ok ⊢
    obtain ⟨key,explicit,ok⟩ := ok
    split at ok <;> try contradiction
    rename_i present
    cases Option.some.inj ok
    exact ⟨_,⟨key,explicit,by rw [found,if_pos present]⟩,(reordersRemove same key).1⟩

theorem reordersDistinct {equal : Nat → Bytes → Bytes → Bool} (equality : SqlEquality equal) {left right : List Row}
    (perm : left.Perm right) (apart : SqlDistinct equal schema right) : SqlDistinct equal schema left :=
  (perm.pairwise_iff fun differ back => differ (sameKeysSymm equality _ back)).mpr apart

theorem reordersReplay {equal : Nat → Bytes → Bytes → Bool} (equality : SqlEquality equal)
    (distinct : AttnumsDistinct schema) (changes : List TableChange) : ∀ {left right after : List Row},
    Reorders schema left right → sqlReplay equal schema right changes = some after →
    ∃ after', sqlReplay equal schema left changes = some after' ∧ Reorders schema after' after := by
  induction changes with
  | nil =>
    intro left right after same ok
    cases Option.some.inj ok
    exact ⟨left,rfl,same⟩
  | cons change changes ih =>
    intro left right after same ok
    obtain ⟨middle,first,rest⟩ := Option.bind_eq_some_iff.mp ok
    obtain ⟨first,apart⟩ := Option.filter_eq_some_iff.mp first
    obtain ⟨middle',first',same⟩ := reordersChange distinct same first
    have apart' := reordersDistinct equality same.1 (of_decide_eq_true apart)
    obtain ⟨after',rest',same⟩ := ih same rest
    exact ⟨after',Option.bind_eq_some_iff.mpr ⟨middle',Option.filter_eq_some_iff.mpr ⟨first',decide_eq_true apart'⟩,rest'⟩,
      same⟩

end Reordered

section Store
variable {equal : Operators}

theorem applyTablesSource {tables : List TableApplyBatch}
    (apart : tables.Pairwise (fun a b => a.plan.table.target ≠ b.plan.table.target)) : ∀ {store store' : Store},
      tables.foldlM (applyTable equal) store = .ok store' →
      (∀ name, (∀ table ∈ tables, table.plan.table.target ≠ name) → store'.relations name = store.relations name) ∧
      ∀ table ∈ tables, table.rows ≠ [] → ∃ relation rows, store.relations table.plan.table.target = some relation ∧
        executeTable (equal.of table.plan.table) table.plan table.rows relation.rows = .ok rows ∧
        store'.relations table.plan.table.target = some {relation with rows := rows} := by
  induction tables with
  | nil =>
    intro store store' ok
    cases Except.ok.inj ok
    exact ⟨fun _ _ => rfl,by simp⟩
  | cons table tables ih =>
    intro store store' ok
    obtain ⟨others,apart⟩ := List.pairwise_cons.mp apart
    obtain ⟨middle,first,rest⟩ := bindOk.mp ok
    obtain ⟨kept,applied⟩ := ih apart rest
    have elsewhere : ∀ name, table.plan.table.target ≠ name → middle.relations name = store.relations name := by
      intro name away
      rcases applyTableSource first with ⟨_,rfl⟩ | ⟨_,_,_,_,rfl⟩
      · rfl
      · simp [putRelation,away.symm]
    refine ⟨?_,?_⟩
    · intro name away
      rw [kept name (fun other mem => away other (List.mem_cons_of_mem _ mem)),
        elsewhere name (away table List.mem_cons_self)]
    · intro other mem filled
      rcases List.mem_cons.mp mem with rfl | mem
      · rcases applyTableSource first with ⟨empty,_⟩ | ⟨relation,rows,found,executed,rfl⟩
        · exact absurd empty filled
        · refine ⟨relation,rows,found,executed,?_⟩
          rw [kept _ (fun table mem => (others table mem).symm)]
          simp [putRelation]
      · obtain ⟨relation,rows,found,executed,stored⟩ := applied other mem filled
        exact ⟨relation,rows,elsewhere _ (others other mem) ▸ found,executed,stored⟩

theorem applyTablesFrame (tables : List TableApplyBatch) : ∀ {store store' : Store},
    tables.foldlM (applyTable equal) store = .ok store' → store' = {store with relations := store'.relations} := by
  induction tables with
  | nil =>
    intro store store' ok
    cases Except.ok.inj ok
    rfl
  | cons table tables ih =>
    intro store store' ok
    obtain ⟨middle,first,rest⟩ := bindOk.mp ok
    have later := ih rest
    rcases applyTableSource first with ⟨_,rfl⟩ | ⟨_,_,_,_,rfl⟩
    · exact later
    · exact later

theorem sinkSource {sink : CloudberryTransactionSink} {target target' : Target} {batch}
    (ok : sink.apply equal target batch = .ok target') : ∃ request,
      buildApplyRequestScoped sink.fence sink.slotName sink.registry sink.scope batch = .ok request ∧
      request.tables.foldlM (applyTable equal) target.store = .ok target'.store := by
  obtain ⟨request,built,ok⟩ := bindOk.mp ok
  obtain ⟨⟨_,_⟩,executed,ok⟩ := bindOk.mp ok
  cases Except.ok.inj ok
  obtain ⟨_,_,executed⟩ := bindOk.mp (mapErrorOk.mp executed)
  obtain ⟨_,_,executed⟩ := bindOk.mp executed
  obtain ⟨_,applied,executed⟩ := bindOk.mp executed
  obtain ⟨⟨_,_⟩,_,executed⟩ := bindOk.mp executed
  cases Except.ok.inj executed
  exact ⟨request,built,applied⟩

end Store

section After
variable {equal : Nat → Bytes → Bytes → Bool}

theorem tableAfterAppend {schema : TableSchema} {rows : List Row} (first rest : List (List TransactionChange)) :
    tableAfter equal schema rows (first ++ rest) =
      (tableAfter equal schema rows first).bind (fun middle => tableAfter equal schema middle rest) := by
  simp [tableAfter,sqlReplay,ofTable,List.flatMap_append,List.filter_append,List.foldlM_append]

theorem tableAfterBatch (schema : TableSchema) (rows : List Row) (batch : TransactionBatch) :
    tableAfter equal schema rows (batch.transactions.map SourceTransaction.changes) =
      sqlReplay equal schema rows (tableChanges batch (schema.relationId,schema.generation)) := by
  rw [tableChangesOf,tableAfter,List.flatMap_map]
  rfl

theorem foldedExecutes (equality : SqlEquality equal) {schema : TableSchema} {target staging plan}
    (distinct : AttnumsDistinct schema) (planned : planApply schema target staging = .ok plan) {start final out : List Row}
    {changes rows} (table : IsTable schema start) (apart : SqlDistinct equal schema start)
    (replayed : sqlReplay equal schema start changes = some final) (folded : normalizeTableChanges schema changes = .ok rows)
    (executed : executeTable equal plan rows start = .ok out) : Reorders schema out final := by
  have perm := executedReplays equality distinct planned ⟨start,table⟩ apart replayed folded executed
  obtain ⟨n,run,rfl⟩ := normalizeSource folded
  obtain ⟨replayed,_⟩ := sqlReplaySource replayed apart
  exact ⟨perm,(runFolded distinct (keyedFind table) changes table (foldedStart schema _) replayed run).1⟩

end After

def Passes (bindings : List TableBinding) (scope : DdlScope) : TransactionChange → Prop
  | .row change => ∃ binding ∈ bindings, binding.key = changeKey change
  | .truncate .. => False
  | .ddl message => scope.requiresBarrier message = false

/-- The equality by which the target compares the keys of a bound table. -/
def keyEqual (equal : Operators) (binding : TableBinding) : Nat → Bytes → Bytes → Bool := equal.of binding.plan.table

structure Mirrors (equal : Operators) (bindings : List TableBinding) (scope : DdlScope) (start : Store)
    (reflected : List (List TransactionChange)) (store : Store) : Prop where
  bound : ∀ binding ∈ bindings, ∀ relation, start.relations binding.plan.table.target = some relation →
    ∃ rows, store.relations binding.plan.table.target = some {relation with rows := rows} ∧
      ∀ final, tableAfter (keyEqual equal binding) binding.schema relation.rows reflected = some final → Reorders binding.schema rows final
  rest : ∀ name, (∀ binding ∈ bindings, binding.plan.table.target ≠ name) → store.relations name = start.relations name
  frame : store = {start with relations := store.relations}
  passed : ∀ changes ∈ reflected, ∀ change ∈ changes, Passes bindings scope change

section Apply
variable {bindings : List TableBinding} {registry : TableBindingRegistry}
  (accepted : TableBindingRegistry.new bindings = .ok registry) {fence : PipelineFence} {slotName : String}
  {scope : DdlScope} {batch : TransactionBatch} {request : ApplyRequest}
  (built : buildApplyRequestScoped fence slotName registry scope batch = .ok request)
include accepted built

theorem batchPasses : ∀ transaction ∈ batch.transactions, ∀ change ∈ transaction.changes, Passes bindings scope change := by
  intro transaction memTransaction change memChange
  have calm := forMOk.mp (forMOk.mp (builtSource built).1 transaction memTransaction) change memChange
  cases change with
  | row change =>
    exact changeBound accepted built
      (List.mem_flatMap.mpr ⟨transaction,memTransaction,List.mem_filterMap.mpr ⟨_,memChange,rfl⟩⟩)
  | truncate relationIds cascade restart => exact (rejectSource calm).1 _ _ _ rfl
  | ddl message => exact Bool.eq_false_iff.mpr (iteOk.mp calm).1

theorem targetNames {binding table} (mem : binding ∈ bindings) (member : table ∈ request.tables)
    (same : table.plan.table.target = binding.plan.table.target) : table.plan = binding.plan ∧ table.rows ≠ [] ∧
      tableChanges batch binding.key ≠ [] ∧
      normalizeTableChanges binding.schema (tableChanges batch binding.key) = .ok table.rows := by
  obtain ⟨other,memOther,planned,filled,changed,folded⟩ := tableSource accepted built member
  obtain rfl : other = binding :=
    List.inj_on_of_nodup_map (registrySource accepted).2.targets memOther mem (planned ▸ same)
  exact ⟨planned,filled,changed,folded⟩

theorem boundApplied {equal : Operators} (sql : SqlOperators equal) {binding} (mem : binding ∈ bindings)
    (distinct : AttnumsDistinct binding.schema) {target staging}
    (planned : planApply binding.schema target staging = .ok binding.plan) {store store' : Store}
    (applied : request.tables.foldlM (applyTable equal) store = .ok store') {relation : Relation}
    (found : store.relations binding.plan.table.target = some relation) :
    ∃ rows, store'.relations binding.plan.table.target = some {relation with rows := rows} ∧
      ∀ final, IsTable binding.schema relation.rows → SqlDistinct (keyEqual equal binding) binding.schema relation.rows →
        sqlReplay (keyEqual equal binding) binding.schema relation.rows (tableChanges batch binding.key) = some final →
        Reorders binding.schema rows final := by
  have equality := sql.of binding.plan.table
  obtain ⟨kept,each⟩ := applyTablesSource ((tablesApart accepted built).imp And.left) applied
  by_cases named : ∃ table ∈ request.tables, table.plan.table.target = binding.plan.table.target
  · obtain ⟨table,member,same⟩ := named
    obtain ⟨plan,filled,_,folded⟩ := targetNames accepted built mem member same
    obtain ⟨other,rows,foundOther,executed,stored⟩ := each table member filled
    rw [same] at foundOther stored
    cases Option.some.inj (found.symm.trans foundOther)
    refine ⟨rows,stored,?_⟩
    intro final content apart replayed
    rw [plan] at executed
    exact foldedExecutes equality distinct planned content apart replayed folded executed
  · have away : ∀ table ∈ request.tables, table.plan.table.target ≠ binding.plan.table.target :=
      fun table member same => named ⟨table,member,same⟩
    refine ⟨relation.rows,(kept _ away).trans found,?_⟩
    intro final content apart replayed
    by_cases changed : tableChanges batch binding.key = []
    · rw [changed] at replayed
      cases Option.some.inj replayed
      exact ⟨.refl _,content⟩
    · obtain ⟨rows,folded,given⟩ := bindingTable accepted built mem changed
      -- an empty fold of changes leaves the replayed table where it was
      have empty : rows = [] := by
        by_contra filled
        exact away _ (given filled) rfl
      subst empty
      exact foldedExecutes equality distinct planned content apart replayed folded rfl

end Apply

/- What the job rests on when it starts: the plans are those of the bound schemas, and the bound relations that exist
hold tables. -/
structure Ready (equal : Operators) (bindings : List TableBinding) (start : Store) : Prop where
  planned : ∀ binding ∈ bindings, ∃ target staging, planApply binding.schema target staging = .ok binding.plan
  distinct : ∀ binding ∈ bindings, AttnumsDistinct binding.schema
  tables : ∀ binding ∈ bindings, ∀ relation, start.relations binding.plan.table.target = some relation →
    IsTable binding.schema relation.rows ∧ SqlDistinct (keyEqual equal binding) binding.schema relation.rows

section Runs
variable {bindings : List TableBinding} {log : List SourceCommit} {contents : Contents} {job : Job}
  {equal : Operators} (sql : SqlOperators equal) {system : System}

include sql in
theorem applyMirrors {start : Store} {reflected : List (List TransactionChange)} {target target' : Target} {batch}
    (accepted : TableBindingRegistry.new bindings = .ok job.sink.registry) (ready : Ready equal bindings start)
    (mirrors : Mirrors equal bindings job.sink.scope start reflected target.store)
    (ok : job.sink.apply equal target batch = .ok target') :
    Mirrors equal bindings job.sink.scope start (reflected ++ batch.transactions.map SourceTransaction.changes) target'.store := by
  obtain ⟨request,built,applied⟩ := sinkSource ok
  refine ⟨?_,?_,?_,?_⟩
  · intro binding mem relation found
    obtain ⟨rows,stored,follows⟩ := mirrors.bound binding mem relation found
    obtain ⟨_,_,planned⟩ := ready.planned binding mem
    have distinct := ready.distinct binding mem
    obtain ⟨after,storedAfter,effect⟩ := boundApplied accepted built sql mem distinct planned applied stored
    refine ⟨after,storedAfter,?_⟩
    intro final replayed
    rw [tableAfterAppend] at replayed
    obtain ⟨middle,before,batched⟩ := Option.bind_eq_some_iff.mp replayed
    rw [tableAfterBatch] at batched
    have equality := sql.of binding.plan.table
    have same := follows middle before
    have apart := (sqlReplaySource before (ready.tables binding mem relation found).2).2
    obtain ⟨reached,onRows,reorders⟩ := reordersReplay equality distinct _ same batched
    have result := effect reached (findPerm same.2 same.1).1 (reordersDistinct equality same.1 apart) onRows
    exact ⟨result.1.trans reorders.1,reorders.2⟩
  · intro name away
    rw [← mirrors.rest name away]
    refine (applyTablesSource ((tablesApart accepted built).imp And.left) applied).1 name ?_
    intro table member same
    obtain ⟨binding,mem,planned,_⟩ := tableSource accepted built member
    exact away binding mem (planned ▸ same)
  · rw [applyTablesFrame _ applied,mirrors.frame]
  · intro changes mem
    rcases List.mem_append.mp mem with mem | mem
    · exact mirrors.passed changes mem
    · obtain ⟨transaction,memBatch,rfl⟩ := List.mem_map.mp mem
      exact batchPasses accepted built transaction memBatch

inductive Applies (job : Job) (equal : Operators) (system next : System) : Prop where
  | idle (target : next.target = system.target) (reflected : next.reflected = system.reflected)
  | applied {batch} (ok : job.sink.apply equal system.target batch = .ok next.target)
      (reflected : next.reflected = system.reflected ++ batch.transactions)

theorem reportApplies (run : Run) (lsn : PgLsn) (sent : Bool) : Applies job equal system (system.report run lsn sent) := by
  cases sent with
  | false => exact .idle rfl rfl
  | true => exact .idle rfl rfl

theorem deliverApplies (run : Run) (sender : WalSender) (message : DecodedMessage) (sent : Bool) :
    Applies job equal system (deliver system run sender message sent) := by
  unfold deliver
  split
  · exact .idle rfl rfl
  · exact .idle rfl rfl
  · exact reportApplies ..
  · split
    · exact .idle rfl rfl
    · exact .idle rfl rfl
    · exact .idle rfl rfl

theorem stepApplies (event : Event) : Applies job equal system (Replication.step log job equal system event) := by
  unfold Replication.step
  split
  · split
    · exact .idle rfl rfl
    · exact .idle rfl rfl
  · split
    · split
      · exact .idle rfl rfl
      · exact deliverApplies ..
    · unfold streamEnd
      split
      · exact .idle rfl rfl
      · exact .idle rfl rfl
      · exact .idle rfl rfl
    · exact .idle rfl rfl
    · unfold timer
      split
      · exact .idle rfl rfl
      · exact .idle rfl rfl
    · split
      · unfold applyBatch
        split
        · exact .idle rfl rfl
        · rename_i ok
          exact .applied ok rfl
      · exact .idle rfl rfl
    · unfold Replication.acknowledge
      split
      · exact .idle rfl rfl
      · exact reportApplies ..
    · exact .idle rfl rfl
    · exact .idle rfl rfl
    · exact .idle rfl rfl

theorem liveApplies (log : List SourceCommit) (contents : Contents) (job : Job) (equal : Operators)
    (live : Live) (event : Event) :
    Applies job equal live.system (LogContents.step log contents job equal live event).system := by
  generalize after : LogContents.step log contents job equal live event = next
  have source := stepSource contents log job equal live event
  rw [after] at source
  cases source with
  | idle => exact .idle rfl rfl
  | delivered => exact stepApplies event
  | other => exact stepApplies event

def reflectedChanges (system : System) : List (List TransactionChange) := system.reflected.map SourceTransaction.changes

include sql in
theorem stepsMirror {start : Store} (accepted : TableBindingRegistry.new bindings = .ok job.sink.registry)
    (ready : Ready equal bindings start) (events : List Event) : ∀ {live : Live},
      Mirrors equal bindings job.sink.scope start (reflectedChanges live.system) live.system.target.store →
      let after := (LogContents.steps log contents job equal live events).system
      Mirrors equal bindings job.sink.scope start (reflectedChanges after) after.target.store := by
  induction events with
  | nil => exact fun mirrors => mirrors
  | cons event events ih =>
    intro live mirrors
    have next : Mirrors equal bindings job.sink.scope start
        (reflectedChanges (LogContents.step log contents job equal live event).system)
        (LogContents.step log contents job equal live event).system.target.store := by
      cases liveApplies log contents job equal live event with
      | idle target reflected => rwa [reflectedChanges,target,reflected]
      | applied ok reflected =>
        rw [reflectedChanges,reflected,List.map_append]
        exact applyMirrors sql accepted ready mirrors ok
    exact ih next

theorem startMirrors {start : Store} (ready : Ready equal bindings start) (scope : DdlScope) :
    Mirrors equal bindings scope start [] start where
  bound binding mem relation found := by
    refine ⟨relation.rows,found,?_⟩
    intro final replayed
    cases Option.some.inj replayed
    exact ⟨.refl _,(ready.tables binding mem relation found).1⟩
  rest _ _ := rfl
  frame := rfl
  passed := by simp

theorem tableAfterCarried {equal : Nat → Bytes → Bytes → Bool} {schema : TableSchema} {rows : List Row} {transactions : List SourceTransaction}
    {entries : List SourceCommit} (carried : List.Forall₂ (fun transaction entry =>
      Carries transaction.changes (changesOf (contents entry))) transactions entries) :
    tableAfter equal schema rows (transactions.map SourceTransaction.changes) =
      tableAfter equal schema rows (entries.map (fun entry => changesOf (contents entry))) := by
  have same : (transactions.map SourceTransaction.changes).flatMap rowsOf =
      (entries.map (fun entry => changesOf (contents entry))).flatMap rowsOf := by
    induction carried with
    | nil => rfl
    | cons head tail ih => rw [List.map_cons,List.flatMap_cons,head.rows,ih,List.map_cons,List.flatMap_cons]
  rw [tableAfter,same]
  rfl

structure Reflects (equal : Operators) (bindings : List TableBinding) (log : List SourceCommit) (contents : Contents) (job : Job) (start : Store)
    (initial : PgLsn) (system : System) (checkpoint : PgLsn) : Prop where
  stored : checkpointLsn job system.target = some checkpoint
  later : initial ≤ checkpoint
  carried : List.Forall₂ (fun transaction entry => Carries transaction.changes (changesOf (contents entry)))
    system.reflected (between SourceCommit.endLsn log initial checkpoint)
  mirrors : Mirrors equal bindings job.sink.scope start (reflectedChanges system) system.target.store

include sql in
theorem runReflects {start : Target} {initial : PgLsn} (increasing : Increasing SourceCommit.endLsn log)
    (accepted : TableBindingRegistry.new bindings = .ok job.sink.registry) (ready : Ready equal bindings start.store)
    (stored : checkpointLsn job start = some initial) (events : List Event) :
    ∃ checkpoint, Reflects equal bindings log contents job start.store initial
      (LogContents.steps log contents job equal (.begins start) events).system checkpoint := by
  obtain ⟨checkpoint,holds,faithful⟩ : ∃ later,
      Invariant log job initial (LogContents.steps log contents job equal (.begins start) events).system later ∧
      Faithful contents log (LogContents.steps log contents job equal (.begins start) events) :=
    stepsServe increasing events (beginsInvariant stored) (beginsFaithful start)
  exact ⟨checkpoint,holds.stored,holds.start,reflectedCarries increasing holds faithful,
    stepsMirror sql accepted ready events (startMirrors ready job.sink.scope : Mirrors _ _ _ _
      (reflectedChanges (Live.begins start).system) (Live.begins start).system.target.store)⟩

theorem Reflects.bound {start : Store} {initial checkpoint : PgLsn} {system : System}
    (reflects : Reflects equal bindings log contents job start initial system checkpoint) {binding} (mem : binding ∈ bindings)
    {relation} (found : start.relations binding.plan.table.target = some relation) :
    ∃ rows, system.target.store.relations binding.plan.table.target = some {relation with rows := rows} ∧
      ∀ final, tableAfter (keyEqual equal binding) binding.schema relation.rows ((between SourceCommit.endLsn log initial checkpoint).map
        (fun entry => changesOf (contents entry))) = some final → rows.Perm final := by
  obtain ⟨rows,here,follows⟩ := reflects.mirrors.bound binding mem relation found
  refine ⟨rows,here,?_⟩
  intro final replayed
  rw [← tableAfterCarried reflects.carried] at replayed
  exact (follows final replayed).1

theorem Reflects.passed {start : Store} {initial checkpoint : PgLsn} {system : System}
    (reflects : Reflects equal bindings log contents job start initial system checkpoint) :
    ∀ entry ∈ between SourceCommit.endLsn log initial checkpoint, ∀ change ∈ changesOf (contents entry),
      Passes bindings job.sink.scope change := by
  intro entry mem change written
  obtain ⟨transaction,memReflected,carries⟩ := relatedMem reflects.carried mem
  exact reflects.mirrors.passed _ (List.mem_map_of_mem memReflected) change (carries.all change written)

include sql in
/-- Over every run of the loop, under any equality of the target and cut and restarted anywhere: a bound relation holds the source's table as of the stored
checkpoint, the checkpoint has passed no change that the job may not apply, and nothing else in the target has changed. -/
theorem targetHoldsSourceTables {start : Target} {initial : PgLsn} (increasing : Increasing SourceCommit.endLsn log)
    (accepted : TableBindingRegistry.new bindings = .ok job.sink.registry) (ready : Ready equal bindings start.store)
    (stored : checkpointLsn job start = some initial) (events : List Event) :
    let target := (LogContents.steps log contents job equal (.begins start) events).system.target
    ∃ checkpoint, checkpointLsn job target = some checkpoint ∧ initial ≤ checkpoint ∧
      (∀ binding ∈ bindings, ∀ relation, start.store.relations binding.plan.table.target = some relation →
        ∃ rows, target.store.relations binding.plan.table.target = some {relation with rows := rows} ∧
          ∀ final, tableAfter (keyEqual equal binding) binding.schema relation.rows ((between SourceCommit.endLsn log initial checkpoint).map
            (fun entry => changesOf (contents entry))) = some final → rows.Perm final) ∧
      (∀ entry ∈ between SourceCommit.endLsn log initial checkpoint, ∀ change ∈ changesOf (contents entry),
        Passes bindings job.sink.scope change) ∧
      (∀ name, (∀ binding ∈ bindings, binding.plan.table.target ≠ name) →
        target.store.relations name = start.store.relations name) ∧
      target.store = {start.store with relations := target.store.relations} := by
  intro target
  obtain ⟨checkpoint,reflects⟩ := @runReflects bindings log contents job equal sql start initial increasing accepted ready stored
    events
  exact ⟨checkpoint,reflects.stored,reflects.later,fun _ mem _ found => reflects.bound mem found,reflects.passed,
    reflects.mirrors.rest,reflects.mirrors.frame⟩

end Runs

section Sample

/-- The operators of a server on which only numerics are compared by more than their text. -/
def numericOperators : Operators := fun type left right =>
  if type = "numeric" then trimmed left == trimmed right else left == right

theorem numericSql : SqlOperators numericOperators := by
  refine ⟨?_,?_,?_⟩
  · intro type value
    unfold numericOperators
    split <;> simp
  · intro type left right same
    unfold numericOperators at same ⊢
    split at same <;> simp_all
  · intro type left middle right first second
    unfold numericOperators at first second ⊢
    split at first <;> simp_all

def sampleLog : List SourceCommit := [⟨700,90,100,5⟩,⟨701,190,200,6⟩]

def sampleRelation : DecodedMessage := .relation ⟨16386,"public","accounts",1,.default,[]⟩

def sampleContents (entry : SourceCommit) : List DecodedMessage :=
  if entry.xid = 700 then [sampleRelation,.insert 16386 1 ⟨[.text [50,46,48],.text [98]]⟩]
  else [sampleRelation,.ddl ⟨1,"CREATE TABLE",[],["audit"],""⟩,.update 16386 1 (some ⟨[.text [49,46,48]]⟩) ⟨[.text [51,46,48],.unchangedToast]⟩]

def sampleJob (binding : TableBinding) : Job :=
  ⟨⟨⟨7,1,3⟩,"pg2cb_slot",⟨[binding]⟩,⟨none,["audit"]⟩⟩,⟨0,42,1⟩,⟨1000,1000000⟩,⟨10,1000000,1⟩⟩

def sampleStart (binding : TableBinding) : Target :=
  ⟨⟨fun _ => some ⟨1,3⟩,fun _ => some ⟨⟨⟨7,1,0⟩,42,1,"pg2cb_slot",50⟩,3⟩⟩,
    ⟨Function.update (fun _ => none) binding.plan.table.target (some ⟨1,binding.plan.table,onePrice.rows⟩),2,fun _ => none,
      [],fun _ => none,[],[],[],[]⟩⟩

def sampleEvents : List Replication.Event :=
  [.start,.deliver (.begin' 90 5 700) true,.deliver sampleRelation true,
    .deliver (.insert 16386 1 ⟨[.text [50,46,48],.text [98]]⟩) true,.deliver (.commit 90 100 5 0) true,.timer,.apply true,
    .acknowledge true,.deliver (.begin' 190 6 701) true,.deliver sampleRelation true,.crash,.start,
    .deliver (.begin' 190 6 701) true,.deliver sampleRelation true,
    .deliver (.ddl ⟨1,"CREATE TABLE",[],["audit"],""⟩) true,
    .deliver (.update 16386 1 (some ⟨[.text [49,46,48]]⟩) ⟨[.text [51,46,48],.unchangedToast]⟩) true,
    .deliver (.commit 190 200 6 0) true,.timer,.apply true]

def sampleTarget (binding : TableBinding) : Target :=
  (LogContents.steps sampleLog sampleContents (sampleJob binding) numericOperators (.begins (sampleStart binding))
    sampleEvents).system.target

def sampleBinding : Option TableBinding := (TableBinding.new prices prices.name "pg2cb_stage").toOption

theorem sampleReady {binding : TableBinding} (made : TableBinding.new prices prices.name "pg2cb_stage" = .ok binding) :
    Ready numericOperators [binding] (sampleStart binding).store := by
  obtain ⟨plan,planned,ok⟩ := bindOk.mp made
  cases Except.ok.inj ok
  refine ⟨?_,?_,?_⟩
  · simpa using ⟨_,_,mapErrorOk.mp planned⟩
  · simpa using (by decide : AttnumsDistinct prices)
  · simp only [List.mem_singleton,forall_eq,sampleStart,Function.update_self,Option.some.injEq]
    rintro relation rfl
    exact ⟨onePrice.valid,List.pairwise_singleton _ _⟩

theorem sampleTargetHolds : ∃ binding, sampleBinding = some binding ∧
    checkpointLsn (sampleJob binding) (sampleTarget binding) = some 200 ∧
    ∃ rows, (sampleTarget binding).store.relations binding.plan.table.target = some ⟨1,binding.plan.table,rows⟩ ∧
      rows.Perm [[some [50,46,48],some [98]],[some [51,46,48],some [97]]] := by
  have reached : sampleBinding.map (fun binding => checkpointLsn (sampleJob binding) (sampleTarget binding)) =
      some (some 200) := by decide +kernel
  obtain ⟨binding,made,reached⟩ := Option.map_eq_some_iff.mp reached
  refine ⟨binding,made,reached,?_⟩
  have ready := sampleReady (toOptionSome.mp made)
  have increasing : Increasing SourceCommit.endLsn sampleLog := by decide
  obtain ⟨checkpoint,stored,_,bound,_⟩ :=
    @targetHoldsSourceTables [binding] sampleLog sampleContents (sampleJob binding) numericOperators numericSql _ 50 increasing rfl ready rfl sampleEvents
  cases Option.some.inj (reached.symm.trans stored)
  obtain ⟨rows,here,follows⟩ := bound binding (by simp) _ (by simp [sampleStart]; rfl)
  refine ⟨rows,here,follows _ ?_⟩
  have log : (between SourceCommit.endLsn sampleLog 50 200).map (fun entry => changesOf (sampleContents entry)) =
      [[.row ⟨16386,1,.insert ⟨[.text [50,46,48],.text [98]]⟩⟩],[.ddl ⟨1,"CREATE TABLE",[],["audit"],""⟩,
        .row ⟨16386,1,.update (some ⟨[.text [49,46,48]]⟩) ⟨[.text [51,46,48],.unchangedToast]⟩⟩]] := by decide
  have written : sampleBinding.map (fun binding => tableAfter (keyEqual numericOperators binding) binding.schema
      onePrice.rows ((between SourceCommit.endLsn sampleLog 50 200).map (fun entry => changesOf (sampleContents entry)))) =
      some (some [[some [50,46,48],some [98]],[some [51,46,48],some [97]]]) := by
    rw [log]
    decide +kernel
  rw [made] at written
  exact Option.some.inj written

end Sample

end CloudberryEtl.Convergence
