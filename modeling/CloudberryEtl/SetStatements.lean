import CloudberryEtl.StagedSteps

/-! The set statements of one apply, as changes to the finite map that the target table is. Each statement is
described at the keys it hits and at the keys it misses. -/
namespace CloudberryEtl.SetStatements
open Schema Change TablePlan CopyText StagedApply SqlLogic KeyedTable Result Normalize KeyLayout Replay StagedSteps

section Joins
variable {schema : TableSchema} {plan : ApplyPlan} (distinct : AttnumsDistinct schema) (plans : Plans schema plan)
include distinct plans

theorem keysEqualIff {left right : List (Option Bytes)} (hl : left.length = (keyPositions schema).length)
    (hr : right.length = (keyPositions schema).length) :
    holds (keysEqual textEqual plan left right) = true ↔
      ∃ key : Key, left = key.map some ∧ right = key.map some := by
  rw [keysEqual,planKeyIndexes distinct plans,holdsAll]
  generalize keyPositions schema = positions at hl hr
  induction positions generalizing left right with
  | nil =>
    cases left <;> cases right <;> simp_all
  | cons index positions ih =>
    cases left with
    | nil => simp at hl
    | cons l left =>
      cases right with
      | nil => simp at hr
      | cons r right =>
        have tail := ih (by simpa using hl) (by simpa using hr)
        simp only [List.zip_cons_cons,List.zipWith_cons_cons,List.all_cons,Bool.and_eq_true,holdsEq,tail,textEqual,
          beq_iff_eq]
        constructor
        · rintro ⟨⟨x,y,rfl,rfl,rfl⟩,key,rfl,rfl⟩
          exact ⟨x :: key,rfl,rfl⟩
        · rintro ⟨key,sameLeft,sameRight⟩
          cases key with
          | nil => simp at sameLeft
          | cons x key =>
            simp only [List.map_cons,List.cons.injEq] at sameLeft sameRight
            exact ⟨⟨x,x,sameLeft.1,sameRight.1,rfl⟩,key,sameLeft.2,sameRight.2⟩

theorem keyColumnsRow (row : Row) : keyColumns plan row = rowKey schema row := by
  rw [keyColumns,planKeyIndexes distinct plans,rowKey]

theorem stagedKey {op : Op} (ok : OpOk schema op) : keyColumns plan (staged plan op).data = op.key.map some := by
  rw [keyColumnsRow distinct plans]
  have texts : ∀ index ∈ keyPositions schema,
      column (op.cells.map cellValue) index = cellValue (cellAt op.cells index) := by
    intro index mem
    exact dataColumn (ok.arity ▸ keyPositionsLt distinct mem)
  calc rowKey schema (op.cells.map cellValue)
      = (keyPositions schema).map (fun index => cellValue (cellAt op.cells index)) := List.map_congr_left texts
    _ = ((keyPositions schema).map (cellAt op.cells)).map cellValue := by rw [List.map_map]; rfl
    _ = op.key.map some := by rw [ok.named,keyCells,List.map_map]; rfl

omit plans in
theorem rowKeyText {row : Row} (width : row.length = schema.columns.length) (admitted : rowAdmitted schema row) :
    ∃ key : Key, rowKey schema row = key.map some := by
  have values : ∀ index ∈ keyPositions schema, ∃ value, column row index = some value := by
    intro index mem
    obtain ⟨col,found,isKey⟩ := (memKeyPositions distinct).mp mem
    have bound : index < row.length := width ▸ keyPositionsLt distinct mem
    have inZip : (col,row[index]) ∈ schema.columns.zip row :=
      List.mem_of_getElem? (List.getElem?_zip_eq_some.mpr ⟨found,List.getElem?_eq_getElem bound⟩)
    have present := List.all_eq_true.mp admitted _ inZip
    simp only [isKey,Bool.not_true,Bool.and_false,Bool.false_or] at present
    obtain ⟨value,same⟩ := Option.isSome_iff_exists.mp present
    exact ⟨value,by simp [column,List.getD_eq_getElem?_getD,bound,same]⟩
  unfold rowKey
  generalize keyPositions schema = positions at values
  induction positions with
  | nil => exact ⟨[],rfl⟩
  | cons index positions ih =>
    obtain ⟨value,here⟩ := values index List.mem_cons_self
    obtain ⟨key,rest⟩ := ih (fun index mem => values index (List.mem_cons_of_mem _ mem))
    exact ⟨value :: key,by rw [List.map_cons,here,rest,List.map_cons]⟩

omit distinct plans in
theorem rowKeyLength (row : Row) : (rowKey schema row).length = (keyPositions schema).length := by simp [rowKey]

theorem keyJoinStaged (row : Row) {op} (ok : OpOk schema op) :
    holds (keyJoin textEqual plan row (staged plan op)) = decide (rowKey schema row = op.key.map some) := by
  rw [Bool.eq_iff_iff,decide_eq_true_iff,keyJoin,stagedKey distinct plans ok,keyColumnsRow distinct plans,
    keysEqualIff distinct plans (rowKeyLength row) (by simpa using ok.keyLength)]
  constructor
  · rintro ⟨key,left,right⟩
    exact left.trans right.symm
  · exact fun same => ⟨op.key,same,rfl⟩

theorem oldKeyJoinStaged (row : Row) {op} (ok : OpOk schema op) (move : op.isMove) :
    holds (oldKeyJoin textEqual plan row (staged plan op)) = decide (rowKey schema row = op.old.map some) := by
  rw [Bool.eq_iff_iff,decide_eq_true_iff,oldKeyJoin,show (staged plan op).oldKey = op.old.map some from if_pos move,
    keyColumnsRow distinct plans,keysEqualIff distinct plans (rowKeyLength row) (by simpa using ok.oldLength move)]
  constructor
  · rintro ⟨key,left,right⟩
    exact left.trans right.symm
  · exact fun same => ⟨op.old,same,rfl⟩

omit distinct in
theorem admittedRow (row : Row) : admitted plan row = rowAdmitted schema row := by
  unfold admitted rowAdmitted
  have planned := plans.table.columns
  generalize plan.table.columns = left at planned
  generalize schema.columns = right at planned
  induction planned generalizing row with
  | nil => rfl
  | cons head tail ih =>
    obtain ⟨sql,rfl⟩ := head
    cases row with
    | nil => rfl
    | cons value row =>
      simp only [List.zip_cons_cons,List.all_cons,ih row]
      congr 2
      simp [columnPlan,ColumnSchema.isKey]

theorem conflictsFalse {rows : List Row} (keyed : ∀ row ∈ rows, ∃ key : Key, rowKey schema row = key.map some) :
    conflicts textEqual plan rows = false ↔ UniqueKeys (rowKey schema) rows := by
  induction rows with
  | nil => simp [conflicts,UniqueKeys]
  | cons row rows ih =>
    have tail := ih (fun row mem => keyed row (List.mem_cons_of_mem _ mem))
    have same : ∀ other ∈ rows, sameKey textEqual plan row other = decide (rowKey schema row = rowKey schema other) := by
      intro other mem
      obtain ⟨key,named⟩ := keyed other (List.mem_cons_of_mem _ mem)
      rw [Bool.eq_iff_iff,decide_eq_true_iff,sameKey,keyColumnsRow distinct plans,keyColumnsRow distinct plans,
        keysEqualIff distinct plans (rowKeyLength row) (rowKeyLength other)]
      constructor
      · rintro ⟨key,left,right⟩
        exact left.trans right.symm
      · exact fun equal => ⟨key,equal.trans named,named⟩
    have fresh : rows.any (sameKey textEqual plan row) = false ↔ rowKey schema row ∉ rows.map (rowKey schema) := by
      rw [List.any_eq_false,List.mem_map,not_exists]
      refine forall_congr' fun other => ?_
      constructor
      · rintro apart ⟨mem,equal⟩
        exact apart mem (by rw [same other mem]; simpa using equal.symm)
      · intro apart mem
        rw [same other mem]
        simpa using fun equal => apart ⟨mem,equal.symm⟩
    rw [conflicts,Bool.or_eq_false_iff,fresh,tail]
    exact List.nodup_cons.symm

end Joins

section Written
variable {schema : TableSchema} {ops : List Op} {f : Op → Option Row}

def Names (schema : TableSchema) (ops : List Op) (f : Op → Option Row) : Prop :=
  ∀ op ∈ ops, ∀ row, f op = some row → rowKey schema row = op.key.map some

theorem writtenUnique (names : Names schema ops f) (nodup : (ops.map Op.key).Nodup) :
    UniqueKeys (rowKey schema) (ops.filterMap f) := by
  induction ops with
  | nil => simp [UniqueKeys]
  | cons op ops ih =>
    obtain ⟨fresh,nodup⟩ := List.nodup_cons.mp nodup
    have tail := ih (fun op mem => names op (List.mem_cons_of_mem _ mem)) nodup
    cases written : f op with
    | none => simpa [List.filterMap_cons,written] using tail
    | some row =>
      rw [List.filterMap_cons_some written,UniqueKeys,List.map_cons,List.nodup_cons]
      refine ⟨fun member => ?_,tail⟩
      obtain ⟨other,inRows,same⟩ := List.mem_map.mp member
      obtain ⟨source,inOps,writes⟩ := List.mem_filterMap.mp inRows
      rw [names source (List.mem_cons_of_mem _ inOps) other writes,
        names op List.mem_cons_self row written] at same
      exact fresh (List.mem_map.mpr ⟨source,inOps,keySomeInjective same⟩)

theorem findWritten (names : Names schema ops f) (nodup : (ops.map Op.key).Nodup) {op} (mem : op ∈ ops) :
    find schema (ops.filterMap f) op.key = f op := by
  have unique := writtenUnique names nodup
  cases written : f op with
  | some row =>
    exact (lookupIff unique).mpr ⟨List.mem_filterMap.mpr ⟨op,mem,written⟩,names op mem row written⟩
  | none =>
    refine lookupNone.mpr fun row inRows same => ?_
    obtain ⟨source,inOps,writes⟩ := List.mem_filterMap.mp inRows
    rw [names source inOps row writes] at same
    have equal := List.inj_on_of_nodup_map nodup inOps mem (keySomeInjective same)
    rw [equal,written] at writes
    contradiction

theorem findWrittenNone (names : Names schema ops f) {key} (apart : ∀ op ∈ ops, op.key = key → f op = none) :
    find schema (ops.filterMap f) key = none := by
  refine lookupNone.mpr fun row inRows same => ?_
  obtain ⟨source,inOps,writes⟩ := List.mem_filterMap.mp inRows
  rw [names source inOps row writes] at same
  rw [apart source inOps (keySomeInjective same)] at writes
  contradiction

end Written

section Insert
variable {schema : TableSchema} {plan : ApplyPlan} (distinct : AttnumsDistinct schema) (plans : Plans schema plan)
include distinct plans

theorem insertWritten {rows : List Row} {ops : List Op} {f : Op → Option Row} (table : IsTable schema rows)
    (names : Names schema ops f) (nodup : (ops.map Op.key).Nodup)
    (absent : ∀ op ∈ ops, ∀ row, f op = some row → find schema rows op.key = none)
    (fits : ∀ op ∈ ops, ∀ row, f op = some row → row.length = schema.columns.length ∧ rowAdmitted schema row) :
    insertRows textEqual plan (ops.filterMap f) rows = .ok (rows ++ ops.filterMap f) ∧
      IsTable schema (rows ++ ops.filterMap f) := by
  have unique : UniqueKeys (rowKey schema) (rows ++ ops.filterMap f) := by
    refine uniqueAppend table.unique (writtenUnique names nodup) fun row mem => ?_
    obtain ⟨op,inOps,writes⟩ := List.mem_filterMap.mp mem
    rw [names op inOps row writes]
    exact absent op inOps row writes
  have whole : IsTable schema (rows ++ ops.filterMap f) := by
    refine ⟨fun row mem => ?_,fun row mem => ?_,unique⟩
    all_goals rcases List.mem_append.mp mem with mem | mem
    · exact table.width row mem
    · obtain ⟨op,inOps,writes⟩ := List.mem_filterMap.mp mem
      exact (fits op inOps row writes).1
    · exact table.admitted row mem
    · obtain ⟨op,inOps,writes⟩ := List.mem_filterMap.mp mem
      exact (fits op inOps row writes).2
  have fine : (ops.filterMap f).all (admitted plan) = true := by
    rw [List.all_eq_true]
    intro row mem
    rw [admittedRow plans]
    exact whole.admitted row (List.mem_append_right _ mem)
  have free : conflicts textEqual plan (rows ++ ops.filterMap f) = false :=
    (conflictsFalse distinct plans fun row mem =>
      rowKeyText distinct (whole.width row mem) (whole.admitted row mem)).mpr unique
  exact ⟨by simp only [insertRows,fine,free,not_true_eq_false,if_false,Bool.false_eq_true],whole⟩

end Insert

theorem findAppendOr (schema : TableSchema) (left right : List Row) (key : Key) :
    find schema (left ++ right) key = (find schema left key).or (find schema right key) := lookupAppend ..

section Delete
variable {schema : TableSchema} {plan : ApplyPlan} {rows : List Row} (table : IsTable schema rows) {ops : List Op}
  {joins : StagedRow → Row → Bool}
include table

theorem findDelete (kind : Op → Bool) (target : Op → Key) (joined : ∀ op ∈ ops, ∀ row,
      joins (staged plan op) row = (kind op && decide (rowKey schema row = (target op).map some))) (key : Key) :
    find schema (deleteUsing joins (ops.map (staged plan)) rows) key =
      if ∃ op ∈ ops, kind op ∧ target op = key then none else find schema rows key := by
  rw [find,lookupDeleteUsing table.unique,find]
  cases found : lookup (rowKey schema) rows (key.map some) with
  | none => simp
  | some row =>
    have hits : (ops.map (staged plan)).any (fun s => joins s row) = true ↔ ∃ op ∈ ops, kind op ∧ target op = key := by
      rw [List.any_map,List.any_eq_true]
      refine exists_congr fun op => and_congr_right fun mem => ?_
      rw [Function.comp,joined op mem,lookupKey found,Bool.and_eq_true,decide_eq_true_iff]
      exact and_congr_right fun _ => ⟨fun same => (keySomeInjective same).symm,fun same => by rw [same]⟩
    split
    · rename_i hit
      rw [Option.filter_some_neg (by rw [hits.mpr hit]; rfl)]
    · rename_i miss
      have none' : (ops.map (staged plan)).any (fun s => joins s row) = false := by
        rw [Bool.eq_false_iff,ne_eq,hits]; exact miss
      rw [Option.filter_some_pos (by rw [none']; rfl)]

theorem deleteTable (source : List StagedRow) : IsTable schema (deleteUsing joins source rows) where
  width row mem := table.width row (List.mem_of_mem_filter mem)
  admitted row mem := table.admitted row (List.mem_of_mem_filter mem)
  unique := table.unique.filter _

end Delete

theorem isOperationStaged (plan : ApplyPlan) (op : Op) (operation : StageOperation) :
    isOperation (staged plan op) operation = decide (op.operation = operation) := by
  cases h : op.operation <;> cases operation <;> simp [isOperation,staged,StageOperation.byte,h]

def updatedOf (schema : TableSchema) (ops : List Op) (row : Row) : Row :=
  ((ops.find? (fun op => decide (op.operation = .upsert) && decide (rowKey schema row = op.key.map some))).map
    (fun op => patchRow op.cells row)).getD row

theorem updatedSource (schema : TableSchema) (ops : List Op) (row : Row) : updatedOf schema ops row = row ∨
    ∃ op ∈ ops, op.operation = .upsert ∧ rowKey schema row = op.key.map some ∧
      updatedOf schema ops row = patchRow op.cells row := by
  unfold updatedOf
  cases found : ops.find? (fun op => decide (op.operation = .upsert) && decide (rowKey schema row = op.key.map some)) with
  | none => exact .inl rfl
  | some op =>
    have both := List.find?_some found
    simp only [Bool.and_eq_true,decide_eq_true_iff] at both
    exact .inr ⟨op,List.mem_of_find?_eq_some found,both.1,both.2,rfl⟩

section Steps
variable {schema : TableSchema} {plan : ApplyPlan} (distinct : AttnumsDistinct schema) (plans : Plans schema plan)
  {rows : List Row} (table : IsTable schema rows) {ops : List Op} (each : ∀ op ∈ ops, OpOk schema op)
include distinct plans each

theorem deleteJoined : ∀ op ∈ ops, ∀ row,
    (isOperation (staged plan op) .delete && holds (keyJoin textEqual plan row (staged plan op))) =
      (decide (op.operation = .delete) && decide (rowKey schema row = op.key.map some)) := by
  intro op mem row
  rw [isOperationStaged,keyJoinStaged distinct plans row (each op mem)]

theorem deleteMovedJoined : ∀ op ∈ ops, ∀ row,
    (isOperation (staged plan op) .move && holds (oldKeyJoin textEqual plan row (staged plan op))) =
      (op.isMove && decide (rowKey schema row = op.old.map some)) := by
  intro op mem row
  rw [isOperationStaged]
  by_cases move : op.isMove
  · rw [oldKeyJoinStaged distinct plans row (each op mem) move]
    rfl
  · have notMove : decide (op.operation = .move) = false := by simpa [Op.isMove] using move
    rw [notMove]
    simp [move]

theorem anyKeyJoin {op} (mem : op ∈ ops) :
    rows.any (fun row => holds (keyJoin textEqual plan row (staged plan op))) = (find schema rows op.key).isSome := by
  have joined : (fun row => holds (keyJoin textEqual plan row (staged plan op))) =
      (fun row => decide (rowKey schema row = op.key.map some)) :=
    funext fun row => keyJoinStaged distinct plans row (each op mem)
  rw [joined,find,lookup,Bool.eq_iff_iff,List.find?_isSome,List.any_eq_true]

include table

def movedOf (schema : TableSchema) (rows : List Row) (op : Op) : Option Row :=
  if op.isMove ∧ find schema rows op.key = none then (find schema rows op.old).map (patchRow op.cells) else none

theorem movedRows : ((ops.map (staged plan)).filter (isOperation · .move)).flatMap (fun s =>
    if rows.any (fun row => holds (keyJoin textEqual plan row s)) then []
    else (rows.filter (fun row => holds (oldKeyJoin textEqual plan row s))).map (movedRow plan s)) =
    ops.filterMap (movedOf schema rows) := by
  induction ops with
  | nil => rfl
  | cons op ops ih =>
    have ok := each op List.mem_cons_self
    have rest := ih (fun op mem => each op (List.mem_cons_of_mem _ mem))
    rw [List.map_cons,List.filter_cons,isOperationStaged,List.filterMap_cons]
    by_cases move : op.isMove
    · have operation : decide (op.operation = .move) = true := move
      have anyJoin : rows.any (fun row => holds (keyJoin textEqual plan row (staged plan op))) =
          (find schema rows op.key).isSome := anyKeyJoin distinct plans each List.mem_cons_self
      have joined : (fun row => holds (oldKeyJoin textEqual plan row (staged plan op))) =
          (fun row => decide (rowKey schema row = op.old.map some)) :=
        funext fun row => oldKeyJoinStaged distinct plans row ok move
      rw [if_pos operation,List.flatMap_cons,anyJoin,joined,filterKey table.unique,rest]
      cases present : find schema rows op.key with
      | some row => simp [movedOf,move,present]
      | none =>
        have moved : movedOf schema rows op = (find schema rows op.old).map (patchRow op.cells) := by
          rw [movedOf,if_pos ⟨move,present⟩]
        rw [moved,find]
        cases found : lookup (rowKey schema) rows (op.old.map some) with
        | none => simp
        | some row => simp [movedRowPatch distinct plans ok (table.width row (lookupMem found))]
    · have operation : decide (op.operation = .move) = false := by simpa [Op.isMove] using move
      rw [if_neg (by simp [operation]),rest]
      simp [movedOf,move]

def insertedOf (schema : TableSchema) (rows : List Row) (op : Op) : Option Row :=
  if op.operation = .upsert ∧ find schema rows op.key = none then some (op.cells.map cellValue) else none

omit table in
theorem insertedRows : ((ops.map (staged plan)).filter (fun s => isOperation s .upsert &&
    !rows.any (fun row => holds (keyJoin textEqual plan row s)))).map StagedRow.data =
    ops.filterMap (insertedOf schema rows) := by
  induction ops with
  | nil => rfl
  | cons op ops ih =>
    have anyJoin : rows.any (fun row => holds (keyJoin textEqual plan row (staged plan op))) =
        (find schema rows op.key).isSome := anyKeyJoin distinct plans each List.mem_cons_self
    have rest := ih (fun op mem => each op (List.mem_cons_of_mem _ mem))
    rw [List.map_cons,List.filter_cons,isOperationStaged,anyJoin,List.filterMap_cons]
    by_cases inserts : op.operation = .upsert ∧ find schema rows op.key = none
    · have condition : (decide (op.operation = .upsert) && !(find schema rows op.key).isSome) = true := by
        simp [inserts.1,inserts.2]
      rw [if_pos condition,List.map_cons,rest,insertedOf,if_pos inserts]
      rfl
    · have condition : (decide (op.operation = .upsert) && !(find schema rows op.key).isSome) = false := by
        by_cases upsert : op.operation = .upsert
        · have present : find schema rows op.key ≠ none := fun absent => inserts ⟨upsert,absent⟩
          simp [Option.isSome_iff_ne_none.mpr present]
        · simp [upsert]
      rw [if_neg (Bool.eq_false_iff.mp condition),rest,insertedOf,if_neg inserts]

theorem updatedRows : ∀ row ∈ rows, (((ops.map (staged plan)).find? (fun s =>
    isOperation s .upsert && holds (keyJoin textEqual plan row s))).map (fun s => updatedRow plan s row)).getD row =
    updatedOf schema ops row := by
  intro row inRows
  rw [List.find?_map,Option.map_map,updatedOf]
  have joined : ops.find? ((fun s => isOperation s .upsert && holds (keyJoin textEqual plan row s)) ∘ staged plan) =
      ops.find? (fun op => decide (op.operation = .upsert) && decide (rowKey schema row = op.key.map some)) := by
    refine List.find?_congr fun op mem => ?_
    rw [Function.comp,isOperationStaged,keyJoinStaged distinct plans row (each op mem)]
  rw [joined]
  cases found : ops.find? (fun op => decide (op.operation = .upsert) && decide (rowKey schema row = op.key.map some)) with
  | none => rfl
  | some op =>
    have both := List.find?_some found
    simp only [Bool.and_eq_true,decide_eq_true_iff] at both
    exact updatedRowPatch distinct plans (each op (List.mem_of_find?_eq_some found)) (table.width row inRows) both.2

omit distinct table each in
theorem updatedRowEmpty (empty : plan.copyLayout.presenceColumns = []) {op : Op} {row : Row}
    (width : row.length = schema.columns.length) : updatedRow plan (staged plan op) row = row := by
  rw [updatedRow,plans.table.length]
  conv_rhs => rw [← rowByColumns width]
  refine List.map_congr_left fun index _ => ?_
  simp [presenceOf,empty]

omit plans in
theorem updatedShape {row : Row} (inRows : row ∈ rows) :
    (updatedOf schema ops row).length = schema.columns.length ∧
      rowKey schema (updatedOf schema ops row) = rowKey schema row := by
  have width := table.width row inRows
  rcases updatedSource schema ops row with same | ⟨op,mem,_,named,same⟩
  · rw [same]; exact ⟨width,rfl⟩
  · have ok := each op mem
    rw [same,named]
    exact ⟨(patchRowLength (ok.arity.trans width.symm)).trans width,rowKeyPatch distinct ok.arity width ok.named⟩

theorem updateStepOk (fits : ∀ op ∈ ops, op.operation = .upsert → ∀ row, find schema rows op.key = some row →
      rowAdmitted schema (patchRow op.cells row)) :
    updateStep textEqual plan (ops.map (staged plan)) rows = .ok (rows.map (updatedOf schema ops)) ∧
      IsTable schema (rows.map (updatedOf schema ops)) := by
  have written : updateFrom (fun (s : StagedRow) row => isOperation s .upsert && holds (keyJoin textEqual plan row s))
      (updatedRow plan) (ops.map (staged plan)) rows = rows.map (updatedOf schema ops) :=
    List.map_congr_left (updatedRows distinct plans table each)
  have admits : ∀ row ∈ rows, rowAdmitted schema (updatedOf schema ops row) := by
    intro row inRows
    rcases updatedSource schema ops row with same | ⟨op,mem,upsert,named,same⟩
    · rw [same]; exact table.admitted row inRows
    · rw [same]
      exact fits op mem upsert row ((lookupIff table.unique).mpr ⟨inRows,named⟩)
  have shape : IsTable schema (rows.map (updatedOf schema ops)) := by
    refine ⟨?_,?_,table.unique.mapSameKey fun row mem => (updatedShape distinct table each mem).2⟩
    · intro row mem
      obtain ⟨source,inRows,rfl⟩ := List.mem_map.mp mem
      exact (updatedShape distinct table each inRows).1
    · intro row mem
      obtain ⟨source,inRows,rfl⟩ := List.mem_map.mp mem
      exact admits source inRows
  refine ⟨?_,shape⟩
  unfold updateStep
  by_cases empty : plan.copyLayout.presenceColumns = []
  · rw [if_pos (by simp [empty])]
    congr 1
    refine ((List.map_congr_left fun row inRows => ?_).trans (List.map_id rows)).symm
    rw [← updatedRows distinct plans table each row inRows,List.find?_map,Option.map_map]
    cases ops.find? ((fun s => isOperation s .upsert && holds (keyJoin textEqual plan row s)) ∘ staged plan) with
    | none => rfl
    | some op => exact updatedRowEmpty plans empty (table.width row inRows)
  · rw [if_neg (by simpa using empty)]
    have fine : (updateFrom (fun (s : StagedRow) row => isOperation s .upsert && holds (keyJoin textEqual plan row s))
        (updatedRow plan) (ops.map (staged plan)) (rows.filter (fun row => (ops.map (staged plan)).any (fun s =>
          isOperation s .upsert && holds (keyJoin textEqual plan row s))))).all (admitted plan) = true := by
      rw [List.all_eq_true]
      intro row mem
      obtain ⟨source,inRows,rfl⟩ := List.mem_map.mp mem
      rw [updatedRows distinct plans table each source (List.mem_of_mem_filter inRows),admittedRow plans]
      exact admits source (List.mem_of_mem_filter inRows)
    simp only [fine,written,not_true_eq_false,if_false]

omit plans in
theorem updateHit (nodup : (ops.map Op.key).Nodup) {op row} (mem : op ∈ ops) (upsert : op.operation = .upsert)
    (present : find schema rows op.key = some row) :
    find schema (rows.map (updatedOf schema ops)) op.key = some (patchRow op.cells row) := by
  rw [find,lookupMapSameKey fun row mem => (updatedShape distinct table each mem).2]
  unfold find at present
  rw [present,Option.map_some,updatedOf,lookupKey present]
  have found : ops.find? (fun other => decide (other.operation = .upsert) &&
      decide (op.key.map some = other.key.map some)) = some op := by
    cases search : ops.find? (fun other => decide (other.operation = .upsert) &&
        decide (op.key.map some = other.key.map some)) with
    | none => exact absurd (List.find?_eq_none.mp search op mem) (by simp [upsert])
    | some other =>
      have both := List.find?_some search
      simp only [Bool.and_eq_true,decide_eq_true_iff] at both
      exact congrArg some (List.inj_on_of_nodup_map nodup (List.mem_of_find?_eq_some search) mem
        (keySomeInjective both.2).symm)
  rw [found]
  rfl

omit plans in
theorem updateMiss {key} (apart : ∀ op ∈ ops, op.operation = .upsert → op.key ≠ key) :
    find schema (rows.map (updatedOf schema ops)) key = find schema rows key := by
  rw [find,lookupMapSameKey fun row mem => (updatedShape distinct table each mem).2,find]
  cases present : lookup (rowKey schema) rows (key.map some) with
  | none => rfl
  | some row =>
    rcases updatedSource schema ops row with same | ⟨op,mem,upsert,named,_⟩
    · rw [Option.map_some,same]
    · rw [lookupKey present] at named
      exact absurd (keySomeInjective named).symm (apart op mem upsert)

end Steps

end CloudberryEtl.SetStatements
