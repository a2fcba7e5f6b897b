import CloudberryEtl.Replay

/-! The staged statements at the level of keys, for a target whose equality on key columns is equality of the text.
A well formed operation is staged as one row, joins exactly the rows with its key, and writes the patched row. -/
namespace CloudberryEtl.StagedSteps
open Schema Change TablePlan CopyText StagedApply SqlLogic KeyedTable Result Normalize KeyLayout Replay

def textEqual : Nat → Bytes → Bytes → Bool := fun _ left right => left == right

structure Op where
  operation : StageOperation
  old : Key
  key : Key
  cells : List Cell
  deriving DecidableEq, Repr

def Op.isMove (op : Op) : Bool := op.operation = .move

def Op.row (op : Op) : StagingRow := ⟨op.operation,op.cells,if op.isMove then some (keyCells op.old) else none⟩

structure OpOk (schema : TableSchema) (op : Op) : Prop where
  arity : op.cells.length = schema.columns.length
  plain : ∀ octets, Cell.binary octets ∉ op.cells
  named : (keyPositions schema).map (cellAt op.cells) = keyCells op.key
  oldLength : op.isMove → op.old.length = (keyPositions schema).length

def staged (plan : ApplyPlan) (op : Op) : StagedRow where
  operation := [op.operation.byte]
  data := op.cells.map cellValue
  present := plan.copyLayout.presenceColumns.map (isPresent op.cells)
  oldKeyPresent := op.isMove
  oldKey := if op.isMove then op.old.map some else plan.copyLayout.oldKeyColumns.map (fun _ => none)

theorem findNoneOfForall {α : Type} {p : α → Bool} {xs : List α} (none' : ∀ x ∈ xs, p x = false) : xs.find? p = none := by
  simpa using none'

theorem encodeRowOk {cells : List Cell} (some' : cells ≠ []) (plain : ∀ cell ∈ cells, cell = .null ∨ ∃ v, cell = .text v) :
    ∃ bytes, encodeRow cells = .ok bytes := by
  have field : ∀ cell ∈ cells, ∃ bytes, encodeField cell = .ok bytes := by
    intro cell mem
    rcases plain cell mem with rfl | ⟨value,rfl⟩
    · exact ⟨_,rfl⟩
    · exact ⟨_,rfl⟩
  have rest : ∀ tail : List Cell, (∀ cell ∈ tail, ∃ bytes, encodeField cell = .ok bytes) →
      ∃ bytes, encodeRest tail = .ok bytes := by
    intro tail
    induction tail with
    | nil => exact fun _ => ⟨[],rfl⟩
    | cons cell tail ih =>
      intro each
      obtain ⟨head,hh⟩ := each cell List.mem_cons_self
      obtain ⟨bytes,ht⟩ := ih (fun cell mem => each cell (List.mem_cons_of_mem _ mem))
      exact ⟨_,bindOk.mpr ⟨head,hh,bindOk.mpr ⟨bytes,ht,rfl⟩⟩⟩
  cases cells with
  | nil => exact absurd rfl some'
  | cons first tail =>
    obtain ⟨head,hh⟩ := field first List.mem_cons_self
    obtain ⟨bytes,ht⟩ := rest tail (fun cell mem => field cell (List.mem_cons_of_mem _ mem))
    exact ⟨_,bindOk.mpr ⟨head,hh,bindOk.mpr ⟨bytes,ht,rfl⟩⟩⟩

theorem keyCellText {schema : TableSchema} {op} (ok : OpOk schema op) {index} (mem : index ∈ keyPositions schema) :
    ∃ value, cellAt op.cells index = .text value := by
  have text : cellAt op.cells index ∈ keyCells op.key := ok.named ▸ List.mem_map_of_mem mem
  obtain ⟨value,_,same⟩ := List.mem_map.mp text
  exact ⟨value,same.symm⟩

theorem OpOk.keyLength {schema : TableSchema} {op} (ok : OpOk schema op) :
    op.key.length = (keyPositions schema).length := by
  simpa [keyCells] using (congrArg List.length ok.named).symm

theorem cellAtFound {cells : List Cell} {index : Nat} {cell} (found : cells[index]? = some cell) :
    cellAt cells index = cell := by simp [cellAt,List.getD_eq_getElem?_getD,found]

def stagedOldKey (plan : ApplyPlan) (op : Op) : List Cell :=
  if op.isMove then keyCells op.old else plan.copyLayout.oldKeyColumns.map (fun _ => .null)

def opFields (plan : ApplyPlan) (op : Op) : List Cell :=
  .text [op.operation.byte] :: op.cells.map materialize ++
    plan.copyLayout.presenceColumns.map (fun presence => flag (isPresent op.cells presence)) ++
    flag op.isMove :: stagedOldKey plan op

section Staging
variable {schema : TableSchema} {plan : ApplyPlan} (distinct : AttnumsDistinct schema) (plans : Plans schema plan)
include distinct plans

theorem keyCellsPresent {op} (ok : OpOk schema op) :
    (plan.table.columns.zip op.cells).find? (fun (column,cell) =>
      column.primaryKeyOrdinal.isSome && absentCell cell) = none := by
  refine findNoneOfForall ?_
  rintro ⟨planned,cell⟩ mem
  obtain ⟨index,found⟩ := List.getElem?_of_mem mem
  obtain ⟨atPlan,atCell⟩ := List.getElem?_zip_eq_some.mp found
  obtain ⟨column,sql,atSchema,rfl⟩ := planColumnSource plans.table atPlan
  by_cases isKey : column.isKey
  · obtain ⟨value,text⟩ := keyCellText ok ((memKeyPositions distinct).mpr ⟨column,atSchema,isKey⟩)
    have text : cell = .text value := (cellAtFound atCell).symm.trans text
    simp [text,absentCell]
  · have plainColumn : column.primaryKeyOrdinal.isSome = false := by simpa [ColumnSchema.isKey] using isKey
    simp [columnPlan,plainColumn]

omit distinct plans in
theorem oldCellsPresent (columns : List OldKeyColumn) (key : Key) :
    (columns.zip (keyCells key)).find? (fun (_,cell) => absentCell cell) = none := by
  refine findNoneOfForall ?_
  rintro ⟨column,cell⟩ mem
  obtain ⟨value,_,rfl⟩ := List.mem_map.mp (List.of_mem_zip mem).2
  rfl

theorem stagingFieldsOk {op} (ok : OpOk schema op) : stagingFields plan op.row = .ok (opFields plan op) := by
  have arity : op.row.cells.length = plan.table.columns.length := ok.arity.trans plans.table.length.symm
  have present : (plan.table.columns.zip op.row.cells).find? (fun (column,cell) =>
      column.primaryKeyOrdinal.isSome && absentCell cell) = none := keyCellsPresent distinct plans ok
  unfold stagingFields
  simp only [arity,not_true_eq_false,if_false,present,ne_eq]
  by_cases move : op.isMove
  · have operation : op.row.operation = .move := by simpa [Op.isMove,Op.row] using move
    have oldKey : op.row.oldKey = some (keyCells op.old) := by simp [Op.row,move]
    have lengths : (keyCells op.old).length = plan.copyLayout.oldKeyColumns.length := by
      rw [keyCells,List.length_map,ok.oldLength move,keyPositionsLength,plans.oldKeys]
    simp only [operation,oldKey,lengths,not_true_eq_false,if_false,oldCellsPresent]
    simp [stagingFields.fields,opFields,stagedOldKey,move,Op.row]
  · have oldKey : op.row.oldKey = none := by simp [Op.row,move]
    have fields : stagingFields.fields plan op.row (plan.copyLayout.oldKeyColumns.map (fun _ => .null)) =
        opFields plan op := by
      simp [stagingFields.fields,opFields,stagedOldKey,move,Op.row]
    have notMove : op.row.operation ≠ .move := by simpa [Op.isMove,Op.row] using move
    cases operation : op.row.operation with
    | upsert => simp only [oldKey,fields]
    | delete => simp only [oldKey,fields]
    | move => exact absurd operation notMove

omit distinct plans in
theorem opFieldsPlain {op} (ok : OpOk schema op) : ∀ cell ∈ opFields plan op, cell = .null ∨ ∃ v, cell = .text v := by
  intro cell mem
  simp only [opFields,List.mem_append,List.mem_cons,List.mem_map] at mem
  rcases mem with ((rfl | ⟨source,inCells,rfl⟩) | ⟨presence,_,rfl⟩) | rfl | old
  · exact .inr ⟨_,rfl⟩
  · cases source with
    | null => exact .inl rfl
    | unchangedToast => exact .inl rfl
    | text value => exact .inr ⟨value,rfl⟩
    | binary value => exact absurd inCells (ok.plain value)
  · exact .inr ⟨_,rfl⟩
  · exact .inr ⟨_,rfl⟩
  · unfold stagedOldKey at old
    split at old
    · obtain ⟨value,_,rfl⟩ := List.mem_map.mp old
      exact .inr ⟨value,rfl⟩
    · obtain ⟨_,_,rfl⟩ := List.mem_map.mp old
      exact .inl rfl

omit distinct plans in
theorem storeStagedAt {operation : StageOperation} {data old : List (Option Bytes)} {flags : List Bool}
    (dataLength : data.length = plan.table.columns.length)
    (flagsLength : flags.length = plan.copyLayout.presenceColumns.length + 1)
    (oldLength : old.length = plan.copyLayout.oldKeyColumns.length) :
    storeStaged plan (some [operation.byte] :: (data ++ (flags.map (fun value => cellValue (flag value)) ++ old))) =
      .ok ⟨[operation.byte],data,flags.take plan.copyLayout.presenceColumns.length,
        flags.getD plan.copyLayout.presenceColumns.length false,old⟩ := by
  have known : ¬ ([operation.byte] ≠ [85] ∧ [operation.byte] ≠ [68] ∧ [operation.byte] ≠ [77]) := by
    cases operation <;> simp [StageOperation.byte]
  have readFlags : (flags.map (fun value => cellValue (flag value))).mapM readBool = .ok flags := by
    refine mapMOk.mpr (List.forall₂_map_left_iff.mpr (List.forall₂_same.mpr fun value _ => ?_))
    cases value <;> rfl
  have width : (some [operation.byte] :: (data ++ (flags.map (fun value => cellValue (flag value)) ++ old))).length =
      2 + plan.table.columns.length + plan.copyLayout.presenceColumns.length + plan.copyLayout.oldKeyColumns.length := by
    simp only [List.length_cons,List.length_append,List.length_map,dataLength,flagsLength,oldLength]
    omega
  have afterData : (data ++ (flags.map (fun value => cellValue (flag value)) ++ old)).drop plan.table.columns.length =
      flags.map (fun value => cellValue (flag value)) ++ old := List.drop_left' dataLength
  have ofFlags : (flags.map (fun value => cellValue (flag value)) ++ old).take
      (plan.copyLayout.presenceColumns.length + 1) = flags.map (fun value => cellValue (flag value)) :=
    List.take_left' (by simpa using flagsLength)
  have ofOld : (data ++ (flags.map (fun value => cellValue (flag value)) ++ old)).drop
      (plan.table.columns.length + plan.copyLayout.presenceColumns.length + 1) = old := by
    rw [Nat.add_assoc,← List.drop_drop,afterData]
    exact List.drop_left' (by simpa using flagsLength)
  unfold storeStaged
  simp only [width,ne_eq,not_true_eq_false,if_false,afterData,ofFlags,readFlags,ofOld,List.take_left' dataLength]
  rw [if_neg known]
  rfl

omit distinct in
theorem storeStagedOk {op} (ok : OpOk schema op) :
    storeStaged plan ((opFields plan op).map cellValue) = .ok (staged plan op) := by
  let flags : List Bool := plan.copyLayout.presenceColumns.map (isPresent op.cells) ++ [op.isMove]
  have materialized : (op.cells.map materialize).map cellValue = op.cells.map cellValue := by
    rw [List.map_map]
    exact List.map_congr_left (fun cell _ => by cases cell <;> rfl)
  have oldValues : (stagedOldKey plan op).map cellValue = (staged plan op).oldKey := by
    by_cases move : op.isMove
    · simp [stagedOldKey,staged,move,keyCells,Function.comp_def,cellValue]
    · simp [stagedOldKey,staged,move,cellValue]
  have line : (opFields plan op).map cellValue = some [op.operation.byte] ::
      (op.cells.map cellValue ++ (flags.map (fun value => cellValue (flag value)) ++ (staged plan op).oldKey)) := by
    rw [← materialized,← oldValues]
    simp [opFields,flags,cellValue]
  have oldLength : (staged plan op).oldKey.length = plan.copyLayout.oldKeyColumns.length := by
    by_cases move : op.isMove
    · simp [staged,move,ok.oldLength move,keyPositionsLength,plans.oldKeys]
    · simp [staged,move]
  rw [line,storeStagedAt (by simp [ok.arity,plans.table.length]) (by simp [flags]) oldLength]
  have size : plan.copyLayout.presenceColumns.length =
      (plan.copyLayout.presenceColumns.map (isPresent op.cells)).length := by simp
  congr 1
  simp only [flags,staged,StagedRow.mk.injEq,true_and,and_true]
  refine ⟨by rw [size,List.take_left'] ; rfl,by simp⟩

/-- A list of well formed operations is stored in the staging table as it is. -/
theorem copyInOps {ops : List Op} (each : ∀ op ∈ ops, OpOk schema op) :
    copyIn plan (ops.map Op.row) = .ok (ops.map (staged plan)) := by
  have encoded : ∀ op ∈ ops, ∃ bytes, encodeRow (opFields plan op) = .ok bytes :=
    fun op mem => encodeRowOk (by simp [opFields]) (opFieldsPlain (each op mem))
  have chunks : ∃ chunks, (ops.map Op.row).mapM (encodeStagingRow plan) = .ok chunks ∧
      List.Forall₂ (fun fields bytes => encodeRow fields = .ok bytes) (ops.map (opFields plan)) chunks := by
    induction ops with
    | nil => exact ⟨[],rfl,.nil⟩
    | cons op ops ih =>
      obtain ⟨bytes,encodes⟩ := encoded op List.mem_cons_self
      obtain ⟨rest,tail,related⟩ := ih (fun op mem => each op (List.mem_cons_of_mem _ mem))
        (fun op mem => encoded op (List.mem_cons_of_mem _ mem))
      have head : encodeStagingRow plan op.row = .ok bytes :=
        bindOk.mpr ⟨_,stagingFieldsOk distinct plans (each op List.mem_cons_self),mapErrorOk.mpr encodes⟩
      refine ⟨bytes :: rest,?_,.cons encodes related⟩
      rw [List.map_cons,List.mapM_cons]
      exact bindOk.mpr ⟨bytes,head,bindOk.mpr ⟨rest,tail,rfl⟩⟩
  obtain ⟨chunks,ok,related⟩ := chunks
  refine bindOk.mpr ⟨chunks,ok,?_⟩
  rw [decodeStreamRows related,mapMOk]
  simp only [List.map_map,List.forall₂_map_left_iff,List.forall₂_map_right_iff,List.forall₂_same]
  exact fun op mem => storeStagedOk plans (each op mem)

end Staging

theorem zipMapFind {α β : Type} (f : α → β) (p : α → Bool) (xs : List α) :
    ((xs.zip (xs.map f)).find? (fun (x,_) => p x)).map Prod.snd = (xs.find? p).map f := by
  induction xs with
  | nil => rfl
  | cons x xs ih =>
    by_cases here : p x
    · simp [here]
    · simpa [here] using ih

theorem presenceOfStaged (plan : ApplyPlan) (op : Op) (index : Nat) : presenceOf plan (staged plan op) index =
    (plan.copyLayout.presenceColumns.find? (fun presence => presence.sourceColumnIndex = index)).map
      (isPresent op.cells) :=
  zipMapFind (isPresent op.cells) (fun presence => presence.sourceColumnIndex = index) plan.copyLayout.presenceColumns

section Columns
variable {schema : TableSchema} {plan : ApplyPlan} (distinct : AttnumsDistinct schema) (plans : Plans schema plan)
include distinct plans

omit distinct in
theorem presenceColumnAt {presence} (mem : presence ∈ plan.copyLayout.presenceColumns) :
    ∃ column, schema.columns[presence.sourceColumnIndex]? = some column ∧ ¬ column.isKey := by
  obtain ⟨control,columns⟩ := plans.presence
  rw [columns] at mem
  obtain ⟨⟨planned,index⟩,inside,rfl⟩ := List.mem_map.mp mem
  obtain ⟨inZip,notKey⟩ := List.mem_filter.mp inside
  have found : plan.table.columns[index]? = some planned := by
    simpa using List.mem_zipIdx_iff_getElem?.mp inZip
  obtain ⟨column,sql,atSchema,rfl⟩ := planColumnSource plans.table found
  refine ⟨column,atSchema,fun isKey => ?_⟩
  have named := (keyNameIff plans (List.mem_of_getElem? atSchema)).mpr isKey
  simp [columnPlan,named] at notKey

theorem presenceKey {op index} (mem : index ∈ keyPositions schema) : presenceOf plan (staged plan op) index = none := by
  rw [presenceOfStaged]
  have none' : plan.copyLayout.presenceColumns.find? (fun presence => presence.sourceColumnIndex = index) = none := by
    refine findNoneOfForall fun presence inside => ?_
    obtain ⟨column,found,notKey⟩ := presenceColumnAt plans inside
    obtain ⟨keyColumn,keyFound,isKey⟩ := (memKeyPositions distinct).mp mem
    by_contra same
    have same : presence.sourceColumnIndex = index := by simpa using same
    rw [same,keyFound] at found
    cases Option.some.inj found
    exact notKey isKey
  rw [none']
  rfl

theorem presenceData {op index} (ok : OpOk schema op) (apart : index ∉ keyPositions schema)
    (bound : index < schema.columns.length) :
    presenceOf plan (staged plan op) index = some (cellAt op.cells index != .unchangedToast) := by
  rw [presenceOfStaged]
  have exists' : ∃ presence ∈ plan.copyLayout.presenceColumns, presence.sourceColumnIndex = index := by
    obtain ⟨control,columns⟩ := plans.presence
    have planBound : index < plan.table.columns.length := plans.table.length ▸ bound
    obtain ⟨column,sql,atSchema,same⟩ := planColumnSource plans.table (List.getElem?_eq_getElem planBound)
    have notKey : ¬ column.isKey := fun isKey => apart ((memKeyPositions distinct).mpr ⟨column,atSchema,isKey⟩)
    have unnamed : plan.table.columns[index].name ∉ plan.table.primaryKey := by
      rw [same]
      exact fun named => notKey ((keyNameIff plans (List.mem_of_getElem? atSchema)).mp named)
    rw [columns]
    refine ⟨_,List.mem_map.mpr ⟨(plan.table.columns[index],index),List.mem_filter.mpr ⟨?_,by simpa using unnamed⟩,rfl⟩,rfl⟩
    rw [List.mem_zipIdx_iff_getElem?]
    simp [planBound]
  obtain ⟨presence,mem,same⟩ := exists'
  cases found : plan.copyLayout.presenceColumns.find? (fun presence => presence.sourceColumnIndex = index) with
  | none => exact absurd same (by simpa using List.find?_eq_none.mp found presence mem)
  | some other =>
    have here : other.sourceColumnIndex = index := by simpa using List.find?_some found
    have inside : index < op.cells.length := by rw [ok.arity]; exact bound
    simp [isPresent,here,cellAt,inside,bne]

end Columns

theorem dataColumn {op : Op} {index : Nat} (bound : index < op.cells.length) :
    column (op.cells.map cellValue) index = cellValue (cellAt op.cells index) := by
  simp [column,cellAt,List.getD_eq_getElem?_getD,bound]

theorem rowByColumns {width : Nat} {row : Row} (length : row.length = width) :
    (List.range width).map (column row) = row := by
  refine List.ext_getElem? fun index => ?_
  by_cases bound : index < row.length
  · simp [column,List.getD_eq_getElem?_getD,bound,← length]
  · simp [← length,Nat.le_of_not_lt bound]

theorem dataPatch {schema : TableSchema} {op : Op} {index : Nat} (ok : OpOk schema op) (bound : index < schema.columns.length)
    (present : cellAt op.cells index ≠ .unchangedToast) (previous : Option Bytes) :
    column (op.cells.map cellValue) index = patchValue previous (cellAt op.cells index) := by
  have inside : index < op.cells.length := by rw [ok.arity]; exact bound
  rw [dataColumn inside]
  cases cell : cellAt op.cells index with
  | null => rfl
  | unchangedToast => exact absurd cell present
  | text value => rfl
  | binary value =>
    have mem : Cell.binary value ∈ op.cells := by
      simp only [cellAt,List.getD_eq_getElem?_getD,List.getElem?_eq_getElem inside,Option.getD_some] at cell
      exact cell ▸ List.getElem_mem inside
    exact absurd mem (ok.plain value)

section Rows
variable {schema : TableSchema} {plan : ApplyPlan} (distinct : AttnumsDistinct schema) (plans : Plans schema plan)
include distinct plans

theorem movedRowPatch {op : Op} (ok : OpOk schema op) {base : Row} (width : base.length = schema.columns.length) :
    movedRow plan (staged plan op) base = patchRow op.cells base := by
  rw [movedRow,plans.table.length,← rowByColumns ((patchRowLength (ok.arity.trans width.symm)).trans width)]
  refine List.map_congr_left fun index mem => ?_
  have bound := List.mem_range.mp mem
  rw [columnPatch (ok.arity.trans width.symm) (width ▸ bound)]
  by_cases isKey : index ∈ keyPositions schema
  · obtain ⟨value,text⟩ := keyCellText ok isKey
    rw [presenceKey distinct plans isKey]
    exact dataPatch ok bound (by simp [text]) _
  · rw [presenceData distinct plans ok isKey bound]
    by_cases toast : cellAt op.cells index = .unchangedToast
    · simp [toast,patchValue]
    · have present : (cellAt op.cells index != .unchangedToast) = true := by simpa using toast
      simp only [present]
      exact dataPatch ok bound toast _

theorem updatedRowPatch {op : Op} (ok : OpOk schema op) {base : Row} (width : base.length = schema.columns.length)
    (named : rowKey schema base = op.key.map some) : updatedRow plan (staged plan op) base = patchRow op.cells base := by
  rw [updatedRow,plans.table.length,← rowByColumns ((patchRowLength (ok.arity.trans width.symm)).trans width)]
  refine List.map_congr_left fun index mem => ?_
  have bound := List.mem_range.mp mem
  rw [columnPatch (ok.arity.trans width.symm) (width ▸ bound)]
  by_cases isKey : index ∈ keyPositions schema
  · -- the key cell repeats the key of the row it joined
    obtain ⟨ordinal,place⟩ := List.getElem?_of_mem isKey
    have text := congrArg (fun list => list[ordinal]?) ok.named
    have value := congrArg (fun list => list[ordinal]?) named
    simp only [List.getElem?_map,place,Option.map_some,rowKey,keyCells] at text value
    rw [presenceKey distinct plans isKey]
    cases atKey : op.key[ordinal]? with
    | none => simp [atKey] at text
    | some octets =>
      simp only [atKey,Option.map_some,Option.some.injEq] at text value
      simp [text,value,patchValue]
  · rw [presenceData distinct plans ok isKey bound]
    by_cases toast : cellAt op.cells index = .unchangedToast
    · simp [toast,patchValue]
    · have present : (cellAt op.cells index != .unchangedToast) = true := by simpa using toast
      simp only [present]
      exact dataPatch ok bound toast _

end Rows

end CloudberryEtl.StagedSteps
