import CloudberryEtl.KeyLayout

/-! What a batch of row events means: the events applied one after the other to a table. A table is a finite map from
primary keys to rows, held as a list whose order does not matter. This is the reference the fold and the staged
statements are compared with, so nothing here is taken from them. -/
namespace CloudberryEtl.Replay
open Schema Change StagedApply KeyedTable Normalize KeyLayout Result

def rowKey (schema : TableSchema) (row : Row) : List (Option Bytes) := (keyPositions schema).map (column row)

def find (schema : TableSchema) (rows : List Row) (key : Key) : Option Row :=
  lookup (rowKey schema) rows (key.map some)

def rowAdmitted (schema : TableSchema) (row : Row) : Bool :=
  (schema.columns.zip row).all (fun (column,value) => (column.nullable && !column.isKey) || value.isSome)

structure IsTable (schema : TableSchema) (rows : List Row) : Prop where
  width : ∀ row ∈ rows, row.length = schema.columns.length
  admitted : ∀ row ∈ rows, rowAdmitted schema row
  unique : UniqueKeys (rowKey schema) rows

structure TableContent (schema : TableSchema) where
  rows : List Row
  valid : IsTable schema rows

def patchValue (previous : Option Bytes) : Cell → Option Bytes
  | .null => none
  | .unchangedToast => previous
  | .text value | .binary value => some value

def patchRow (cells : List Cell) (previous : Row) : Row := List.zipWith patchValue previous cells

def textValue : Cell → Option Bytes
  | .text value => some value
  | _ => none

def fullKey (schema : TableSchema) (cells : List Cell) : Option Key :=
  (keyPositions schema).mapM (fun index => textValue (cellAt cells index))

-- A key-only tuple lists the key columns in relation order.
def widen : List ColumnSchema → List Cell → List Cell
  | [],_ => []
  | column :: columns,cells =>
      if column.isKey then cells.headD .null :: widen columns cells.tail else .null :: widen columns cells

def oldTupleKey (schema : TableSchema) (tuple : Tuple) : Option Key :=
  if tuple.cells.length = schema.columns.length then fullKey schema tuple.cells
  else if tuple.cells.length = schema.primaryKey.length then fullKey schema (widen schema.columns tuple.cells)
  else none

def updateKey (schema : TableSchema) (oldKey : Option Key) (cells : List Cell) : Option Key :=
  (keyPositions schema).zipIdx.mapM (fun (index,ordinal) =>
    match cellAt cells index with
    | .unchangedToast => oldKey.bind (fun key => key[ordinal]?)
    | cell => textValue cell)

def remove (schema : TableSchema) (rows : List Row) (key : Key) : List Row :=
  rows.filter (fun row => rowKey schema row ≠ key.map some)

def add (schema : TableSchema) (rows : List Row) (key : Key) (row : Row) : Option (List Row) :=
  if find schema rows key = none ∧ rowAdmitted schema row then some (rows ++ [row]) else none

def explicitOldKey (schema : TableSchema) : Option Tuple → Option (Option Key)
  | none => some none
  | some tuple => (oldTupleKey schema tuple).map some

def newRow (cells : List Cell) : Row := patchRow cells (List.replicate cells.length none)

def applyRow (schema : TableSchema) (rows : List Row) : RowChange → Option (List Row)
  | .insert new => do
      let key ← fullKey schema new.cells
      if new.cells.length = schema.columns.length ∧ .unchangedToast ∉ new.cells then
        add schema rows key (newRow new.cells)
      else none
  | .update old new => do
      let oldKey ← explicitOldKey schema old
      let newKey ← updateKey schema oldKey new.cells
      let row ← find schema rows (oldKey.getD newKey)
      if new.cells.length = schema.columns.length then
        add schema (remove schema rows (oldKey.getD newKey)) newKey (patchRow new.cells row)
      else none
  | .delete old => do
      let key ← oldTupleKey schema old
      if (find schema rows key).isSome then some (remove schema rows key) else none

def replayChange (schema : TableSchema) (rows : List Row) (change : TableChange) : Option (List Row) :=
  if change.relationId = schema.relationId ∧ change.generation = schema.generation then
    applyRow schema rows change.change
  else none

def replay (schema : TableSchema) (rows : List Row) (changes : List TableChange) : Option (List Row) :=
  changes.foldlM (replayChange schema) rows

theorem fullKeyIff {schema cells key} :
    fullKey schema cells = some key ↔ (keyPositions schema).map (cellAt cells) = keyCells key := by
  unfold fullKey keyCells
  generalize keyPositions schema = positions
  rw [mapMSome]
  constructor
  · intro each
    induction each with
    | nil => rfl
    | @cons index value _ _ head tail ih =>
      cases cell : cellAt cells index <;> simp_all [textValue]
  · intro same
    induction positions generalizing key with
    | nil => cases key <;> simp_all
    | cons index positions ih =>
      cases key with
      | nil => simp at same
      | cons value key =>
        simp only [List.map_cons,List.cons.injEq] at same
        exact .cons (by simp [same.1,textValue]) (ih same.2)

structure UpdateCell (oldKey : Option Key) (cells : List Cell) (index ordinal : Nat) (value : Bytes) : Prop where
  source : cellAt cells index = .text value ∨
    (cellAt cells index = .unchangedToast ∧ ∃ key, oldKey = some key ∧ key[ordinal]? = some value)

theorem updateKeySource {schema oldKey cells key} (some' : updateKey schema oldKey cells = some key) :
    List.Forall₂ (fun place value => UpdateCell oldKey cells place.1 place.2 value)
      (keyPositions schema).zipIdx key := by
  refine (mapMSome.mp some').imp ?_
  rintro ⟨index,ordinal⟩ value found
  refine ⟨?_⟩
  simp only at found ⊢
  split at found
  · rename_i toast
    obtain ⟨old,same,at'⟩ := Option.bind_eq_some_iff.mp found
    exact .inr ⟨toast,old,same,at'⟩
  · cases cell : cellAt cells index <;> simp_all [textValue]

theorem patchRowLength {cells previous} (same : cells.length = previous.length) :
    (patchRow cells previous).length = previous.length := by simp [patchRow,same]

theorem columnPatch {cells : List Cell} {previous : Row} (same : cells.length = previous.length) {index : Nat}
    (bound : index < previous.length) :
    column (patchRow cells previous) index = patchValue (column previous index) (cellAt cells index) := by
  have bound' : index < cells.length := by omega
  simp [column,cellAt,patchRow,List.getD_eq_getElem?_getD,bound,bound']

theorem patchValuePatch (previous : Option Bytes) (stored incoming : Cell) :
    patchValue previous (patchCell stored incoming) = patchValue (patchValue previous stored) incoming := by
  cases incoming <;> rfl

theorem patchRowPatch (base : Row) (stored incoming : List Cell) :
    patchRow (List.zipWith patchCell stored incoming) base = patchRow incoming (patchRow stored base) := by
  unfold patchRow
  induction base generalizing stored incoming with
  | nil => simp
  | cons value base ih =>
    cases stored with
    | nil => simp
    | cons cell stored =>
      cases incoming with
      | nil => simp
      | cons other incoming => simp [patchValuePatch,ih]

theorem patchRowComplete {cells : List Cell} (complete : Cell.unchangedToast ∉ cells) {left right : Row}
    (same : left.length = right.length) : patchRow cells left = patchRow cells right := by
  unfold patchRow
  induction cells generalizing left right with
  | nil => simp
  | cons cell cells ih =>
    obtain ⟨here,rest⟩ := not_or.mp (List.mem_cons.not.mp complete)
    cases left with
    | nil => cases right <;> simp_all
    | cons l left =>
      cases right with
      | nil => simp at same
      | cons r right =>
        have head : patchValue l cell = patchValue r cell := by cases cell <;> first | rfl | exact absurd rfl here
        simp [head,ih rest (by simpa using same)]

theorem widenAt {columns : List ColumnSchema} {index column} (found : columns[index]? = some column)
    (isKey : column.isKey) (start : Nat) (cells : List Cell) :
    cellAt (widen columns cells) index = cellAt cells
      ((((columns.zipIdx start).filter (fun (column,_) => column.isKey)).map Prod.snd).findIdx (· = start + index)) := by
  induction columns generalizing index start cells with
  | nil => simp at found
  | cons head tail ih =>
    have next := fun index found => @ih index found (start + 1)
    cases index with
    | zero =>
      cases Option.some.inj found
      cases cells <;> simp [widen,isKey,cellAt,List.findIdx_cons]
    | succ index =>
      have step := next index found
      have shift : start + 1 + index = start + (index + 1) := by omega
      rw [shift] at step
      by_cases headKey : head.isKey
      · have apart : start ≠ start + (index + 1) := by omega
        cases cells with
        | nil => simpa [widen,headKey,cellAt,List.findIdx_cons,apart] using step []
        | cons cell cells => simpa [widen,headKey,cellAt,List.findIdx_cons,apart] using step cells
      · simpa [widen,headKey,cellAt] using step cells

section Rows
variable {schema : TableSchema} (distinct : AttnumsDistinct schema)
include distinct

theorem rowKeyPatch {cells row key} (arity : cells.length = schema.columns.length)
    (width : row.length = schema.columns.length) (full : (keyPositions schema).map (cellAt cells) = keyCells key) :
    rowKey schema (patchRow cells row) = key.map some := by
  have texts : ∀ index ∈ keyPositions schema, column (patchRow cells row) index = CopyText.cellValue (cellAt cells index) := by
    intro index mem
    rw [columnPatch (arity.trans width.symm) (width ▸ keyPositionsLt distinct mem)]
    have text : cellAt cells index ∈ keyCells key := full ▸ List.mem_map_of_mem mem
    obtain ⟨value,_,same⟩ := List.mem_map.mp text
    rw [← same]
    rfl
  calc rowKey schema (patchRow cells row)
      = (keyPositions schema).map (fun index => CopyText.cellValue (cellAt cells index)) := List.map_congr_left texts
    _ = ((keyPositions schema).map (cellAt cells)).map CopyText.cellValue := by rw [List.map_map]; rfl
    _ = key.map some := by rw [full,keyCells,List.map_map]; rfl

theorem rowKeyUpdate {oldKey cells row newKey} (arity : cells.length = schema.columns.length)
    (width : row.length = schema.columns.length) (updated : updateKey schema oldKey cells = some newKey)
    (before : rowKey schema row = (oldKey.getD newKey).map some) :
    rowKey schema (patchRow cells row) = newKey.map some := by
  have source := updateKeySource updated
  have lengths : (keyPositions schema).length = newKey.length := by simpa using source.length_eq
  refine List.ext_getElem? fun ordinal => ?_
  cases place : (keyPositions schema)[ordinal]? with
  | none =>
    have past : newKey[ordinal]? = none := by
      rw [List.getElem?_eq_none_iff] at place ⊢; omega
    simp [rowKey,place,past]
  | some index =>
    have position : (keyPositions schema).zipIdx[ordinal]? = some (index,ordinal) := by
      simp [List.getElem?_zipIdx,place]
    obtain ⟨value,atNew,⟨cell⟩⟩ := relatedAt source position
    have bound := keyPositionsLt distinct (List.mem_of_getElem? place)
    simp only [rowKey,List.getElem?_map,place,atNew,Option.map_some,
      columnPatch (arity.trans width.symm) (width ▸ bound)]
    rcases cell with text | ⟨toast,key,same,atOld⟩
    · rw [text]; rfl
    · have previous := congrArg (fun list => list[ordinal]?) before
      simp only [rowKey,List.getElem?_map,place,same,Option.getD_some,atOld,Option.map_some,
        Option.some.injEq] at previous
      rw [toast,patchValue,previous]

end Rows

theorem findRow {schema rows key row} (found : find schema rows key = some row) :
    row ∈ rows ∧ rowKey schema row = key.map some := ⟨lookupMem found,lookupKey found⟩

theorem findPerm {schema : TableSchema} {left right : List Row} (table : IsTable schema right)
    (perm : left.Perm right) : IsTable schema left ∧ find schema left = find schema right := by
  have unique : UniqueKeys (rowKey schema) left := (perm.map (rowKey schema)).nodup_iff.mpr table.unique
  exact ⟨⟨fun row mem => table.width row (perm.mem_iff.mp mem),fun row mem => table.admitted row (perm.mem_iff.mp mem),
    unique⟩,funext fun key => lookupPerm unique perm _⟩

theorem keySomeInjective : Function.Injective (fun key : Key => key.map some) :=
  List.map_injective_iff.mpr (Option.some_injective _)

theorem findRemove {schema rows} (unique : UniqueKeys (rowKey schema) rows) (key : Key) :
    find schema (remove schema rows key) = Function.update (find schema rows) key none := by
  funext other
  rw [find,remove,lookupFilter unique]
  by_cases same : other = key
  · subst same
    rw [Function.update_self]
    cases found : lookup (rowKey schema) rows (other.map some) with
    | none => rfl
    | some row => rw [Option.filter_some_neg (by simp [lookupKey found])]
  · rw [Function.update_of_ne same,find]
    cases found : lookup (rowKey schema) rows (other.map some) with
    | none => rfl
    | some row =>
      have apart : rowKey schema row ≠ key.map some := by
        rw [lookupKey found]
        exact fun equal => same (keySomeInjective equal)
      rw [Option.filter_some_pos (by simpa using apart)]

theorem findAppend {schema rows row key} (named : rowKey schema row = key.map some)
    (absent : find schema rows key = none) :
    find schema (rows ++ [row]) = Function.update (find schema rows) key (some row) := by
  funext other
  rw [find,lookupAppend]
  by_cases same : other = key
  · subst same
    rw [Function.update_self]
    unfold find at absent
    rw [absent]
    simp [lookup,named]
  · have apart : ¬ key.map some = other.map some := fun equal => same (keySomeInjective equal).symm
    rw [Function.update_of_ne same,find]
    simp [lookup,named,apart]

inductive Event (schema : TableSchema) (table : Key → Option Row) : RowChange → (Key → Option Row) → Prop where
  | insert {new key} (full : fullKey schema new.cells = some key)
      (arity : new.cells.length = schema.columns.length) (complete : Cell.unchangedToast ∉ new.cells)
      (absent : table key = none) :
      Event schema table (.insert new) (Function.update table key (some (newRow new.cells)))
  | update {old new oldKey newKey row} (explicit : explicitOldKey schema old = some oldKey)
      (updated : updateKey schema oldKey new.cells = some newKey)
      (present : table (oldKey.getD newKey) = some row) (arity : new.cells.length = schema.columns.length)
      (free : newKey = oldKey.getD newKey ∨ table newKey = none) :
      Event schema table (.update old new) (Function.update
        (Function.update table (oldKey.getD newKey) none) newKey (some (patchRow new.cells row)))
  | delete {old key row} (explicit : oldTupleKey schema old = some key) (present : table key = some row) :
      Event schema table (.delete old) (Function.update table key none)

theorem IsTable.remove {schema rows} (table : IsTable schema rows) (key : Key) :
    IsTable schema (remove schema rows key) where
  width row mem := table.width row (List.mem_of_mem_filter mem)
  admitted row mem := table.admitted row (List.mem_of_mem_filter mem)
  unique := table.unique.filter _

theorem addSource {schema rows key row rows'} (table : IsTable schema rows)
    (width : row.length = schema.columns.length) (named : rowKey schema row = key.map some)
    (ok : add schema rows key row = some rows') :
    IsTable schema rows' ∧ find schema rows key = none ∧
      find schema rows' = Function.update (find schema rows) key (some row) := by
  unfold add at ok
  split at ok <;> try contradiction
  rename_i guard
  cases Option.some.inj ok
  refine ⟨⟨?_,?_,?_⟩,guard.1,findAppend named guard.1⟩
  · intro other mem
    rcases List.mem_append.mp mem with mem | mem
    · exact table.width other mem
    · exact List.mem_singleton.mp mem ▸ width
  · intro other mem
    rcases List.mem_append.mp mem with mem | mem
    · exact table.admitted other mem
    · exact List.mem_singleton.mp mem ▸ guard.2
  · refine uniqueAppend table.unique (by simp [UniqueKeys]) ?_
    intro other mem
    rw [List.mem_singleton.mp mem,named]
    exact guard.1

theorem replayChangeSource {schema rows change rows'} (distinct : AttnumsDistinct schema)
    (table : IsTable schema rows) (ok : replayChange schema rows change = some rows') :
    IsTable schema rows' ∧ change.relationId = schema.relationId ∧ change.generation = schema.generation ∧
      Event schema (find schema rows) change.change (find schema rows') := by
  unfold replayChange at ok
  split at ok <;> try contradiction
  rename_i relation
  suffices IsTable schema rows' ∧ Event schema (find schema rows) change.change (find schema rows') from
    ⟨this.1,relation.1,relation.2,this.2⟩
  cases event : change.change with
  | insert new =>
    simp only [event,applyRow,bind,Option.bind_eq_some_iff] at ok
    obtain ⟨key,full,ok⟩ := ok
    split at ok <;> try contradiction
    rename_i shape
    have width : (List.replicate new.cells.length (none : Option Bytes)).length = schema.columns.length := by
      simpa using shape.1
    obtain ⟨table',absent,found⟩ := addSource table
      ((patchRowLength (shape.1.trans width.symm)).trans width)
      (rowKeyPatch distinct shape.1 width (fullKeyIff.mp full)) ok
    exact ⟨table',found ▸ .insert full shape.1 shape.2 absent⟩
  | update old new =>
    simp only [event,applyRow,bind,Option.bind_eq_some_iff] at ok
    obtain ⟨oldKey,explicit,newKey,updated,row,present,ok⟩ := ok
    split at ok <;> try contradiction
    rename_i arity
    obtain ⟨mem,named⟩ := findRow present
    have width := table.width row mem
    obtain ⟨table',absent,found⟩ := addSource (table.remove _) ((patchRowLength (arity.trans width.symm)).trans width)
      (rowKeyUpdate distinct arity width updated named) ok
    rw [findRemove table.unique] at absent found
    refine ⟨table',found ▸ .update explicit updated present arity ?_⟩
    by_cases same : newKey = oldKey.getD newKey
    · exact .inl same
    · rw [Function.update_of_ne same] at absent
      exact .inr absent
  | delete old =>
    simp only [event,applyRow,bind,Option.bind_eq_some_iff] at ok
    obtain ⟨key,explicit,ok⟩ := ok
    split at ok <;> try contradiction
    rename_i present
    obtain ⟨row,present⟩ := Option.isSome_iff_exists.mp present
    cases Option.some.inj ok
    exact ⟨table.remove key,findRemove table.unique key ▸ .delete explicit present⟩

end CloudberryEtl.Replay
