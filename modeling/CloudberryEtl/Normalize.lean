import CloudberryEtl.StagedApply

/-! `engine::normalize`: the row events of one table batch folded into one staging row per lineage. The two hash
maps are partial functions; `Key` is the list of the texts of its cells. -/
namespace CloudberryEtl.Normalize
open Schema Change StagedApply Result

inductive NormalizeError where
  | schema (error : CoreError)
  | relationMismatch (expected actual : Nat)
  | generationMismatch (relationId expected actual : Nat)
  | invalidTupleArity (tupleKind : String) (expected actual : Nat)
  | invalidOldKeyArity (keyOnly full actual : Nat)
  | invalidPrimaryKey (column state tupleKind : String)
  | binaryValue (column : String)
  | incompleteInsert (column : String)
  | ambiguousSequence (reason : String)
  deriving DecidableEq, Repr

abbrev Key := List Bytes

def keyCells (key : Key) : List Cell := key.map .text

structure PrimaryKeyLayout where
  ordinalIndexes : List Nat
  keyTuplePositions : List Nat
  deriving DecidableEq, Repr

def schemaOrder (schema : TableSchema) : List Nat :=
  (schema.columns.zipIdx.filter (fun (column,_) => column.isKey)).map Prod.snd

-- Both `expect`s hold for every schema: a key column is one of the schema's columns.
def PrimaryKeyLayout.new (schema : TableSchema) : PrimaryKeyLayout :=
  let ordinalIndexes := schema.primaryKey.map (fun keyColumn =>
    schema.columns.findIdx (fun column => column.attnum = keyColumn.attnum))
  ⟨ordinalIndexes,ordinalIndexes.map (fun index => (schemaOrder schema).findIdx (· = index))⟩

structure Lineage where
  originKey : Option Key
  currentKey : Option Key
  cells : List Cell
  firstSequence : Nat
  deriving DecidableEq, Repr

structure Normalizer where
  schema : TableSchema
  primaryKey : PrimaryKeyLayout
  lineages : List Lineage
  currentByKey : Key → Option Nat
  originByKey : Key → Option Nat
  sequence : Nat

def Normalizer.new (schema : TableSchema) : Normalizer where
  schema := schema
  primaryKey := .new schema
  lineages := []
  currentByKey := fun _ => none
  originByKey := fun _ => none
  sequence := 0

section Tuples
variable (schema : TableSchema) (layout : PrimaryKeyLayout)

def columnName (index : Nat) : String := (schema.columns[index]?.map ColumnSchema.name).getD ""

def cellAt (cells : List Cell) (index : Nat) : Cell := cells.getD index .null

def keyCell (cell : Cell) (schemaIndex : Nat) (tupleKind : String) : Except NormalizeError Bytes :=
  match cell with
  | .text value => .ok value
  | .binary _ => .error (.binaryValue (columnName schema schemaIndex))
  | .null => .error (.invalidPrimaryKey (columnName schema schemaIndex) "NULL" tupleKind)
  | .unchangedToast => .error (.invalidPrimaryKey (columnName schema schemaIndex) "unchanged" tupleKind)

def keyFromSelectedCells (cells : List Cell) (indexes : List Nat) (tupleKind : String) : Except NormalizeError Key :=
  (indexes.zip layout.ordinalIndexes).mapM (fun (cellIndex,schemaIndex) =>
    keyCell schema (cellAt cells cellIndex) schemaIndex tupleKind)

def keyFromCells (cells : List Cell) (tupleKind : String) : Except NormalizeError Key :=
  keyFromSelectedCells schema layout cells layout.ordinalIndexes tupleKind

def keyFromFullTuple (tuple : Tuple) (tupleKind : String) : Except NormalizeError Key :=
  keyFromSelectedCells schema layout tuple.cells layout.ordinalIndexes tupleKind

def keyFromOldTuple (tuple : Tuple) : Except NormalizeError Key :=
  if tuple.cells.length = schema.columns.length then
    keyFromSelectedCells schema layout tuple.cells layout.ordinalIndexes "old-key"
  else if tuple.cells.length = layout.ordinalIndexes.length then
    keyFromSelectedCells schema layout tuple.cells layout.keyTuplePositions "old-key"
  else .error (.invalidOldKeyArity layout.ordinalIndexes.length schema.columns.length tuple.cells.length)

def updateKeyCell (oldKey : Option Key) (tuple : Tuple) (ordinal index : Nat) : Except NormalizeError Bytes :=
  match cellAt tuple.cells index with
  | .unchangedToast =>
      match oldKey.bind (fun key => key[ordinal]?) with
      | some value => .ok value
      | none => .error (.invalidPrimaryKey (columnName schema index) "unchanged without an old key" "update")
  | cell => keyCell schema cell index "update"

def keyFromUpdateTuple (tuple : Tuple) (oldKey : Option Key) : Except NormalizeError Key :=
  layout.ordinalIndexes.zipIdx.mapM (fun (index,ordinal) => updateKeyCell schema oldKey tuple ordinal index)

def validateNewTuple (tuple : Tuple) (tupleKind : String) : Except NormalizeError Unit :=
  if tuple.cells.length ≠ schema.columns.length then
    .error (.invalidTupleArity tupleKind schema.columns.length tuple.cells.length)
  else match tuple.cells.findIdx? (fun cell => cell matches .binary _) with
  | some index => .error (.binaryValue (columnName schema index))
  | none => .ok ()

def requireComplete (cells : List Cell) : Except NormalizeError Unit :=
  match cells.findIdx? (fun cell => cell = .unchangedToast) with
  | some index => .error (.incompleteInsert (columnName schema index))
  | none => .ok ()

def writeKey (cells : List Cell) (key : Key) : List Cell :=
  (layout.ordinalIndexes.zip (keyCells key)).foldl (fun cells (index,value) => cells.set index value) cells

def patchCell (stored incoming : Cell) : Cell := if incoming = .unchangedToast then stored else incoming

end Tuples

namespace Normalizer

def baselineCells (n : Normalizer) (key : Key) : List Cell :=
  writeKey n.primaryKey (List.replicate n.schema.columns.length .unchangedToast) key

def newBaseline (n : Normalizer) (key : Key) (sequence : Nat) (live : Bool) : Normalizer × Nat :=
  let index := n.lineages.length
  ({n with
    lineages := n.lineages ++ [⟨some key,if live then some key else none,n.baselineCells key,sequence⟩]
    originByKey := Function.update n.originByKey key (some index)
    currentByKey := if live then Function.update n.currentByKey key (some index) else n.currentByKey},index)

def revivable (n : Normalizer) (key : Key) : Option Nat :=
  (n.originByKey key).filter (fun index => (n.lineages[index]?.map Lineage.currentKey) = some none)

def insert (n : Normalizer) (new : Tuple) (sequence : Nat) : Except NormalizeError Normalizer := do
  validateNewTuple n.schema new "insert"
  requireComplete n.schema new.cells
  let key ← keyFromFullTuple n.schema n.primaryKey new "insert"
  if (n.currentByKey key).isSome then .error (.ambiguousSequence "insert targets a key that is already live")
  else match n.revivable key with
  | some index => .ok {n with
      lineages := n.lineages.modify index (fun lineage => {lineage with currentKey := some key, cells := new.cells})
      currentByKey := Function.update n.currentByKey key (some index)}
  | none => .ok {n with
      lineages := n.lineages ++ [⟨none,some key,new.cells,sequence⟩]
      currentByKey := Function.update n.currentByKey key (some n.lineages.length)}

def patch (n : Normalizer) (index : Nat) (incoming : List Cell) : Normalizer :=
  {n with lineages := n.lineages.modify index (fun lineage =>
    {lineage with cells := List.zipWith patchCell lineage.cells incoming})}

def rekey (n : Normalizer) (index : Nat) (previousKey finalKey : Key) : Normalizer :=
  {n with
    currentByKey := Function.update (Function.update n.currentByKey previousKey none) finalKey (some index)
    lineages := n.lineages.modify index (fun lineage => {lineage with currentKey := some finalKey})}

def locate (n : Normalizer) (key : Key) (sequence : Nat) (live : Bool) (verb : String) :
    Except NormalizeError (Normalizer × Nat) :=
  match n.currentByKey key with
  | some index => .ok (n,index)
  | none =>
      if (n.originByKey key).isSome then
        .error (.ambiguousSequence (verb ++ " references a key whose baseline lineage has already moved or died"))
      else .ok (n.newBaseline key sequence live)

def rewrite (n : Normalizer) (index : Nat) (incoming : List Cell) : Except NormalizeError Normalizer := do
  let n := n.patch index incoming
  match n.lineages[index]? with
  | none => .ok n -- an index of the maps always names a lineage
  | some lineage =>
    let finalKey ← keyFromCells n.schema n.primaryKey lineage.cells "update"
    match lineage.currentKey with
    | none => .ok n -- updates operate on a live lineage
    | some previousKey =>
      if finalKey = previousKey then .ok n
      else if (n.currentByKey finalKey).any (· ≠ index) then
        .error (.ambiguousSequence "primary-key update targets another live lineage")
      else if (n.originByKey finalKey).any (· ≠ index) then
        .error (.ambiguousSequence "primary-key update reuses another batch-start key")
      else .ok (n.rekey index previousKey finalKey)

def update (n : Normalizer) (oldTuple : Option Tuple) (new : Tuple) (sequence : Nat) :
    Except NormalizeError Normalizer := do
  validateNewTuple n.schema new "update"
  let oldKey ← oldTuple.mapM (keyFromOldTuple n.schema n.primaryKey)
  let newKey ← keyFromUpdateTuple n.schema n.primaryKey new oldKey
  let (n,index) ← n.locate (oldKey.getD newKey) sequence true "update"
  n.rewrite index new.cells

def delete (n : Normalizer) (oldTuple : Tuple) (sequence : Nat) : Except NormalizeError Normalizer := do
  let key ← keyFromOldTuple n.schema n.primaryKey oldTuple
  let (n,index) ← n.locate key sequence false "delete"
  .ok {n with
    currentByKey := Function.update n.currentByKey key none
    lineages := n.lineages.modify index (fun lineage => {lineage with currentKey := none})}

-- `saturating_add` on usize: the counter stops at the largest value of a 64-bit word.
def nextSequence (sequence : Nat) : Nat := min (sequence + 1) (2 ^ 64 - 1)

def push (n : Normalizer) (change : TableChange) : Except NormalizeError Normalizer :=
  if change.relationId ≠ n.schema.relationId then
    .error (.relationMismatch n.schema.relationId change.relationId)
  else if change.generation ≠ n.schema.generation then
    .error (.generationMismatch change.relationId n.schema.generation change.generation)
  else
    let sequence := n.sequence
    let n := {n with sequence := nextSequence n.sequence}
    match change.change with
    | .insert new => n.insert new sequence
    | .update oldKey new => n.update oldKey new sequence
    | .delete oldKey => n.delete oldKey sequence

def insertedStagingRow (n : Normalizer) (cells : List Cell) : Except NormalizeError StagingRow := do
  requireComplete n.schema cells
  .ok ⟨.upsert,cells,none⟩

def stagingRow (n : Normalizer) (lineage : Lineage) : Except NormalizeError (Option StagingRow) :=
  match lineage.originKey,lineage.currentKey with
  | none,none => .ok none
  | none,some _ => (n.insertedStagingRow lineage.cells).map some
  | some origin,some current =>
      if origin = current then .ok (some ⟨.upsert,lineage.cells,none⟩)
      else .ok (some ⟨.move,lineage.cells,some (keyCells origin)⟩)
  | some origin,none =>
      if (n.currentByKey origin).isSome then .ok none
      else .ok (some ⟨.delete,n.baselineCells origin,none⟩)

def sortedLineages (n : Normalizer) : List Lineage :=
  n.lineages.insertionSort (fun a b => a.firstSequence ≤ b.firstSequence)

def finish (n : Normalizer) : Except NormalizeError (List StagingRow) := do
  let rows ← n.sortedLineages.mapM n.stagingRow
  .ok (rows.filterMap id)

end Normalizer

def normalizeTableChanges (schema : TableSchema) (changes : List TableChange) :
    Except NormalizeError (List StagingRow) := do
  schema.validateSupported.mapError .schema
  let n ← changes.foldlM Normalizer.push (.new schema)
  n.finish

end CloudberryEtl.Normalize
