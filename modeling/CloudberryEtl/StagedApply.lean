import CloudberryEtl.Checkpoint
import CloudberryEtl.CopyText
import CloudberryEtl.KeyedTable
import CloudberryEtl.SqlLogic
import CloudberryEtl.TablePlan

/-! The staged apply of one table, from `target::apply`. `plan_apply` fixes the staging layout and the text of six
statements; a statement is represented here by what it does to the staging and the target rows. A stored value is
the text of its column or NULL, and `equal i` is the SQL equality of the type of column `i`. -/
namespace CloudberryEtl.StagedApply
open Schema Change TablePlan CopyText SqlText SqlLogic KeyedTable Result Checkpoint

inductive ApplyPlanError where
  | schema (error : SchemaError)
  | sql (error : SqlRenderError)
  deriving DecidableEq, Repr

inductive DatabaseError where
  | malformedCopy
  | checkViolation
  | notNullViolation
  | uniqueViolation
  | undefinedTable
  | undefinedColumn
  | duplicateTable
  | duplicateObject
  | invalidEnumLabel
  deriving DecidableEq, Repr

inductive ApplyError where
  | database (error : DatabaseError)
  | checkpoint (error : CheckpointError)
  | copy (error : CopyEncodeError)
  | invalidRowArity (expected actual : Nat)
  | missingPrimaryKey (column : String)
  | invalidOldKeyArity (expected actual : Nat)
  | missingOldPrimaryKey
  | unexpectedOldPrimaryKey
  | missingOldPrimaryKeyColumn (column : String)
  | duplicateStagingName (name : String)
  | invalidBatch (table : String)
  deriving DecidableEq, Repr

structure PresenceColumn where
  sourceColumnIndex : Nat
  sourceColumnName : String
  stagingColumnName : String
  deriving DecidableEq, Repr

structure OldKeyColumn where
  sourceColumnIndex : Nat
  sourceColumnName : String
  stagingColumnName : String
  typeSql : String
  deriving DecidableEq, Repr

structure CopyLayout where
  operationColumn : String
  dataColumns : List String
  presenceColumns : List PresenceColumn
  oldKeyPresentColumn : String
  oldKeyColumns : List OldKeyColumn
  deriving DecidableEq, Repr

structure ApplyPlan where
  table : CreateTablePlan
  stagingName : String
  copyLayout : CopyLayout
  deriving DecidableEq, Repr

inductive StageOperation where
  | upsert | delete | move
  deriving DecidableEq, Repr

structure StagingRow where
  operation : StageOperation
  cells : List Cell
  oldKey : Option (List Cell)
  deriving DecidableEq, Repr

def controlCandidate (suffix : Nat) : String :=
  if suffix = 0 then "__pg2cb_" else "__pg2cb" ++ toString suffix ++ "_"

def controlPrefixFrom (table : CreateTablePlan) : Nat → Nat → String
  | 0,_ => ""
  | fuel + 1,suffix =>
      if table.columns.all (fun column => !(controlCandidate suffix).toList.isPrefixOf column.name.toList) then
        controlCandidate suffix
      else controlPrefixFrom table fuel (suffix + 1)

-- The source counts a u32 up and calls the end of the range unreachable.
def unusedControlPrefix (table : CreateTablePlan) : String := controlPrefixFrom table (2 ^ 32) 0

def columnIndex (table : CreateTablePlan) (name : String) : Nat :=
  table.columns.findIdx (fun column => column.name = name)

def presenceColumns (table : CreateTablePlan) (control : String) : List PresenceColumn :=
  (table.columns.zipIdx.filter (fun (column,_) => column.name ∉ table.primaryKey)).map
    (fun (column,index) => ⟨index,column.name,control ++ "present_" ++ toString column.sourceAttnum⟩)

def oldKeyColumn (table : CreateTablePlan) (control keyName : String) : OldKeyColumn :=
  let index := columnIndex table keyName
  match table.columns[index]? with
  | some column => ⟨index,column.name,control ++ "old_" ++ toString column.sourceAttnum,column.typeSql⟩
  | none => ⟨index,keyName,"",""⟩ -- planned primary key names always reference planned columns

/- Every identifier quoted after the staging name is a column name that `plan_create_table` has rendered or a
control name, so the later quoting cannot fail. -/
def planApply (source : TableSchema) (target : QualifiedName) (stagingName : String) :
    Except ApplyPlanError ApplyPlan := do
  let table ← (planCreateTable source target).mapError .schema
  let _ ← (quoteQualifiedName table.target).mapError .sql
  let _ ← (quoteIdentifier stagingName).mapError .sql
  let control := unusedControlPrefix table
  .ok ⟨table,stagingName,control ++ "op",table.columns.map ColumnPlan.name,presenceColumns table control,
    control ++ "old_key_present",table.primaryKey.map (oldKeyColumn table control)⟩

def ApplyPlan.keyIndexes (plan : ApplyPlan) : List Nat := plan.table.primaryKey.map (columnIndex plan.table)

def StageOperation.byte : StageOperation → UInt8
  | .upsert => 85
  | .delete => 68
  | .move => 77

def flag (value : Bool) : Cell := .text [if value then 116 else 102]

def materialize : Cell → Cell
  | .unchangedToast => .null
  | other => other

def absentCell : Cell → Bool
  | .null | .unchangedToast => true
  | _ => false

def isPresent (cells : List Cell) (presence : PresenceColumn) : Bool :=
  cells[presence.sourceColumnIndex]? != some .unchangedToast

def stagingFields (plan : ApplyPlan) (row : StagingRow) : Except ApplyError (List Cell) := do
  if row.cells.length ≠ plan.table.columns.length then
    .error (.invalidRowArity plan.table.columns.length row.cells.length)
  else
    match (plan.table.columns.zip row.cells).find? (fun (column,cell) =>
        column.primaryKeyOrdinal.isSome && absentCell cell) with
    | some (column,_) => .error (.missingPrimaryKey column.name)
    | none =>
      match row.operation,row.oldKey with
      | .move,none => .error .missingOldPrimaryKey
      | .upsert,some _ | .delete,some _ => .error .unexpectedOldPrimaryKey
      | _,_ =>
        match row.oldKey with
        | some oldKey =>
          if oldKey.length ≠ plan.copyLayout.oldKeyColumns.length then
            .error (.invalidOldKeyArity plan.copyLayout.oldKeyColumns.length oldKey.length)
          else
            match (plan.copyLayout.oldKeyColumns.zip oldKey).find? (fun (_,cell) => absentCell cell) with
            | some (column,_) => .error (.missingOldPrimaryKeyColumn column.sourceColumnName)
            | none => .ok (fields oldKey)
        | none => .ok (fields (plan.copyLayout.oldKeyColumns.map (fun _ => .null)))
where
  fields (oldKey : List Cell) : List Cell :=
    .text [row.operation.byte] :: row.cells.map materialize ++
      plan.copyLayout.presenceColumns.map (fun presence => flag (isPresent row.cells presence)) ++
      flag row.oldKey.isSome :: oldKey

def encodeStagingRow (plan : ApplyPlan) (row : StagingRow) : Except ApplyError Bytes := do
  let fields ← stagingFields plan row
  (encodeRow fields).mapError .copy

abbrev Row := List (Option Bytes)

structure StagedRow where
  operation : Bytes
  data : Row
  present : List Bool
  oldKeyPresent : Bool
  oldKey : List (Option Bytes)
  deriving DecidableEq, Repr

def readBool : Option Bytes → Except ApplyError Bool
  | some [116] => .ok true
  | some [102] => .ok false
  | none => .error (.database .notNullViolation)
  | _ => .error (.database .malformedCopy)

/- One line of the COPY stream stored in the temporary staging table: its width, its NOT NULL columns and the
CHECK on the operation. -/
def storeStaged (plan : ApplyPlan) (line : List (Option Bytes)) : Except ApplyError StagedRow := do
  let width := plan.table.columns.length
  let presence := plan.copyLayout.presenceColumns.length
  if line.length ≠ 2 + width + presence + plan.copyLayout.oldKeyColumns.length then
    .error (.database .malformedCopy)
  else match line with
  | some operation :: rest =>
    if operation ≠ [85] ∧ operation ≠ [68] ∧ operation ≠ [77] then .error (.database .checkViolation)
    else
      let flags ← ((rest.drop width).take (presence + 1)).mapM readBool
      .ok ⟨operation,rest.take width,flags.take presence,flags.getD presence false,rest.drop (width + presence + 1)⟩
  | _ => .error (.database .notNullViolation)

def copyIn (plan : ApplyPlan) (rows : List StagingRow) : Except ApplyError (List StagedRow) := do
  let chunks ← rows.mapM (encodeStagingRow plan)
  (decodeStream chunks.flatten).mapM (storeStaged plan)

/-- The equality operators of the server, by the SQL type they compare. -/
abbrev Operators := String → Bytes → Bytes → Bool

/-- Every type compared by its text. -/
def textOperators : Operators := fun _ left right => left == right

/-- The operator that compares the values of a column. -/
def Operators.of (operators : Operators) (table : CreateTablePlan) (index : Nat) : Bytes → Bytes → Bool :=
  operators ((table.columns[index]?.map ColumnPlan.typeSql).getD "")

section Statements
variable (equal : Nat → Bytes → Bytes → Bool) (plan : ApplyPlan)

def column (row : Row) (index : Nat) : Option Bytes := row.getD index none

def keyColumns (row : Row) : List (Option Bytes) := plan.keyIndexes.map (column row)

def keysEqual (left right : List (Option Bytes)) : Option Bool :=
  all3 (List.zipWith (fun index (l,r) => eq3 (equal index) l r) plan.keyIndexes (left.zip right))

def keyJoin (target : Row) (s : StagedRow) : Option Bool :=
  keysEqual equal plan (keyColumns plan target) (keyColumns plan s.data)

def oldKeyJoin (target : Row) (s : StagedRow) : Option Bool :=
  keysEqual equal plan (keyColumns plan target) s.oldKey

def sameMoveKey (s : StagedRow) : Option Bool := keysEqual equal plan (keyColumns plan s.data) s.oldKey

/- `(t.k IS NULL)` for the first key column; an unmatched side of a LEFT JOIN is NULL in every column. -/
def targetMissing (target : Option Row) : Bool :=
  match plan.keyIndexes with
  | [] => true
  | first :: _ => (target.bind (fun row => column row first)).isNone

def leftJoin (on : Row → Option Bool) (rows : List Row) : List (Option Row) :=
  match rows.filter (fun row => holds (on row)) with
  | [] => [none]
  | matched => matched.map some

def isOperation (s : StagedRow) (operation : StageOperation) : Bool := s.operation = [operation.byte]

def allPresent (s : StagedRow) : Option Bool := all3 (s.present.map some)

def invalidRow (s : StagedRow) (target oldTarget : Option Row) : Option Bool :=
  let stable := isOperation s .upsert || isOperation s .delete
  any3 [
    some (!(stable || isOperation s .move)),
    any3 ((keyColumns plan s.data).map isNull),
    and3 (some stable) (or3 (some s.oldKeyPresent) (any3 (s.oldKey.map isNotNull))),
    and3 (some (isOperation s .move))
      (or3 (not3 (some s.oldKeyPresent)) (or3 (any3 (s.oldKey.map isNull)) (sameMoveKey equal plan s))),
    and3 (some (isOperation s .move)) (some (targetMissing plan target == targetMissing plan oldTarget)),
    and3 (some (isOperation s .upsert)) (and3 (some (targetMissing plan target)) (not3 (allPresent s)))]

/- GROUP BY … HAVING count(*) > 1: two rows agree on every grouping column, NULL being grouped with NULL. -/
def sameGroup (equal : Bytes → Bytes → Bool) : Option Bytes → Option Bytes → Bool
  | none,none => true
  | some l,some r => equal l r
  | _,_ => false

def grouped (left right : List (Option Bytes)) : Bool :=
  (List.zipWith (fun index (l,r) => sameGroup (equal index) l r) plan.keyIndexes (left.zip right)).all id

def hasDuplicate (same : StagedRow → StagedRow → Bool) : List StagedRow → Bool
  | [] => false
  | s :: rest => rest.any (same s) || hasDuplicate same rest

def invalidBatch (staged : List StagedRow) (rows : List Row) : Bool :=
  staged.any (fun s =>
    (leftJoin (fun target => keyJoin equal plan target s) rows).any (fun target =>
      (leftJoin (fun target => oldKeyJoin equal plan target s) rows).any (fun oldTarget =>
        holds (invalidRow equal plan s target oldTarget)))) ||
  hasDuplicate (fun a b => grouped equal plan (keyColumns plan a.data) (keyColumns plan b.data)) staged ||
  hasDuplicate (fun a b => grouped equal plan a.oldKey b.oldKey) (staged.filter (isOperation · .move))

def admitted (row : Row) : Bool :=
  (plan.table.columns.zip row).all (fun (column,value) =>
    (column.nullable && column.primaryKeyOrdinal.isNone) || value.isSome)

def sameKey (left right : Row) : Bool := holds (keysEqual equal plan (keyColumns plan left) (keyColumns plan right))

def conflicts : List Row → Bool
  | [] => false
  | row :: rest => rest.any (sameKey equal plan row) || conflicts rest

def insertRows (new rows : List Row) : Except ApplyError (List Row) :=
  if ¬ new.all (admitted plan) then .error (.database .notNullViolation)
  else if conflicts equal plan (rows ++ new) then .error (.database .uniqueViolation)
  else .ok (rows ++ new)

def deleteStep (staged : List StagedRow) (rows : List Row) : List Row :=
  deleteUsing (fun s row => isOperation s .delete && holds (keyJoin equal plan row s)) staged rows

/- `CASE WHEN s.present THEN s.data ELSE t.data END` by position; a key column has no presence column and is taken
from the staging row by `move_sql`, from the target row by `update_sql`. -/
def presenceOf (s : StagedRow) (index : Nat) : Option Bool :=
  ((plan.copyLayout.presenceColumns.zip s.present).find? (fun (presence,_) =>
    presence.sourceColumnIndex = index)).map Prod.snd

def movedRow (s : StagedRow) (row : Row) : Row :=
  (List.range plan.table.columns.length).map (fun index =>
    match presenceOf plan s index with
    | some false => column row index
    | _ => column s.data index)

def updatedRow (s : StagedRow) (row : Row) : Row :=
  (List.range plan.table.columns.length).map (fun index =>
    match presenceOf plan s index with
    | some true => column s.data index
    | _ => column row index)

def moveStep (staged : List StagedRow) (rows : List Row) : Except ApplyError (List Row) :=
  insertRows equal plan ((staged.filter (isOperation · .move)).flatMap (fun s =>
    if rows.any (fun row => holds (keyJoin equal plan row s)) then []
    else (rows.filter (fun row => holds (oldKeyJoin equal plan row s))).map (movedRow plan s))) rows

def deleteMovedStep (staged : List StagedRow) (rows : List Row) : List Row :=
  deleteUsing (fun s row => isOperation s .move && holds (oldKeyJoin equal plan row s)) staged rows

-- `update_sql` is absent for a table whose columns are all key columns.
def updateStep (staged : List StagedRow) (rows : List Row) : Except ApplyError (List Row) :=
  if plan.copyLayout.presenceColumns.isEmpty then .ok rows
  else
    let joins := fun (s : StagedRow) row => isOperation s .upsert && holds (keyJoin equal plan row s)
    let written := rows.filter (fun row => staged.any (fun s => joins s row))
    let updated := updateFrom joins (updatedRow plan) staged rows
    if ¬ (updateFrom joins (updatedRow plan) staged written).all (admitted plan) then
      .error (.database .notNullViolation)
    else .ok updated

def insertStep (staged : List StagedRow) (rows : List Row) : Except ApplyError (List Row) :=
  insertRows equal plan ((staged.filter (fun s => isOperation s .upsert &&
    !rows.any (fun row => holds (keyJoin equal plan row s)))).map StagedRow.data) rows

def applySteps (staged : List StagedRow) (rows : List Row) : Except ApplyError (List Row) := do
  let rows := deleteStep equal plan staged rows
  let rows ← moveStep equal plan staged rows
  let rows := deleteMovedStep equal plan staged rows
  let rows ← updateStep equal plan staged rows
  insertStep equal plan staged rows

def executeTable (rows : List StagingRow) (target : List Row) : Except ApplyError (List Row) := do
  if rows.isEmpty then .ok target
  else
    let staged ← copyIn plan rows
    if invalidBatch equal plan staged target then .error (.invalidBatch plan.table.target.display)
    else applySteps equal plan staged target

end Statements

end CloudberryEtl.StagedApply
