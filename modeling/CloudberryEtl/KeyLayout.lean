import CloudberryEtl.Normalize

/-! Positions of the key columns. The normalizer finds them by attribute number, the apply plan by column name and a
key-only tuple by relation order; for a planned table with distinct attribute numbers the three agree. -/
namespace CloudberryEtl.KeyLayout
open Schema Change TablePlan StagedApply KeyedTable Result Normalize

def keyPositions (schema : TableSchema) : List Nat := (PrimaryKeyLayout.new schema).ordinalIndexes

-- `pg_attribute` is keyed by the relation and the attribute number.
def AttnumsDistinct (schema : TableSchema) : Prop := UniqueKeys ColumnSchema.attnum schema.columns

instance (schema : TableSchema) : Decidable (AttnumsDistinct schema) :=
  inferInstanceAs (Decidable (UniqueKeys ColumnSchema.attnum schema.columns))

section Positions
variable {schema : TableSchema} (distinct : AttnumsDistinct schema)
include distinct

theorem positionAt {index column} (found : schema.columns[index]? = some column) :
    schema.columns.findIdx (fun other => other.attnum = column.attnum) = index :=
  positionOfKey distinct found

theorem memKeyPositions {index} :
    index ∈ keyPositions schema ↔ ∃ column, schema.columns[index]? = some column ∧ column.isKey := by
  simp only [keyPositions,PrimaryKeyLayout.new,List.mem_map,memPrimaryKey]
  constructor
  · rintro ⟨column,⟨mem,isKey⟩,rfl⟩
    obtain ⟨position,found⟩ := List.getElem?_of_mem mem
    exact ⟨column,by rw [positionAt distinct found]; exact found,isKey⟩
  · rintro ⟨column,found,isKey⟩
    exact ⟨column,⟨List.mem_of_getElem? found,isKey⟩,positionAt distinct found⟩

theorem keyPositionsLt {index} (mem : index ∈ keyPositions schema) : index < schema.columns.length := by
  obtain ⟨column,found,_⟩ := (memKeyPositions distinct).mp mem
  exact (List.getElem?_eq_some_iff.mp found).1

theorem keyPositionsNodup : (keyPositions schema).Nodup := by
  have columns : schema.primaryKey.Nodup :=
    (primaryKeyPerm schema).nodup_iff.mpr (distinct.nodup.filter _)
  refine List.Nodup.map_on ?_ columns
  intro a memA b memB same
  obtain ⟨i,foundA⟩ := List.getElem?_of_mem (memPrimaryKey.mp memA).1
  obtain ⟨j,foundB⟩ := List.getElem?_of_mem (memPrimaryKey.mp memB).1
  rw [positionAt distinct foundA,positionAt distinct foundB] at same
  subst same
  exact Option.some.inj (foundA.symm.trans foundB)

end Positions

theorem keyPositionsLength (schema : TableSchema) : (keyPositions schema).length = schema.primaryKey.length := by
  simp [keyPositions,PrimaryKeyLayout.new]

structure Plans (schema : TableSchema) (plan : ApplyPlan) : Prop where
  table : PlansTable schema plan.table
  presence : ∃ control, plan.copyLayout.presenceColumns = presenceColumns plan.table control
  oldKeys : plan.copyLayout.oldKeyColumns.length = schema.primaryKey.length

theorem planApplySource {schema target staging plan} (ok : planApply schema target staging = .ok plan) :
    Plans schema plan ∧ plan.table.target = target ∧ plan.stagingName = staging := by
  obtain ⟨table,planned,ok⟩ := bindOk.mp ok
  obtain ⟨_,_,ok⟩ := bindOk.mp ok
  obtain ⟨_,_,ok⟩ := bindOk.mp ok
  cases Except.ok.inj ok
  obtain ⟨plans,sameTarget⟩ := planCreateTableSource (mapErrorOk.mp planned)
  exact ⟨⟨plans,⟨_,rfl⟩,by simp [plans.primaryKey]⟩,sameTarget,rfl⟩

section Planned
variable {schema : TableSchema} {table : CreateTablePlan} (plans : PlansTable schema table)
include plans

theorem planColumnSource {index : Nat} {planned} (found : table.columns[index]? = some planned) :
    ∃ column sql, schema.columns[index]? = some column ∧ planned = columnPlan column sql := by
  obtain ⟨column,atSchema,sql,same⟩ := relatedAt plans.columns.flip found
  exact ⟨column,sql,atSchema,same⟩

theorem planNameAt (index : Nat) :
    (table.columns[index]?.map ColumnPlan.name) = schema.columns[index]?.map ColumnSchema.name := by
  rw [← List.getElem?_map,← List.getElem?_map,plans.names]

theorem columnIndexAt {index : Nat} {column} (found : schema.columns[index]? = some column) :
    columnIndex table column.name = index := by
  have unique : UniqueKeys ColumnPlan.name table.columns := by
    rw [UniqueKeys,plans.names]; exact plans.namesNodup
  have here := planNameAt plans index
  rw [found] at here
  cases atIndex : table.columns[index]? with
  | none => simp [atIndex] at here
  | some planned =>
    simp only [atIndex,Option.map_some,Option.some.injEq] at here
    rw [← here]
    exact positionOfKey unique atIndex

end Planned

theorem planKeyIndexes {schema plan} (distinct : AttnumsDistinct schema) (plans : Plans schema plan) :
    plan.keyIndexes = keyPositions schema := by
  rw [ApplyPlan.keyIndexes,plans.table.primaryKey,List.map_map,keyPositions,PrimaryKeyLayout.new]
  refine List.map_congr_left ?_
  intro column mem
  obtain ⟨position,found⟩ := List.getElem?_of_mem (memPrimaryKey.mp mem).1
  rw [Function.comp,columnIndexAt plans.table found,positionAt distinct found]

theorem keyNameIff {schema plan} (plans : Plans schema plan) {column} (mem : column ∈ schema.columns) :
    column.name ∈ plan.table.primaryKey ↔ column.isKey := by
  rw [plans.table.primaryKey]
  constructor
  · intro named
    obtain ⟨key,isKey,same⟩ := List.mem_map.mp named
    obtain ⟨inColumns,isKey⟩ := memPrimaryKey.mp isKey
    have equal := List.inj_on_of_nodup_map plans.table.namesNodup inColumns mem same
    exact equal ▸ isKey
  · exact fun isKey => List.mem_map_of_mem (memPrimaryKey.mpr ⟨mem,isKey⟩)

end CloudberryEtl.KeyLayout
