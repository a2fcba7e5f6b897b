import CloudberryEtl.FoldRefines
import CloudberryEtl.SqlQuoting
import CloudberryEtl.StagingColumns

/-! The two statements of the staged apply that name every column of the staging table: the CREATE TEMPORARY TABLE and
the COPY. The server reads each name whole where it stands, so what holds of the names holds of the columns. -/
namespace CloudberryEtl.StagingStatements
open Schema TablePlan StagedApply KeyedTable KeyLayout StagingColumns SqlText SqlScanner SqlQuoting Result FoldRefines

def stagingDefinition (name definition : String) : Except SqlRenderError String := do
  return "    " ++ (← quoteIdentifier name) ++ " " ++ definition

def operationDefinition (operationColumn : String) : Except SqlRenderError String := do
  let operation ← quoteIdentifier operationColumn
  return "character(1) NOT NULL CHECK (" ++ operation ++ " IN (" ++ (← quoteLiteral "U") ++ ", " ++
    (← quoteLiteral "D") ++ ", " ++ (← quoteLiteral "M") ++ "))"

def stagingColumns (plan : ApplyPlan) (operation : String) : List (String × String) :=
  (plan.copyLayout.operationColumn,operation) ::
    plan.table.columns.map (fun column => (column.name,column.typeSql)) ++
    plan.copyLayout.presenceColumns.map (fun column => (column.stagingColumnName,"boolean NOT NULL")) ++
    (plan.copyLayout.oldKeyPresentColumn,"boolean NOT NULL") ::
    plan.copyLayout.oldKeyColumns.map (fun column => (column.stagingColumnName,column.typeSql))

def stagingDefinitions (plan : ApplyPlan) : Except SqlRenderError (List String) := do
  let operation ← operationDefinition plan.copyLayout.operationColumn
  (stagingColumns plan operation).mapM (fun column => stagingDefinition column.1 column.2)

def createStagingSql (plan : ApplyPlan) : Except SqlRenderError String := do
  let staging ← quoteIdentifier plan.stagingName
  let definitions ← stagingDefinitions plan
  let key ← quoteIdentifierList plan.table.primaryKey
  return "CREATE TEMPORARY TABLE " ++ staging ++ " (\n" ++ ",\n".intercalate definitions ++
    "\n)\nUSING heap\nON COMMIT DROP\nDISTRIBUTED BY (" ++ key ++ ")"

def copySql (plan : ApplyPlan) : Except SqlRenderError String := do
  let staging ← quoteIdentifier plan.stagingName
  let columns ← quoteIdentifierList (copyColumns plan)
  return "COPY " ++ staging ++ " (" ++ columns ++ ") FROM STDIN WITH (FORMAT text, DELIMITER " ++
    (← quoteLiteral "\t") ++ ", NULL " ++ (← quoteLiteral "\\N") ++ ")"

section Reading

/- The server reads a name at the head of a text, whatever follows the text short of another quote. -/
def ReadsAs (name text : String) : Prop :=
  ∀ rest : List Char, rest.head? ≠ some '"' → nextToken (text.toList ++ rest) = some (.identifier name,rest)

def Defines (name text : String) : Prop :=
  ∃ rest, nextToken (afterWhitespace text.toList) = some (.identifier name,rest)

theorem quotedReads {name quoted : String} (valid : IdentifierValid name) (ok : quoteIdentifier name = .ok quoted) :
    ReadsAs name quoted := by
  intro rest apart
  obtain ⟨other,same,read⟩ := identifierRead name rest valid apart
  rw [ok] at same
  cases same
  exact read

theorem quotedOk {name : String} (valid : IdentifierValid name) : ∃ quoted, quoteIdentifier name = .ok quoted := by
  obtain ⟨quoted,ok,_⟩ := identifierRead name [] valid (by simp)
  exact ⟨quoted,ok⟩

theorem quotedList {names : List String} (valid : ∀ name ∈ names, IdentifierValid name) :
    ∃ quoted, names.mapM quoteIdentifier = .ok quoted ∧ List.Forall₂ ReadsAs names quoted := by
  induction names with
  | nil => exact ⟨[],rfl,.nil⟩
  | cons name names ih =>
    obtain ⟨text,ok⟩ := quotedOk (valid name (by simp))
    obtain ⟨texts,oks,reads⟩ := ih (fun other mem => valid other (by simp [mem]))
    refine ⟨text :: texts,mapMOk.mpr (.cons ok (mapMOk.mp oks)),.cons (quotedReads (valid name (by simp)) ok) reads⟩

theorem quotedHead {name quoted : String} (ok : quoteIdentifier name = .ok quoted) :
    ∃ body, quoted.toList = '"' :: body := by
  obtain ⟨_,ok⟩ := iteOk.mp ok
  obtain ⟨_,ok⟩ := iteOk.mp ok
  rw [← Except.ok.inj ok]
  exact ⟨doubleQuotes name.toList ++ ['"'],by simp⟩

theorem definitionNames {name : String} (definition : String) (valid : IdentifierValid name) :
    ∃ text, stagingDefinition name definition = .ok text ∧ Defines name text := by
  obtain ⟨quoted,ok⟩ := quotedOk valid
  obtain ⟨body,head⟩ := quotedHead ok
  refine ⟨"    " ++ quoted ++ " " ++ definition,by rw [stagingDefinition,ok]; rfl,' ' :: definition.toList,?_⟩
  have indented : ("    " ++ quoted ++ " " ++ definition).toList =
      ' ' :: ' ' :: ' ' :: ' ' :: (quoted.toList ++ ' ' :: definition.toList) := by
    simp [String.toList_append]
  have visible : afterWhitespace ("    " ++ quoted ++ " " ++ definition).toList = quoted.toList ++ ' ' :: definition.toList := by
    rw [indented,head]
    rfl
  rw [visible]
  exact quotedReads valid ok _ (by simp)

theorem definitionsName {columns : List (String × String)} (valid : ∀ column ∈ columns, IdentifierValid column.1) :
    ∃ texts, columns.mapM (fun column => stagingDefinition column.1 column.2) = .ok texts ∧
      List.Forall₂ Defines (columns.map Prod.fst) texts := by
  induction columns with
  | nil => exact ⟨[],rfl,.nil⟩
  | cons column columns ih =>
    obtain ⟨text,ok,names⟩ := definitionNames column.2 (valid column (by simp))
    obtain ⟨texts,oks,rest⟩ := ih (fun other mem => valid other (by simp [mem]))
    exact ⟨text :: texts,mapMOk.mpr (.cons ok (mapMOk.mp oks)),.cons names rest⟩

end Reading

section Lengths

theorem digitBytes {c : Char} (digit : c.isDigit = true) : c.utf8Size = 1 := by
  refine Char.utf8Size_eq_one_iff.mpr ?_
  simp only [Char.isDigit,Bool.and_eq_true,decide_eq_true_eq,ge_iff_le] at digit
  exact UInt32.le_trans digit.2 (show '9'.val ≤ 127 by decide)

theorem digitsBytes (n room : Nat) (positive : 0 < room) (small : n < 10 ^ room) :
    String.utf8Len (Nat.toDigits 10 n) ≤ room := by
  rw [asciiBytes (fun c mem => digitBytes (Nat.isDigit_of_mem_toDigits (by decide) (by decide) mem))]
  exact Nat.toDigits_length 10 n room positive small

theorem attnumBytes {attnum : Int} (low : -2 ^ 15 ≤ attnum) (high : attnum < 2 ^ 15) :
    (toString attnum).utf8ByteSize ≤ 6 := by
  rw [← String.utf8Len_toList]
  cases attnum with
  | ofNat n =>
    rw [naturalText]
    exact digitsBytes n 6 (by decide) (by simp at high; omega)
  | negSucc n =>
    rw [negativeText,String.utf8Len_cons]
    have digits := digitsBytes (n + 1) 5 (by decide) (by omega)
    have minus : '-'.utf8Size = 1 := rfl
    omega

theorem candidateBytes {suffix : Nat} (small : suffix < 10 ^ 10) : (controlCandidate suffix).utf8ByteSize ≤ 18 := by
  rw [← String.utf8Len_toList,candidateText,String.utf8Len_append,String.utf8Len_append]
  have stem : String.utf8Len "__pg2cb".toList = 7 := by decide
  have underscore : String.utf8Len ['_'] = 1 := by decide
  have digits : String.utf8Len (suffixDigits suffix) ≤ 10 := by
    unfold suffixDigits
    split
    · simp
    · exact digitsBytes suffix 10 (by decide) small
  omega

end Lengths

section Layout
variable {schema : TableSchema} {target : QualifiedName} {staging : String} {plan : ApplyPlan}

theorem renderedColumns {columns : List ColumnPlan} {key : List String} {text}
    (ok : renderCreateTable target columns key = .ok text) :
    ∀ column ∈ columns, ∃ quoted, quoteIdentifier column.name = .ok quoted := by
  obtain ⟨definitions,rendered,_⟩ := bindOk.mp ok
  intro column mem
  obtain ⟨definition,_,here⟩ := relatedFrom (mapMOk.mp rendered) mem
  obtain ⟨quoted,named,_⟩ := bindOk.mp here
  exact ⟨quoted,mapErrorOk.mp named⟩

theorem plannedQuoted {table : CreateTablePlan} (ok : planCreateTable schema target = .ok table) :
    ∀ column ∈ table.columns, ∃ quoted, quoteIdentifier column.name = .ok quoted := by
  obtain ⟨_,_,ok⟩ := bindOk.mp ok
  obtain ⟨_,ok⟩ := iteOk.mp ok
  obtain ⟨state,_,ok⟩ := bindOk.mp ok
  obtain ⟨createSql,rendered,ok⟩ := bindOk.mp ok
  cases Except.ok.inj ok
  exact renderedColumns rendered

theorem validOfQuoted {name quoted : String} (ok : quoteIdentifier name = .ok quoted)
    (short : name.utf8ByteSize ≤ postgresIdentifierMaxBytes) : IdentifierValid name := by
  obtain ⟨named,ok⟩ := iteOk.mp ok
  obtain ⟨nulFree,_⟩ := iteOk.mp ok
  exact ⟨named,nulFree,short⟩

theorem attnumPlain (attnum : Int) : '\x00' ∉ (toString attnum).toList := by
  have digits (n : Nat) : '\x00' ∉ Nat.toDigits 10 n := by
    intro mem
    exact absurd (Nat.isDigit_of_mem_toDigits (by decide) (by decide) mem) (by decide)
  cases attnum with
  | ofNat n =>
    rw [naturalText]
    exact digits n
  | negSucc n =>
    rw [negativeText]
    simpa using digits (n + 1)

def Brief (text : String) : Prop := text.utf8ByteSize ≤ 15 ∧ '\x00' ∉ text.toList

theorem numberedBrief {label : String} {attnum : Int} (size : label.utf8ByteSize ≤ 8) (plain : '\x00' ∉ label.toList)
    (ranged : -2 ^ 15 ≤ attnum ∧ attnum < 2 ^ 15) : Brief (label ++ toString attnum) := by
  constructor
  · have digits := attnumBytes ranged.1 ranged.2
    rw [String.utf8ByteSize_append]
    omega
  · rw [String.toList_append,List.mem_append]
    exact fun mem => mem.elim plain (attnumPlain attnum)

theorem controlTextsBrief (ranged : AttnumsInRange schema) (plans : PlansTable schema plan.table) :
    ∀ text ∈ controlTexts plan schema, Brief text := by
  intro text mem
  rcases List.mem_cons.mp mem with rfl | mem
  · exact ⟨by decide,by decide⟩
  · rcases List.mem_append.mp mem with mem | mem
    · obtain ⟨column,kept,rfl⟩ := List.mem_map.mp mem
      obtain ⟨source,held,_,same⟩ := relatedMem plans.columns (List.mem_filter.mp kept).1
      rw [same]
      exact numberedBrief (by decide) (by decide) (ranged source held)
    · rcases List.mem_cons.mp mem with rfl | mem
      · exact ⟨by decide,by decide⟩
      · obtain ⟨column,kept,rfl⟩ := List.mem_map.mp mem
        exact numberedBrief (by decide) (by decide) (ranged column (memPrimaryKey.mp kept).1)

theorem controlValid {suffix : Nat} {text : String} (small : suffix < 10 ^ 10) (brief : Brief text) :
    IdentifierValid (controlCandidate suffix ++ text) := by
  have bytes := candidateBytes small
  have inside := candidateText suffix
  refine ⟨?_,?_,?_⟩
  · intro empty
    have texts := congrArg String.toList empty
    rw [String.toList_append,inside] at texts
    cases texts
  · rw [String.toList_append,inside]
    simp only [List.mem_append,not_or]
    refine ⟨⟨by decide,?_,by decide⟩,brief.2⟩
    unfold suffixDigits
    split
    · simp
    · intro mem
      exact absurd (Nat.isDigit_of_mem_toDigits (by decide) (by decide) mem) (by decide)
  · have room := brief.1
    rw [String.utf8ByteSize_append]
    unfold postgresIdentifierMaxBytes
    omega

variable (planned : planApply schema target staging = .ok plan)
include planned

theorem plannedTable : planCreateTable schema target = .ok plan.table ∧ plan.stagingName = staging ∧
    ∃ quoted, quoteIdentifier staging = .ok quoted := by
  obtain ⟨table,made,ok⟩ := bindOk.mp planned
  obtain ⟨_,_,ok⟩ := bindOk.mp ok
  obtain ⟨quoted,named,ok⟩ := bindOk.mp ok
  cases Except.ok.inj ok
  exact ⟨mapErrorOk.mp made,rfl,quoted,mapErrorOk.mp named⟩

theorem copyColumnsValid (distinct : AttnumsDistinct schema) (ranged : AttnumsInRange schema)
    (short : ∀ column ∈ schema.columns, column.name.utf8ByteSize ≤ postgresIdentifierMaxBytes) :
    ∀ name ∈ copyColumns plan, IdentifierValid name := by
  obtain ⟨plans,_⟩ := layoutSource planned
  have few : schema.columns.length < 2 ^ 32 := fewColumns distinct ranged
  obtain ⟨suffix,low,control,_⟩ := controlUnused (plans.length ▸ few)
  have small : suffix < 10 ^ 10 := by
    rw [plans.length] at low
    omega
  intro name mem
  rcases List.mem_append.mp ((copyColumnsPerm planned).mem_iff.mp mem) with data | derived
  · obtain ⟨column,held,rfl⟩ := List.mem_map.mp data
    obtain ⟨quoted,ok⟩ := plannedQuoted (plannedTable planned).1 column held
    obtain ⟨source,kept,_,same⟩ := relatedMem plans.columns held
    refine validOfQuoted ok ?_
    rw [same]
    exact short source kept
  · obtain ⟨text,kept,rfl⟩ := List.mem_map.mp derived
    rw [control]
    exact controlValid small (controlTextsBrief ranged plans text kept)

omit planned in
theorem stagingColumnNames (operation : String) : (stagingColumns plan operation).map Prod.fst =
    plan.copyLayout.operationColumn :: plan.table.columns.map ColumnPlan.name ++
      plan.copyLayout.presenceColumns.map PresenceColumn.stagingColumnName ++
      plan.copyLayout.oldKeyPresentColumn :: plan.copyLayout.oldKeyColumns.map OldKeyColumn.stagingColumnName := by
  simp [stagingColumns,Function.comp_def]

theorem stagingColumnOrder (operation : String) : (stagingColumns plan operation).map Prod.fst = copyColumns plan := by
  have layout := (layoutSource planned).2
  rw [stagingColumnNames,copyColumns,layout]

structure StagingNamed (schema : TableSchema) (plan : ApplyPlan) : Prop where
  data : plan.copyLayout.dataColumns = schema.columns.map ColumnSchema.name
  distinct : (copyColumns plan).Nodup
  short : ∀ name ∈ copyColumns plan, name.utf8ByteSize ≤ postgresIdentifierMaxBytes
  created : ∃ definitions text, stagingDefinitions plan = .ok definitions ∧
    List.Forall₂ Defines (copyColumns plan) definitions ∧ createStagingSql plan = .ok text
  copied : ∃ quoted text, (copyColumns plan).mapM quoteIdentifier = .ok quoted ∧
    List.Forall₂ ReadsAs (copyColumns plan) quoted ∧ copySql plan = .ok text

omit planned in
theorem operationOk {name : String} (valid : IdentifierValid name) : ∃ text, operationDefinition name = .ok text := by
  obtain ⟨quoted,ok⟩ := quotedOk valid
  exact ⟨_,bindOk.mpr ⟨quoted,ok,rfl⟩⟩

theorem keyQuoted : ∃ key, quoteIdentifierList plan.table.primaryKey = .ok key := by
  obtain ⟨plans,_⟩ := layoutSource planned
  have each : ∀ name ∈ plan.table.primaryKey, ∃ quoted, quoteIdentifier name = .ok quoted := by
    intro name mem
    rw [plans.primaryKey] at mem
    obtain ⟨column,kept,rfl⟩ := List.mem_map.mp mem
    obtain ⟨index,found⟩ := List.getElem?_of_mem (memPrimaryKey.mp kept).1
    obtain ⟨planned',held,_,same⟩ := relatedAt plans.columns found
    have quoted := plannedQuoted (plannedTable planned).1 planned' (List.mem_of_getElem? held)
    rwa [same] at quoted
  cases rendered : plan.table.primaryKey.mapM quoteIdentifier with
  | ok texts => exact ⟨_,bindOk.mpr ⟨texts,rendered,rfl⟩⟩
  | error failure =>
    obtain ⟨name,mem,failed⟩ := mapMError rendered
    obtain ⟨quoted,ok⟩ := each name mem
    rw [ok] at failed
    contradiction

theorem stagingNamed (distinct : AttnumsDistinct schema) (ranged : AttnumsInRange schema)
    (short : ∀ column ∈ schema.columns, column.name.utf8ByteSize ≤ postgresIdentifierMaxBytes) :
    StagingNamed schema plan := by
  have valid := copyColumnsValid planned distinct ranged short
  obtain ⟨plans,layout⟩ := layoutSource planned
  obtain ⟨_,same,staged,named⟩ := plannedTable planned
  obtain ⟨key,keyed⟩ := keyQuoted planned
  obtain ⟨operation,opened⟩ := operationOk (valid plan.copyLayout.operationColumn (by simp [copyColumns]))
  have order := stagingColumnOrder planned operation
  have each : ∀ column ∈ stagingColumns plan operation, IdentifierValid column.1 := by
    intro column mem
    exact valid column.1 (order ▸ List.mem_map_of_mem mem)
  obtain ⟨definitions,rendered,defines⟩ := definitionsName each
  obtain ⟨quoted,listed,reads⟩ := quotedList valid
  have defined : stagingDefinitions plan = .ok definitions := bindOk.mpr ⟨operation,opened,rendered⟩
  refine ⟨?_,copyColumnsNodup planned distinct ranged,fun name mem => (valid name mem).2.2,
    ⟨definitions,_,defined,order ▸ defines,bindOk.mpr ⟨staged,same ▸ named,bindOk.mpr ⟨definitions,defined,
      bindOk.mpr ⟨key,keyed,rfl⟩⟩⟩⟩,
    ⟨quoted,_,listed,reads,bindOk.mpr ⟨staged,same ▸ named,bindOk.mpr ⟨_,bindOk.mpr ⟨quoted,listed,rfl⟩,rfl⟩⟩⟩⟩
  rw [layout]
  exact plans.names

end Layout

/-- The search for a control prefix ends after at most one candidate more than the table has columns, at the first that
no column begins with. Behind it the control columns are named apart from each other and from every data column, within
the server's limit, and both statements name every staging column as one identifier that the server reads whole. -/
theorem stagingNamesApart {schema : TableSchema} (distinct : AttnumsDistinct schema) (ranged : AttnumsInRange schema)
    (short : ∀ column ∈ schema.columns, column.name.utf8ByteSize ≤ postgresIdentifierMaxBytes)
    (target : QualifiedName) :
    (∀ table, planCreateTable schema target = .ok table → ∃ suffix ≤ table.columns.length, FirstUnused table suffix ∧
      unusedControlPrefix table = controlCandidate suffix ∧
      ∀ fuel > table.columns.length, controlPrefixFrom table fuel 0 = controlCandidate suffix) ∧
    ∀ staging plan, planApply schema target staging = .ok plan → StagingNamed schema plan := by
  constructor
  · intro table made
    obtain ⟨suffix,low,first,found⟩ := controlPrefixEnds table
    have few : table.columns.length < 2 ^ 32 := (planCreateTableSource made).1.length ▸ fewColumns distinct ranged
    exact ⟨suffix,low,first,found _ few,found⟩
  · intro staging plan planned
    exact stagingNamed planned distinct ranged short

def imitating : TableSchema :=
  ⟨16386,1,accounts.name,.ordinary,.default,
    [⟨1,"__pg2cb_op",⟨20,⟨"pg_catalog","int8",pgCatalogValid,int8Valid⟩,.int8⟩,false,some 1,.none,.none,none⟩,
     ⟨2,"__pg2cb1_old_1",⟨25,⟨"pg_catalog","text",pgCatalogValid,textValid⟩,.text⟩,true,none,.none,.none,none⟩],[],[]⟩

theorem imitatingNamesApart : ∃ plan, planApply imitating imitating.name "pg2cb_stage" = .ok plan ∧
    StagingNamed imitating plan := by
  obtain ⟨plan,planned⟩ : ∃ plan, planApply imitating imitating.name "pg2cb_stage" = .ok plan :=
    okOfToOption (by decide +kernel)
  exact ⟨plan,planned,(stagingNamesApart (by decide) (by decide) (by decide) imitating.name).2 "pg2cb_stage" plan planned⟩

end CloudberryEtl.StagingStatements
