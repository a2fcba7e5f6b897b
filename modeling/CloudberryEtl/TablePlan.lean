import CloudberryEtl.Result
import CloudberryEtl.SqlText

/-! Translation of a source table to Cloudberry DDL, from `target::schema`. -/
namespace CloudberryEtl.TablePlan
open Schema SqlText Result

def maxNumericPrecision : Nat := 1000
def maxCharacterLength : Nat := 10485760
def maxBitLength : Nat := 83886080
def maxDatetimePrecision : Nat := 6

inductive SchemaError where
  | core (error : CoreError)
  | sql (error : SqlRenderError)
  | unsupportedType (dataType reason : String)
  | invalidTypmod (dataType reason : String)
  | unsupportedTableKind (kind : TableKind)
  | duplicateColumn (name : String)
  | invalidPrimaryKeyOrdinal (ordinal : Nat)
  | conflictingUserType (name : String)
  deriving DecidableEq, Repr

inductive UserTypeDefinition where
  | enum (labels : List String)
  | domain (baseSql : String)
  deriving DecidableEq, Repr

structure UserTypePlan where
  name : QualifiedName
  createSql : String
  definition : UserTypeDefinition
  deriving DecidableEq, Repr

structure TypePlan where
  sql : String
  prerequisites : List UserTypePlan
  deriving DecidableEq, Repr

structure ColumnPlan where
  sourceAttnum : Int
  name : String
  typeSql : String
  nullable : Bool
  primaryKeyOrdinal : Option Nat
  deriving DecidableEq, Repr

-- `TargetStorage` has the single value `Heap`; the plan leaves it out.
structure CreateTablePlan where
  target : QualifiedName
  columns : List ColumnPlan
  primaryKey : List String
  distributionKey : List String
  prerequisites : List UserTypePlan
  createSql : String
  deriving DecidableEq, Repr

def invalidTypmod (dataType reason : String) : SchemaError := .invalidTypmod dataType reason

def unsupportedType (name : QualifiedName) (reason : String) : SchemaError := .unsupportedType name.display reason

def validatePrecision (precision : Nat) : Except SchemaError Unit :=
  if 1 ≤ precision ∧ precision ≤ maxNumericPrecision then .ok ()
  else .error (invalidTypmod "numeric" ("precision must be between 1 and " ++ toString maxNumericPrecision))

def numericSql : Option Nat → Option Int → Except SchemaError String
  | none,none => .ok "numeric"
  | some precision,none => do
      validatePrecision precision
      .ok ("numeric(" ++ toString precision ++ ")")
  | some precision,some scale => do
      validatePrecision precision
      if scale < 0 then
        .error (invalidTypmod "numeric"
          "negative scale is a PostgreSQL 15+ feature absent from the PG14-based target")
      else if scale.toNat > precision then
        .error (invalidTypmod "numeric" "scale must not exceed precision on Cloudberry 2.1")
      else .ok ("numeric(" ++ toString precision ++ "," ++ toString scale ++ ")")
  | none,some _ => .error (invalidTypmod "numeric" "scale cannot be specified without precision")

def lengthSql (dataType : String) (bound : Nat) : Option Nat → Except SchemaError String
  | none => .ok dataType
  | some length =>
      if 1 ≤ length ∧ length ≤ bound then .ok (dataType ++ "(" ++ toString length ++ ")")
      else .error (invalidTypmod dataType ("length must be between 1 and " ++ toString bound))

def characterSql (dataType : String) (length : Option Nat) : Except SchemaError String :=
  lengthSql dataType maxCharacterLength length

def bitSql (length : Option Nat) (varying : Bool) : Except SchemaError String :=
  lengthSql (if varying then "bit varying" else "bit") maxBitLength length

def precisionSuffix (dataType : String) : Option Nat → Except SchemaError String
  | none => .ok ""
  | some precision =>
      if precision ≤ maxDatetimePrecision then .ok ("(" ++ toString precision ++ ")")
      else .error (invalidTypmod dataType ("precision must be at most " ++ toString maxDatetimePrecision))

def datetimeSql (dataType : String) (precision : Option Nat) (withTimeZone : Bool) : Except SchemaError String := do
  let precision ← precisionSuffix dataType precision
  return dataType ++ precision ++ (if withTimeZone then " with time zone" else " without time zone")

def coreResult {α : Type} : Except CoreError α → Except SchemaError α := Except.mapError .core

def sqlResult {α : Type} : Except SqlRenderError α → Except SchemaError α := Except.mapError .sql

mutual
def planKindInner (name : QualifiedName) (targetTypeSchema : String) (prerequisites : List UserTypePlan) :
    PgTypeKind → Except SchemaError (String × List UserTypePlan)
  | .bool => .ok ("boolean",prerequisites)
  | .int2 => .ok ("smallint",prerequisites)
  | .int4 => .ok ("integer",prerequisites)
  | .int8 => .ok ("bigint",prerequisites)
  | .numeric precision scale => do return (← numericSql precision scale,prerequisites)
  | .float4 => .ok ("real",prerequisites)
  | .float8 => .ok ("double precision",prerequisites)
  | .text => .ok ("text",prerequisites)
  | .varChar length => do return (← characterSql "character varying" length,prerequisites)
  | .char length => do return (← characterSql "character" length,prerequisites)
  | .bytea => .ok ("bytea",prerequisites)
  | .date => .ok ("date",prerequisites)
  | .time precision zone => do return (← datetimeSql "time" precision zone,prerequisites)
  | .timestamp precision zone => do return (← datetimeSql "timestamp" precision zone,prerequisites)
  | .interval precision => do return ("interval" ++ (← precisionSuffix "interval" precision),prerequisites)
  | .uuid => .ok ("uuid",prerequisites)
  | .json => .ok ("json",prerequisites)
  | .jsonb => .ok ("jsonb",prerequisites)
  | .inet => .ok ("inet",prerequisites)
  | .cidr => .ok ("cidr",prerequisites)
  | .macAddr => .ok ("macaddr",prerequisites)
  | .macAddr8 => .ok ("macaddr8",prerequisites)
  | .bit length varying => do return (← bitSql length varying,prerequisites)
  | .xml => .error (unsupportedType name "XML is outside the verified current-state type contract")
  | .enum labels => do
      if labels.isEmpty then .error (unsupportedType name "enum has no labels")
      else if ¬ labels.Nodup then .error (unsupportedType name "enum has duplicate labels")
      else
        let targetName ← coreResult (QualifiedName.new targetTypeSchema name.name)
        let rendered ← sqlResult (labels.mapM quoteLiteral)
        let quoted ← sqlResult (quoteQualifiedName targetName)
        let plan : UserTypePlan := ⟨targetName,
          "CREATE TYPE " ++ quoted ++ " AS ENUM (" ++ ", ".intercalate rendered ++ ")",.enum labels⟩
        .ok (quoted,prerequisites ++ [plan])
  | .domain base constraints => do
      if ¬ constraints.isEmpty then .error (unsupportedType name "raw domain constraints are not safe to replay")
      else
        let (baseSql,prerequisites) ← planTypeInner targetTypeSchema prerequisites base
        let targetName ← coreResult (QualifiedName.new targetTypeSchema name.name)
        let quoted ← sqlResult (quoteQualifiedName targetName)
        let plan : UserTypePlan := ⟨targetName,"CREATE DOMAIN " ++ quoted ++ " AS " ++ baseSql,.domain baseSql⟩
        .ok (quoted,prerequisites ++ [plan])
  | .array element => do
      let (sql,prerequisites) ← planTypeInner targetTypeSchema prerequisites element
      .ok (sql ++ "[]",prerequisites)
  | .unsupported reason => .error (unsupportedType name reason)

def planTypeInner (targetTypeSchema : String) (prerequisites : List UserTypePlan) :
    PgType → Except SchemaError (String × List UserTypePlan)
  | ⟨_,name,kind⟩ => planKindInner name targetTypeSchema prerequisites kind
end

def planType (dataType : PgType) (targetTypeSchema : String) : Except SchemaError TypePlan := do
  let (sql,prerequisites) ← planTypeInner targetTypeSchema [] dataType
  return ⟨sql,prerequisites⟩

def addPrerequisite (prerequisites : List UserTypePlan) (new : UserTypePlan) :
    Except SchemaError (List UserTypePlan) :=
  match prerequisites.find? (fun existing => existing.name.display = new.name.display) with
  | some existing =>
      if existing ≠ new then .error (.conflictingUserType new.name.display) else .ok prerequisites
  | none => .ok (prerequisites ++ [new])

def collationSql (target : QualifiedName) : Option QualifiedName → Except SchemaError String
  | none => .ok ""
  | some source => do
      let name ← if source.schema = "pg_catalog" then .ok source
        else coreResult (QualifiedName.new target.schema source.name)
      return " COLLATE " ++ (← sqlResult (quoteQualifiedName name))

structure PlanState where
  names : List String
  pkOrdinals : List Nat
  columns : List ColumnPlan
  prerequisites : List UserTypePlan

def columnPlan (column : ColumnSchema) (typeSql : String) : ColumnPlan where
  sourceAttnum := column.attnum
  name := column.name
  typeSql := typeSql
  nullable := column.nullable
  primaryKeyOrdinal := column.primaryKeyOrdinal

def insertOrdinal (ordinals : List Nat) : Option Nat → Except SchemaError (List Nat)
  | none => .ok ordinals
  | some ordinal =>
      if ordinal = 0 ∨ ordinal ∈ ordinals then .error (.invalidPrimaryKeyOrdinal ordinal)
      else .ok (ordinal :: ordinals)

def planColumn (target : QualifiedName) (state : PlanState) (column : ColumnSchema) :
    Except SchemaError PlanState := do
  if column.name ∈ state.names then .error (.duplicateColumn column.name)
  else
    let pkOrdinals ← insertOrdinal state.pkOrdinals column.primaryKeyOrdinal
    if column.generated = .virtual then
      .error (unsupportedType column.dataType.name
        "virtual generated columns cannot be materialized from pgoutput")
    else
      let mapped ← planType column.dataType target.schema
      let prerequisites ← mapped.prerequisites.foldlM addPrerequisite state.prerequisites
      let collation ← collationSql target column.collation
      .ok ⟨column.name :: state.names,pkOrdinals,
        state.columns ++ [columnPlan column (mapped.sql ++ collation)],prerequisites⟩

def renderColumn (column : ColumnPlan) : Except SchemaError String := do
  let quoted ← sqlResult (quoteIdentifier column.name)
  return "    " ++ quoted ++ " " ++ column.typeSql ++ (if column.nullable then "" else " NOT NULL")

def renderCreateTable (target : QualifiedName) (columns : List ColumnPlan) (primaryKey : List String) :
    Except SchemaError String := do
  let definitions ← columns.mapM renderColumn
  let quotedKey ← sqlResult (quoteIdentifierList primaryKey)
  let quotedTarget ← sqlResult (quoteQualifiedName target)
  return "CREATE TABLE " ++ quotedTarget ++ " (\n" ++
    ",\n".intercalate (definitions ++ ["    PRIMARY KEY (" ++ quotedKey ++ ")"]) ++
    "\n)\nUSING heap\nDISTRIBUTED BY (" ++ quotedKey ++ ")"

def planCreateTable (source : TableSchema) (target : QualifiedName) : Except SchemaError CreateTablePlan := do
  coreResult source.validateSupported
  if source.kind ≠ .ordinary ∧ source.kind ≠ .citusDistributed then .error (.unsupportedTableKind source.kind)
  else
    let state ← source.columns.foldlM (planColumn target) ⟨[],[],[],[]⟩
    let primaryKey := source.primaryKey.map ColumnSchema.name
    let createSql ← renderCreateTable target state.columns primaryKey
    .ok ⟨target,state.columns,primaryKey,primaryKey,state.prerequisites,createSql⟩

structure Planned (past : List ColumnSchema) (state : PlanState) : Prop where
  columns : List.Forall₂ (fun column plan => ∃ sql, plan = columnPlan column sql) past state.columns
  names : state.names = (past.map ColumnSchema.name).reverse
  namesNodup : state.names.Nodup
  ordinals : state.pkOrdinals = (past.filterMap ColumnSchema.primaryKeyOrdinal).reverse
  ordinalsNodup : state.pkOrdinals.Nodup
  ordinalsPositive : 0 ∉ state.pkOrdinals

theorem insertOrdinalSource {ordinals ordinal result} (ok : insertOrdinal ordinals ordinal = .ok result) :
    result = ordinal.toList ++ ordinals ∧ (ordinals.Nodup → result.Nodup) ∧ (0 ∉ ordinals → 0 ∉ result) := by
  cases ordinal with
  | none => cases Except.ok.inj ok; exact ⟨rfl,id,id⟩
  | some ordinal =>
    obtain ⟨guard,ok⟩ := iteOk.mp ok
    cases Except.ok.inj ok
    push Not at guard
    refine ⟨rfl,fun unique => List.nodup_cons.mpr ⟨guard.2,unique⟩,fun positive => ?_⟩
    simpa using ⟨guard.1.symm,positive⟩

theorem planColumnPlanned {target past state column next} (before : Planned past state)
    (ok : planColumn target state column = .ok next) : Planned (past ++ [column]) next := by
  obtain ⟨fresh,ok⟩ := iteOk.mp ok
  obtain ⟨ordinals,inserted,ok⟩ := bindOk.mp ok
  obtain ⟨_,ok⟩ := iteOk.mp ok
  obtain ⟨mapped,_,ok⟩ := bindOk.mp ok
  obtain ⟨prerequisites,_,ok⟩ := bindOk.mp ok
  obtain ⟨collation,_,ok⟩ := bindOk.mp ok
  cases Except.ok.inj ok
  obtain ⟨same,unique,positive⟩ := insertOrdinalSource inserted
  refine ⟨List.rel_append before.columns (.cons ⟨_,rfl⟩ .nil),?_,List.nodup_cons.mpr ⟨fresh,before.namesNodup⟩,?_,
    unique before.ordinalsNodup,positive before.ordinalsPositive⟩
  · simp [before.names]
  · rw [same,before.ordinals,List.filterMap_append,List.reverse_append]
    cases h : column.primaryKeyOrdinal <;> simp [h]

structure PlansTable (source : TableSchema) (plan : CreateTablePlan) : Prop where
  supported : source.validateSupported = .ok ()
  kind : source.kind = .ordinary ∨ source.kind = .citusDistributed
  columns : List.Forall₂ (fun column plan => ∃ sql, plan = columnPlan column sql) source.columns plan.columns
  primaryKey : plan.primaryKey = source.primaryKey.map ColumnSchema.name
  namesNodup : (source.columns.map ColumnSchema.name).Nodup
  ordinalsNodup : (source.columns.filterMap ColumnSchema.primaryKeyOrdinal).Nodup
  ordinalsPositive : 0 ∉ source.columns.filterMap ColumnSchema.primaryKeyOrdinal

theorem planCreateTableSource {source target plan} (ok : planCreateTable source target = .ok plan) :
    PlansTable source plan ∧ plan.target = target := by
  obtain ⟨_,supported,ok⟩ := bindOk.mp ok
  obtain ⟨kind,ok⟩ := iteOk.mp ok
  obtain ⟨state,folded,ok⟩ := bindOk.mp ok
  obtain ⟨createSql,_,ok⟩ := bindOk.mp ok
  cases Except.ok.inj ok
  have start : Planned [] ⟨[],[],[],[]⟩ := ⟨.nil,rfl,.nil,rfl,.nil,by simp⟩
  have planned : Planned source.columns state :=
    foldlMInvariant (fun _ _ _ _ => planColumnPlanned) source.columns [] _ state start folded
  have names := planned.namesNodup
  have ordinals := planned.ordinalsNodup
  have positive := planned.ordinalsPositive
  rw [planned.names,List.nodup_reverse] at names
  rw [planned.ordinals,List.nodup_reverse] at ordinals
  rw [planned.ordinals,List.mem_reverse] at positive
  refine ⟨⟨mapErrorOk.mp supported,?_,planned.columns,rfl,names,ordinals,positive⟩,rfl⟩
  by_contra other
  push Not at other
  exact kind other

theorem PlansTable.length {source plan} (plans : PlansTable source plan) :
    plan.columns.length = source.columns.length := plans.columns.length_eq.symm

theorem plannedField {α : Type} {f : ColumnPlan → α} {g : ColumnSchema → α}
    (same : ∀ column sql, f (columnPlan column sql) = g column) {columns : List ColumnSchema} {plans : List ColumnPlan}
    (planned : List.Forall₂ (fun column plan => ∃ sql, plan = columnPlan column sql) columns plans) :
    plans.map f = columns.map g := by
  induction planned with
  | nil => rfl
  | cons head tail ih =>
    obtain ⟨sql,rfl⟩ := head
    simp [same,ih]

theorem PlansTable.names {source plan} (plans : PlansTable source plan) :
    plan.columns.map ColumnPlan.name = source.columns.map ColumnSchema.name :=
  plannedField (fun _ _ => rfl) plans.columns

end CloudberryEtl.TablePlan
