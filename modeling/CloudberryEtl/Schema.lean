import Mathlib

/-! Source identifiers, types and table schemas of `core::schema`, with the errors of `core::error`.
`Vec<&ColumnSchema>` is a list of columns; the stable `sort_by_key` is the insertion sort. -/
namespace CloudberryEtl.Schema

inductive CoreError where
  | invalidLsn (text : String)
  | invalidIdentifier (text : String)
  | invalidPrefix (text : String)
  | missingPrimaryKey (table : String)
  | unsupportedTable (table reason : String)
  | invalidTupleArity (relationId expected actual : Nat)
  deriving DecidableEq, Repr

def postgresIdentifierMaxBytes : Nat := 63

def IdentifierValid (value : String) : Prop :=
  value ≠ "" ∧ '\x00' ∉ value.toList ∧ value.utf8ByteSize ≤ postgresIdentifierMaxBytes

instance (value : String) : Decidable (IdentifierValid value) := by
  unfold IdentifierValid; infer_instance

def validateIdentifier (value : String) : Except CoreError Unit :=
  if IdentifierValid value then .ok () else .error (.invalidIdentifier value)

theorem asciiBytes {text : List Char} (ascii : ∀ c ∈ text, c.utf8Size = 1) : String.utf8Len text = text.length := by
  induction text with
  | nil => rfl
  | cons c text ih =>
    rw [String.utf8Len_cons,ascii c (by simp),ih (fun other mem => ascii other (by simp [mem])),List.length_cons]

/- `QualifiedName::new` is the only constructor used outside the type, also by its deserializer. -/
structure QualifiedName where
  schema : String
  name : String
  schemaValid : IdentifierValid schema
  nameValid : IdentifierValid name
  deriving DecidableEq, Repr

def QualifiedName.new (schema name : String) : Except CoreError QualifiedName :=
  if hs : IdentifierValid schema then
    if hn : IdentifierValid name then .ok ⟨schema,name,hs,hn⟩
    else .error (.invalidIdentifier name)
  else .error (.invalidIdentifier schema)

def QualifiedName.display (name : QualifiedName) : String := name.schema ++ "." ++ name.name

theorem QualifiedName.newSource {schema name value} (ok : QualifiedName.new schema name = .ok value) :
    value.schema = schema ∧ value.name = name := by
  unfold QualifiedName.new at ok
  split at ok <;> try contradiction
  split at ok <;> try contradiction
  cases Except.ok.inj ok
  exact ⟨rfl,rfl⟩

theorem QualifiedName.newValid (value : QualifiedName) : QualifiedName.new value.schema value.name = .ok value := by
  simp [QualifiedName.new,value.schemaValid,value.nameValid]

theorem accountsShadow2Valid : IdentifierValid "accounts_shadow_2" := by decide

theorem accountsShadowValid : IdentifierValid "accounts_shadow" := by decide

theorem accountsValid : IdentifierValid "accounts" := by decide

theorem appValid : IdentifierValid "app" := by decide

theorem dwValid : IdentifierValid "dw" := by decide

theorem int8Valid : IdentifierValid "int8" := by decide

theorem legacyValid : IdentifierValid "legacy" := by decide

theorem ordersShadowValid : IdentifierValid "orders_shadow" := by decide

theorem ordersValid : IdentifierValid "orders" := by decide

theorem pgCatalogValid : IdentifierValid "pg_catalog" := by decide

theorem publicValid : IdentifierValid "public" := by decide

theorem returnsShadowValid : IdentifierValid "returns_shadow" := by decide

theorem returnsValid : IdentifierValid "returns" := by decide

theorem sampleShadowValid : IdentifierValid "pg2cb_shadow_00000000000000000000000000000007_16510_1" := by decide

theorem sharedValid : IdentifierValid "shared" := by decide

theorem srcAppValid : IdentifierValid "src__app__app" := by decide

theorem statusValid : IdentifierValid "status" := by decide

theorem textValid : IdentifierValid "text" := by decide

theorem upperOrdersValid : IdentifierValid "Orders" := by decide

mutual
inductive PgTypeKind where
  | bool | int2 | int4 | int8
  | numeric (precision : Option Nat) (scale : Option Int)
  | float4 | float8 | text
  | varChar (length : Option Nat)
  | char (length : Option Nat)
  | bytea | date
  | time (precision : Option Nat) (withTimeZone : Bool)
  | timestamp (precision : Option Nat) (withTimeZone : Bool)
  | interval (precision : Option Nat)
  | uuid | json | jsonb | inet | cidr | macAddr | macAddr8
  | bit (length : Option Nat) (varying : Bool)
  | xml
  | enum (labels : List String)
  | domain (base : PgType) (constraints : List String)
  | array (element : PgType)
  | unsupported (reason : String)
  deriving DecidableEq, Repr

structure PgType where
  oid : Nat
  name : QualifiedName
  kind : PgTypeKind
  deriving DecidableEq, Repr
end

mutual
def PgTypeKind.isSupported : PgTypeKind → Bool
  | .unsupported _ => false
  | .array element => element.isSupported
  | .domain base _ => base.isSupported
  | _ => true

def PgType.isSupported : PgType → Bool
  | ⟨_,_,kind⟩ => kind.isSupported
end

inductive GeneratedColumn where
  | none | stored | virtual
  deriving DecidableEq, Repr

inductive IdentityColumn where
  | none | always | byDefault
  deriving DecidableEq, Repr

structure ColumnSchema where
  attnum : Int
  name : String
  dataType : PgType
  nullable : Bool
  primaryKeyOrdinal : Option Nat
  generated : GeneratedColumn
  identity : IdentityColumn
  collation : Option QualifiedName
  deriving DecidableEq, Repr

inductive TableKind where
  | ordinary | partitioned | citusDistributed | citusReference | citusLocal
  deriving DecidableEq, Repr

inductive ReplicaIdentity where
  | default | index | full | nothing
  deriving DecidableEq, Repr

structure TableSchema where
  relationId : Nat
  generation : Nat
  name : QualifiedName
  kind : TableKind
  replicaIdentity : ReplicaIdentity
  columns : List ColumnSchema
  distributionKey : List Int
  partitionKey : List Int
  deriving DecidableEq, Repr

def ColumnSchema.isKey (column : ColumnSchema) : Bool := column.primaryKeyOrdinal.isSome

def ordinalLe (a b : ColumnSchema) : Prop := a.primaryKeyOrdinal.getD 0 ≤ b.primaryKeyOrdinal.getD 0

instance : DecidableRel ordinalLe := fun a b => by unfold ordinalLe; infer_instance

def TableSchema.primaryKey (schema : TableSchema) : List ColumnSchema :=
  (schema.columns.filter ColumnSchema.isKey).insertionSort ordinalLe

def TableSchema.unsupported (schema : TableSchema) (reason : String) : CoreError :=
  .unsupportedTable schema.name.display reason

def TableSchema.validateSupported (schema : TableSchema) : Except CoreError Unit :=
  let primaryKey := schema.primaryKey
  if primaryKey.isEmpty then .error (.missingPrimaryKey schema.name.display)
  else if schema.replicaIdentity ≠ .default then .error (schema.unsupported "REPLICA IDENTITY must be DEFAULT")
  else match schema.columns.find? (fun c => !c.dataType.kind.isSupported || c.generated == .virtual) with
  | some column => .error (schema.unsupported
      ("column " ++ column.name ++ " uses an unsupported type or virtual generation"))
  | none =>
    if schema.kind = .citusDistributed ∧
        ¬ schema.distributionKey.all (fun attnum => primaryKey.any (fun c => c.attnum == attnum)) then
      .error (schema.unsupported "Citus primary key must contain the distribution key")
    else .ok ()

theorem memPrimaryKey {schema : TableSchema} {column} :
    column ∈ schema.primaryKey ↔ column ∈ schema.columns ∧ column.isKey := by
  simp [TableSchema.primaryKey,List.mem_insertionSort,List.mem_filter]

theorem primaryKeyPerm (schema : TableSchema) :
    schema.primaryKey.Perm (schema.columns.filter ColumnSchema.isKey) := List.perm_insertionSort _ _

theorem primaryKeyNeNil {schema : TableSchema} (ok : schema.validateSupported = .ok ()) : schema.primaryKey ≠ [] := by
  intro empty
  simp [TableSchema.validateSupported,empty] at ok

end CloudberryEtl.Schema
