import CloudberryEtl.Planning
import CloudberryEtl.Settings

/-! The table inventory of `source-postgres::catalog`. The system catalog is the lists of its rows with the foreign rows
(attributes, indexes, enum labels, constraint definitions) kept at their owner; a hash map is a lookup in such a list. -/
namespace CloudberryEtl.Catalog
open Schema Change Result Settings
open Planning (RejectedTable TableInventory)

inductive SourceError where
  | contract (message : String)
  | unsupported (message : String)
  | invalidIdentifier (value : String)
  | invalidLsn (value : String)
  | stackOverflow
  deriving DecidableEq, Repr

def coreErrorText : CoreError → String
  | .invalidLsn text => "invalid PostgreSQL LSN `" ++ text ++ "`"
  | .invalidIdentifier text => "invalid SQL identifier: " ++ text
  | .invalidPrefix text => "invalid source prefix `" ++ text ++ "`; use lowercase ASCII letters, digits, and underscores"
  | .missingPrimaryKey table => "table " ++ table ++ " has no supported primary key"
  | .unsupportedTable table reason => "table " ++ table ++ " is unsupported: " ++ reason
  | .invalidTupleArity relationId expected actual => "row for relation " ++ toString relationId ++ " has " ++
      toString actual ++ " values, expected " ++ toString expected

section SystemCatalog

structure PgNamespace where
  oid : Nat
  nspname : String
  named : IdentifierValid nspname
  deriving Repr

instance : DecidableEq PgNamespace := fun left right =>
  decidable_of_iff (left.oid = right.oid ∧ left.nspname = right.nspname) (by
    cases left
    cases right
    simp)

structure PgCollation where
  oid : Nat
  collname : String
  collnamespace : Nat
  deriving DecidableEq, Repr

/- A row of `pg_type` with its `pg_enum` labels in sort order and the definitions of its constraints in OID order. -/
structure PgTypeRow where
  oid : Nat
  typname : String
  typnamespace : Nat
  typtype : String
  typbasetype : Nat
  typelem : Nat
  labels : List String
  constraints : List String
  deriving DecidableEq, Repr

structure PgAttribute where
  attnum : Int
  attname : String
  atttypid : Nat
  atttypmod : Int
  attnotnull : Bool
  attisdropped : Bool
  attgenerated : Bytes
  attidentity : Bytes
  attcollation : Nat
  deriving DecidableEq, Repr

def indexMaxKeys : Nat := 32

/- The first `indnkeyatts` entries are the key columns, the others come from INCLUDE. PostgreSQL refuses a key that names
a column twice. -/
structure PgIndex where
  indisprimary : Bool
  indisvalid : Bool
  indisready : Bool
  indimmediate : Bool
  indkey : List Int
  indnkeyatts : Nat
  bounded : indkey.length ≤ indexMaxKeys
  distinct : (indkey.take indnkeyatts).Nodup
  deriving DecidableEq, Repr

theorem oneKeyBounded : ([1] : List Int).length ≤ indexMaxKeys := by decide

theorem oneKeyDistinct : (([1] : List Int).take 1).Nodup := by decide

def PgIndex.keyColumns (index : PgIndex) : List Int := index.indkey.take index.indnkeyatts

def PgIndex.includedColumns (index : PgIndex) : List Int := index.indkey.drop index.indnkeyatts

def PgAttribute.live (attr : PgAttribute) : Bool := 0 < attr.attnum && !attr.attisdropped

-- A primary key is made of live columns of its table, the included ones too.
structure PgClass where
  oid : Nat
  relname : String
  relnamespace : Nat
  relkind : String
  relpersistence : String
  relispartition : Bool
  relreplident : String
  partattrs : Option String
  attributes : List PgAttribute
  indexes : List PgIndex
  oidRange : oid < 2 ^ 32
  attnums : (attributes.map PgAttribute.attnum).Nodup
  indexed : ∀ index ∈ indexes, index.indisprimary → ∀ attnum ∈ index.indkey,
    ∃ attr ∈ attributes, attr.attnum = attnum ∧ attr.live
  deriving DecidableEq, Repr

structure PgCatalog where
  namespaces : List PgNamespace
  types : List PgTypeRow
  collations : List PgCollation
  classes : List PgClass
  oids : (classes.map PgClass.oid).Nodup
  deriving DecidableEq, Repr

theorem oneOid (relation : PgClass) : ([relation].map PgClass.oid).Nodup := List.nodup_singleton _

def PgCatalog.nspname (catalog : PgCatalog) (oid : Nat) : Option String :=
  (catalog.namespaces.find? (fun ns => ns.oid = oid)).map PgNamespace.nspname

end SystemCatalog

structure TypeDescriptor where
  oid : Nat
  schema : String
  name : String
  typtype : String
  baseOid : Option Nat
  elementOid : Option Nat
  labels : List String
  constraints : List String
  deriving DecidableEq, Repr

def nullIfZero (oid : Nat) : Option Nat := if oid = 0 then none else some oid

def typeDescriptor (catalog : PgCatalog) (row : PgTypeRow) : Option TypeDescriptor :=
  (catalog.nspname row.typnamespace).map (fun schema => ⟨row.oid,schema,row.typname,row.typtype,
    nullIfZero row.typbasetype,nullIfZero row.typelem,row.labels,row.constraints⟩)

def loadTypeDescriptors (catalog : PgCatalog) : List TypeDescriptor := catalog.types.filterMap (typeDescriptor catalog)

def typeOf (all : List TypeDescriptor) (oid : Nat) : Option TypeDescriptor :=
  all.find? (fun descriptor => descriptor.oid = oid)

def numericTypmod (typmod : Int) : Option Nat × Option Int :=
  if typmod < 4 then (none,none)
  else
    let value := (typmod - 4).toNat
    let scale := value % 65536
    (some (value / 65536 % 65536),if scale < 32768 then some scale else none)

def typmodLength (typmod : Int) : Option Nat :=
  if 4 ≤ typmod ∧ typmod - 4 < 2 ^ 32 then some (typmod - 4).toNat else none

def timePrecision (typmod : Int) : Option Nat := if 0 ≤ typmod ∧ typmod < 256 then some typmod.toNat else none

def scalarKind (name : String) (typmod : Int) : PgTypeKind :=
  match name with
  | "bool" => .bool
  | "int2" => .int2
  | "int4" => .int4
  | "int8" => .int8
  | "numeric" => .numeric (numericTypmod typmod).1 (numericTypmod typmod).2
  | "float4" => .float4
  | "float8" => .float8
  | "text" => .text
  | "varchar" => .varChar (typmodLength typmod)
  | "bpchar" => .char (typmodLength typmod)
  | "bytea" => .bytea
  | "date" => .date
  | "time" => .time (timePrecision typmod) false
  | "timetz" => .time (timePrecision typmod) true
  | "timestamp" => .timestamp (timePrecision typmod) false
  | "timestamptz" => .timestamp (timePrecision typmod) true
  | "interval" => .interval (timePrecision typmod)
  | "uuid" => .uuid
  | "json" => .json
  | "jsonb" => .jsonb
  | "inet" => .inet
  | "cidr" => .cidr
  | "macaddr" => .macAddr
  | "macaddr8" => .macAddr8
  | "bit" => .bit (typmodLength typmod) false
  | "varbit" => .bit (typmodLength typmod) true
  | "xml" => .xml
  | _ => .unsupported ("unregistered PostgreSQL type " ++ name)

def qualified (schema name : String) : Except SourceError QualifiedName :=
  (QualifiedName.new schema name).mapError (fun error => .contract (coreErrorText error))

/- A chain of domains and arrays visits each type at most once, so the number of types bounds its length; only a chain
with a cycle, which the catalog does not have, uses up the stack. -/
def resolveType (all : List TypeDescriptor) : Nat → TypeDescriptor → Int → Except SourceError PgType
  | 0,_,_ => .error .stackOverflow
  | depth+1,descriptor,typmod => do
    let name ← qualified descriptor.schema descriptor.name
    let kind ←
      if descriptor.typtype = "e" then .ok (.enum descriptor.labels)
      else if descriptor.typtype = "d" then
        match descriptor.baseOid.bind (typeOf all) with
        | none => .error (.contract ("domain " ++ name.display ++ " has no base type"))
        | some base => do
          let base ← resolveType all depth base typmod
          .ok (.domain base descriptor.constraints)
      else if descriptor.typtype = "b" ∧ descriptor.elementOid.isSome then
        match descriptor.elementOid.bind (typeOf all) with
        | none => .error (.contract ("array " ++ name.display ++ " has no element type"))
        | some element => do
          let element ← resolveType all depth element (-1)
          .ok (.array element)
      else .ok (scalarKind descriptor.name typmod)
    .ok ⟨descriptor.oid,name,kind⟩

def parseReplicaIdentity : Char → Except SourceError ReplicaIdentity
  | 'd' => .ok .default
  | 'i' => .ok .index
  | 'f' => .ok .full
  | 'n' => .ok .nothing
  | other => .error (.contract ("unknown replica identity `" ++ other.toString ++ "`"))

def parseGenerated (value : Bytes) : Except SourceError GeneratedColumn :=
  let marker := value.headD 0
  if marker = 0 then .ok .none
  else if marker = 115 then .ok .stored
  else if marker = 118 then .ok .virtual
  else .error (.contract ("unknown generated marker " ++ toString marker.toNat))

def parseIdentity (value : Bytes) : Except SourceError IdentityColumn :=
  let marker := value.headD 0
  if marker = 0 then .ok .none
  else if marker = 97 then .ok .always
  else if marker = 100 then .ok .byDefault
  else .error (.contract ("unknown identity marker " ++ toString marker.toNat))

def trim (text : List Char) : List Char :=
  ((text.dropWhile isWhitespace).reverse.dropWhile isWhitespace).reverse

def parseDigits (text : List Char) : Option Nat :=
  if text ≠ [] ∧ text.all Char.isDigit then some (Nat.ofDigitChars 10 text 0) else none

theorem digitsRead (n : Nat) : parseDigits (Nat.toDigits 10 n) = some n := by
  have each : ∀ c ∈ Nat.toDigits 10 n, c.isDigit := fun c mem => Nat.isDigit_of_mem_toDigits (by decide) (by decide) mem
  rw [parseDigits,if_pos ⟨Nat.toDigits_ne_nil,List.all_eq_true.mpr each⟩,Nat.ofDigitChars_ten_toDigits]

theorem digitsWithout {c : Char} (n : Nat) (other : c.isDigit = false) : c ∉ Nat.toDigits 10 n := by
  intro mem
  simp [Nat.isDigit_of_mem_toDigits (by decide) (by decide) mem] at other

def parseI16 : List Char → Option Int
  | '-' :: digits => (parseDigits digits).bind (fun value => if value ≤ 2 ^ 15 then some (-(value : Int)) else none)
  | '+' :: digits => (parseDigits digits).bind (fun value => if value < 2 ^ 15 then some (value : Int) else none)
  | digits => (parseDigits digits).bind (fun value => if value < 2 ^ 15 then some (value : Int) else none)

def parseAttnum (item : List Char) : Except SourceError Int :=
  match parseI16 (trim item) with
  | none => .error (.contract ("invalid attribute number `" ++ String.ofList item ++ "`"))
  | some value =>
    if value ≤ 0 then
      .error (.unsupported ("partition key expression `" ++ String.ofList item ++ "` is not a plain column"))
    else .ok value

def stripBraces (text : List Char) : Option (List Char) :=
  if text.head? = some '\x7b' ∧ text.tail.getLast? = some '\x7d' then some text.tail.dropLast else none

def parseAttnums (value : String) : Except SourceError (List Int) :=
  let trimmed := trim value.toList
  if trimmed = ['\x7b','\x7d'] ∨ trimmed = [] then .ok []
  else match stripBraces trimmed with
  | none => .error (.contract ("invalid int2vector `" ++ value ++ "`"))
  | some inner => ((inner.splitOn ',').filter (fun item => trim item ≠ [])).mapM parseAttnum

def parseU32Value (value : Int) (name : String) : Except SourceError Nat :=
  if 0 ≤ value ∧ value < 2 ^ 32 then .ok value.toNat else .error (.contract (name ++ " is out of range"))

structure CatalogRow where
  relationId : Int
  schemaName : String
  relationName : String
  relkind : String
  relispartition : Bool
  attnum : Int
  attname : String
  typeOid : Int
  typeModifier : Int
  attnotnull : Bool
  attgenerated : Bytes
  attidentity : Bytes
  relreplident : String
  pkOrdinal : Option Int
  collationSchema : Option String
  collationName : Option String
  partitionAttrs : String
  deriving DecidableEq, Repr

def PgIndex.joined (index : PgIndex) : Bool :=
  index.indisprimary && index.indisvalid && index.indisready && index.indimmediate

-- A relation has at most one primary index, so the left join is a lookup.
def PgClass.primaryIndex (relation : PgClass) : Option PgIndex := relation.indexes.find? PgIndex.joined

-- `array_position` of an int2vector, whose subscripts start at zero.
def arrayPosition (values : List Int) (value : Int) : Option Nat := values.findIdx? (· = value)

def PgIndex.pkOrdinal (index : PgIndex) (attnum : Int) : Option Int :=
  (arrayPosition index.indkey attnum).map (fun (position : Nat) => (position : Int) + 1)

def PgClass.liveAttributes (relation : PgClass) : List PgAttribute :=
  (relation.attributes.filter PgAttribute.live).insertionSort (fun a b => a.attnum ≤ b.attnum)

def collationOf (catalog : PgCatalog) (attr : PgAttribute) : Option PgCollation :=
  if attr.attcollation = 0 then none
  else catalog.collations.find? (fun collation => collation.oid = attr.attcollation)

def catalogRow (catalog : PgCatalog) (relation : PgClass) (schema : String) (attr : PgAttribute) : CatalogRow where
  relationId := relation.oid
  schemaName := schema
  relationName := relation.relname
  relkind := relation.relkind
  relispartition := relation.relispartition
  attnum := attr.attnum
  attname := attr.attname
  typeOid := attr.atttypid
  typeModifier := attr.atttypmod
  attnotnull := attr.attnotnull
  attgenerated := attr.attgenerated
  attidentity := attr.attidentity
  relreplident := relation.relreplident
  pkOrdinal := relation.primaryIndex.bind (fun index => index.pkOrdinal attr.attnum)
  collationSchema := (collationOf catalog attr).bind (fun collation => catalog.nspname collation.collnamespace)
  collationName := (collationOf catalog attr).map PgCollation.collname
  partitionAttrs := relation.partattrs.getD "\x7b\x7d"

def relationRows (catalog : PgCatalog) (relation : PgClass) : List CatalogRow :=
  match catalog.nspname relation.relnamespace with
  | none => []
  | some schema => relation.liveAttributes.map (catalogRow catalog relation schema)

def PgClass.scanned (relation : PgClass) : Bool :=
  (relation.relkind = "r" || relation.relkind = "p") && relation.relpersistence = "p"

def oidLe (a b : PgClass) : Prop := a.oid ≤ b.oid

instance : DecidableRel oidLe := fun a b => by unfold oidLe; infer_instance

def PgCatalog.scanned (catalog : PgCatalog) : List PgClass :=
  (catalog.classes.filter PgClass.scanned).insertionSort oidLe

def candidateRows (catalog : PgCatalog) : List CatalogRow := catalog.scanned.flatMap (relationRows catalog)

def skipped (options : CatalogOptions) (row : CatalogRow) : Bool :=
  !eligibleSchema row.schemaName options || (row.relispartition && !options.includePartitions)

def rowCollation (row : CatalogRow) : Except SourceError (Option QualifiedName) :=
  match row.collationSchema,row.collationName with
  | some schema,some name => (qualified schema name).map some
  | _,_ => .ok none

def u16 (value : Int) : Option Nat := if 0 ≤ value ∧ value < 2 ^ 16 then some value.toNat else none

def pkOrdinalU16 (row : CatalogRow) : Option Nat := row.pkOrdinal.bind u16

def rowColumn (types : List TypeDescriptor) (row : CatalogRow) : Except SourceError ColumnSchema := do
  let typeOid ← parseU32Value row.typeOid "type_oid"
  match typeOf types typeOid with
  | none => .error (.contract ("type OID " ++ toString typeOid ++ " was not found"))
  | some descriptor => do
    let dataType ← resolveType types (types.length + 1) descriptor row.typeModifier
    let collation ← rowCollation row
    let generated ← parseGenerated row.attgenerated
    let identity ← parseIdentity row.attidentity
    .ok ⟨row.attnum,row.attname,dataType,!row.attnotnull,pkOrdinalU16 row,generated,identity,collation⟩

def newTable (relationId : Nat) (name : QualifiedName) (row : CatalogRow) (replicaIdentity : ReplicaIdentity)
    (column : ColumnSchema) (partitionKey : List Int) : TableSchema :=
  ⟨relationId,1,name,if row.relkind = "p" then .partitioned else .ordinary,replicaIdentity,[column],[],partitionKey⟩

def addRow (types : List TypeDescriptor) (options : CatalogOptions) (tables : List TableSchema) (row : CatalogRow) :
    Except SourceError (List TableSchema) :=
  if !eligibleSchema row.schemaName options then .ok tables
  else do
    let relationId ← parseU32Value row.relationId "relation_id"
    if row.relispartition && !options.includePartitions then .ok tables
    else do
      let name ← qualified row.schemaName row.relationName
      let replicaIdentity ← parseReplicaIdentity (row.relreplident.toList.headD 'd')
      let column ← rowColumn types row
      let partitionKey ← parseAttnums row.partitionAttrs
      match tables.getLast? with
      | some table =>
        if table.relationId = relationId then
          .ok (tables.dropLast ++ [{table with columns := table.columns ++ [column]}])
        else .ok (tables ++ [newTable relationId name row replicaIdentity column partitionKey])
      | none => .ok [newTable relationId name row replicaIdentity column partitionKey]

def loadTableCandidates (catalog : PgCatalog) (options : CatalogOptions) : Except SourceError (List TableSchema) :=
  (candidateRows catalog).foldlM (addRow (loadTypeDescriptors catalog) options) []

def classifyTable (inventory : TableInventory) (table : TableSchema) : TableInventory :=
  match table.validateSupported with
  | .ok () => {inventory with supported := inventory.supported ++ [table]}
  | .error error => {inventory with rejected := inventory.rejected ++ [⟨table.name,error⟩]}

def classifyTables (tables : List TableSchema) : TableInventory := tables.foldl classifyTable ⟨[],[]⟩

def inspectTables (catalog : PgCatalog) (options : CatalogOptions) : Except SourceError TableInventory :=
  (loadTableCandidates catalog options).map classifyTables

def loadTables (catalog : PgCatalog) (options : CatalogOptions) : Except SourceError (List TableSchema) := do
  let inventory ← inspectTables catalog options
  match inventory.rejected.head? with
  | some rejected => .error (.contract
      ("table " ++ rejected.name.display ++ " is not eligible for replication: " ++ coreErrorText rejected.reason))
  | none => .ok inventory.supported

end CloudberryEtl.Catalog
