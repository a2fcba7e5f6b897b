import CloudberryEtl.Inventory

/-! The DDL notifications of `source-postgres::ddl`: what the two event-trigger functions emit for a command, how the
message is decoded, and when the DDL scope of the job makes a barrier of it. A command is given by the catalogs around it
and the objects the server reports for it. -/
namespace CloudberryEtl.DdlCapture
open Schema Change Result Settings Adapter Batch Fencing Catalog Inventory
open Planning (TableInventory)

def ddlMessagePrefix : String := "pg2cloudberry_ddl_v1"

def ddlMessageVersion : Nat := 1

def retainedTypes : List String :=
  ["schema","table","partitioned table","foreign table","type","domain","composite type"]

structure OtherType where
  text : String
  notRetained : text ∉ retainedTypes
  deriving DecidableEq, Repr

inductive Address where
  | schema (oid : Nat)
  | relation (oid : Nat)
  | column (oid : Nat) (attnum : Int)
  | type (oid : Nat)
  | collation (oid : Nat)
  | other (objid : Nat) (objectType : OtherType) (owner : Option Nat)
  deriving DecidableEq, Repr

/- A row of `pg_event_trigger_ddl_commands()` or `pg_event_trigger_dropped_objects()`; the identity is split by
`parse_ident`. -/
structure DdlObject where
  inPgClass : Bool
  objid : Nat
  objsubid : Int
  objectType : String
  schemaName : Option String
  identity : List String
  deriving DecidableEq, Repr

def relationType (relkind : String) : String :=
  match relkind with
  | "r" | "p" => "table"
  | "f" => "foreign table"
  | "c" => "composite type"
  | "i" | "I" => "index"
  | "S" => "sequence"
  | "v" => "view"
  | "m" => "materialized view"
  | _ => "toast table"

def relationOf (catalog : PgCatalog) (oid : Nat) : Option PgClass := catalog.classes.find? (fun c => c.oid = oid)

-- How the server describes an object of a catalog; an object that is not there is left out.
def describe (catalog : PgCatalog) : Address → Option DdlObject
  | .schema oid => (catalog.nspname oid).map (fun name => ⟨false,oid,0,"schema",none,[name]⟩)
  | .relation oid => (relationOf catalog oid).map (fun relation =>
      ⟨true,oid,0,relationType relation.relkind,catalog.nspname relation.relnamespace,[relation.relname]⟩)
  | .column oid attnum => (relationOf catalog oid).map (fun relation =>
      ⟨true,oid,attnum,relationType relation.relkind ++ " column",catalog.nspname relation.relnamespace,
        [relation.relname]⟩)
  | .type oid => (catalog.types.find? (fun type => type.oid = oid)).map (fun type =>
      ⟨false,oid,0,"type",catalog.nspname type.typnamespace,[type.typname]⟩)
  | .collation oid => (catalog.collations.find? (fun collation => collation.oid = oid)).map (fun collation =>
      ⟨false,oid,0,"collation",catalog.nspname collation.collnamespace,[collation.collname]⟩)
  | .other objid objectType owner => some ⟨false,objid,0,objectType.text,owner.bind catalog.nspname,[]⟩

structure Fingerprint where
  text : String
  size : text.utf8ByteSize = 32
  deriving DecidableEq, Repr

inductive ReplicationRole where
  | origin | replica | local'
  deriving DecidableEq, Repr

/-- What decides in a session whether the trigger functions run and emit. `eventTriggers` is the server parameter of that
name, `internalDdl` is `pg2cb.internal_ddl`, `citusWorker` what the worker guard of the functions looks for. -/
structure DdlSession where
  replicationRole : ReplicationRole
  eventTriggers : Bool
  internalDdl : Bool
  citusWorker : Bool
  deriving DecidableEq, Repr

/- One DDL command with its session. `objects` are the addresses it was run on, `dropped` all it removed, also by
cascade. -/
structure DdlCommand where
  tag : String
  before : PgCatalog
  after : PgCatalog
  objects : List Address
  dropped : List Address
  session : DdlSession
  fingerprint : Fingerprint
  tagged : tag ≠ ""
  deriving DecidableEq, Repr

inductive JsonValue where
  | string (value : String)
  | number (text : String)
  | other (text : String)
  deriving DecidableEq, Repr

structure DdlEnvelope where
  version : Nat
  commandTag : String
  relationIds : List JsonValue
  affectedSchemas : List String
  schemaFingerprint : String
  deriving DecidableEq, Repr

def affectedSchema (object : DdlObject) : Option String :=
  (if object.objectType = "schema" then object.identity.head? else object.schemaName).filter (· ≠ "")

def affectedSchemas (objects : List DdlObject) : List String :=
  (objects.filterMap affectedSchema).dedup.insertionSort (· ≤ ·)

def relationIdTexts (objects : List DdlObject) : List JsonValue :=
  ((objects.map DdlObject.objid).insertionSort (· ≤ ·)).map (fun oid => .string (toString oid))

/- `install_sql` leaves both triggers enabled for the origin, so the server does not fire them for a replica. -/
def DdlSession.firesTriggers (session : DdlSession) : Bool :=
  session.eventTriggers && session.replicationRole ≠ .replica

def DdlCommand.silenced (command : DdlCommand) : Bool :=
  !command.session.firesTriggers || command.session.internalDdl || command.session.citusWorker

def isDrop (tag : String) : Bool := startsWith "DROP " tag

def emitDdlEvent (command : DdlCommand) : Option DdlEnvelope :=
  let commands := command.objects.filterMap (describe command.after)
  if isDrop command.tag || command.silenced then none
  else some ⟨ddlMessageVersion,command.tag,relationIdTexts (commands.filter DdlObject.inPgClass),
    affectedSchemas commands,command.fingerprint.text⟩

def retained (object : DdlObject) : Bool := object.objectType ∈ retainedTypes

def droppedTable (object : DdlObject) : Bool :=
  object.inPgClass && object.objsubid = 0 && object.objectType ∈ ["table","partitioned table","foreign table"]

def emitSqlDropEvent (command : DdlCommand) : Option DdlEnvelope :=
  let dropped := command.dropped.filterMap (describe command.before)
  if command.dropped.isEmpty || command.silenced then none
  else some ⟨ddlMessageVersion,command.tag,relationIdTexts (dropped.filter droppedTable),
    affectedSchemas (dropped.filter retained),command.fingerprint.text⟩

inductive DdlError where
  | unknownPrefix (text : String)
  | unsupportedVersion (version : Nat)
  | invalidOidValue (text : String)
  | invalidOid (text : String)
  | emptyTagOrFingerprint
  | invalidSchema
  deriving DecidableEq, Repr

def parseU32 (text : List Char) : Option Nat :=
  (parseDigits (if text.head? = some '+' then text.tail else text)).filter (· < 2 ^ 32)

def decodeRelationId (value : JsonValue) : Except DdlError Nat :=
  let parse (text : String) : Except DdlError Nat :=
    match parseU32 text.toList with
    | some oid => .ok oid
    | none => .error (.invalidOid text)
  match value with
  | .string text => parse text
  | .number text => parse text
  | .other text => .error (.invalidOidValue text)

def canonicalizeSchemas (schemas : List String) : Except DdlError (List String) :=
  if schemas.any (fun schema => schema = "" || '\x00' ∈ schema.toList) then .error .invalidSchema
  else .ok ((schemas.insertionSort (· ≤ ·)).destutter (· ≠ ·))

def decodeDdlMessage (messagePrefix : String) (envelope : DdlEnvelope) : Except DdlError DdlMessage := do
  if messagePrefix ≠ ddlMessagePrefix then .error (.unknownPrefix messagePrefix)
  else if envelope.version ≠ ddlMessageVersion then .error (.unsupportedVersion envelope.version)
  else
    let relationIds ← envelope.relationIds.mapM decodeRelationId
    if envelope.commandTag = "" ∨ envelope.schemaFingerprint = "" then .error .emptyTagOrFingerprint
    else
      let affectedSchemas ← canonicalizeSchemas envelope.affectedSchemas
      .ok ⟨envelope.version,envelope.commandTag,relationIds,affectedSchemas,envelope.schemaFingerprint⟩

def decoded (command : DdlCommand) : List DdlMessage :=
  ([emitSqlDropEvent command,emitDdlEvent command].filterMap id).filterMap
    (fun envelope => (decodeDdlMessage ddlMessagePrefix envelope).toOption)

def schemaOf (catalog : PgCatalog) : Address → Option String
  | .schema oid => catalog.nspname oid
  | .relation oid | .column oid _ => (relationOf catalog oid).bind (fun relation => catalog.nspname relation.relnamespace)
  | .type oid => (catalog.types.find? (fun type => type.oid = oid)).bind (fun type => catalog.nspname type.typnamespace)
  | .collation oid => (catalog.collations.find? (fun collation => collation.oid = oid)).bind
      (fun collation => catalog.nspname collation.collnamespace)
  | .other _ _ owner => owner.bind catalog.nspname

def reportedDrop (catalog : PgCatalog) : Address → Bool
  | .schema _ | .type _ => true
  | .relation oid => (relationOf catalog oid).any (fun relation => relationType relation.relkind ∈ retainedTypes)
  | .column .. | .collation _ | .other .. => false

section Describe
variable {catalog : PgCatalog}

theorem nspnameValid {oid : Nat} {schema : String} (found : catalog.nspname oid = some schema) : IdentifierValid schema := by
  obtain ⟨row,_,rfl⟩ := Option.map_eq_some_iff.mp found
  exact row.named

theorem schemaValid {address : Address} {schema : String} (lies : schemaOf catalog address = some schema) :
    IdentifierValid schema := by
  cases address with
  | schema oid => exact nspnameValid lies
  | relation oid | column oid attnum | type oid | collation oid | other objid objectType owner =>
    obtain ⟨_,_,named⟩ := Option.bind_eq_some_iff.mp lies
    exact nspnameValid named

end Describe

section Decode

end Decode

def Reaches (settings : SourceSettings) (catalog : PgCatalog) (addresses : List Address) : Prop :=
  (∀ address ∈ addresses, schemaOf catalog address = none) ∨
    ∃ address ∈ addresses, ∃ schema, schemaOf catalog address = some schema ∧
      eligibleSchema schema (catalogOptions settings)

/- The objects a command names, where it leaves them, or the schemas, tables and types it removes, where they were. -/
def Named (settings : SourceSettings) (command : DdlCommand) : Prop :=
  command.silenced = false ∧
    ((isDrop command.tag = false ∧ Reaches settings command.after command.objects) ∨
      (command.dropped ≠ [] ∧
        Reaches settings command.before (command.dropped.filter (reportedDrop command.before))))

/- A committed command that changes a table bound by the job: what the catalog scan reads for it is no longer there. -/
structure SchemaChange (settings : SourceSettings) where
  command : DdlCommand
  table : TableSchema
  inventory : TableInventory
  inspected : inspectTables command.before (catalogOptions settings) = .ok inventory
  bound : table ∈ inventory.supported
  changed : ∀ tables, loadTableCandidates command.after (catalogOptions settings) = .ok tables → table ∉ tables

section Barrier
variable {settings : SourceSettings}

end Barrier

section Sample

def appSettings : SourceSettings := {includeSchemas := some ["app"]}

def orderColumns : List PgAttribute :=
  [⟨1,"id",20,-1,true,false,[],[],0⟩,⟨2,"status",16500,-1,false,false,[],[],0⟩]

def ordersRelation (columns : List PgAttribute) (attnums : (columns.map PgAttribute.attnum).Nodup)
    (keyed : ∃ attr ∈ columns, attr.attnum = 1 ∧ attr.live) : PgClass where
  oid := 16510
  relname := "orders"
  relnamespace := 16400
  relkind := "r"
  relpersistence := "p"
  relispartition := false
  relreplident := "d"
  partattrs := none
  attributes := columns
  indexes := [⟨true,true,true,true,[1],1,oneKeyBounded,oneKeyDistinct⟩]
  oidRange := by decide
  attnums := attnums
  indexed := by
    intro index mem _ attnum listed
    rw [List.mem_singleton.mp mem] at listed
    rw [List.mem_singleton.mp listed]
    exact keyed

def ordersCatalog (labels : List String) (relation : PgClass) : PgCatalog where
  namespaces := [⟨11,"pg_catalog",pgCatalogValid⟩,⟨16400,"app",appValid⟩,⟨16401,"shared",sharedValid⟩]
  types := [⟨20,"int8",11,"b",0,0,[],[]⟩,⟨25,"text",11,"b",0,0,[],[]⟩,⟨16500,"status",16401,"e",0,0,labels,[]⟩]
  collations := []
  classes := [relation]
  oids := oneOid relation

def orders : PgClass := ordersRelation orderColumns (by decide) ⟨_,List.mem_cons_self,rfl,rfl⟩

theorem alterTableTagged : "ALTER TABLE" ≠ "" := by decide

def sampleDigest : Fingerprint := ⟨"d41d8cd98f00b204e9800998ecf8427e",by decide⟩

def ordinarySession : DdlSession := ⟨.origin,true,false,false⟩

def ordersTable : TableSchema :=
  ⟨16510,1,⟨"app","orders",appValid,ordersValid⟩,.ordinary,.default,
    [⟨1,"id",⟨20,⟨"pg_catalog","int8",pgCatalogValid,int8Valid⟩,.int8⟩,false,some 1,.none,.none,none⟩,
     ⟨2,"status",⟨16500,⟨"shared","status",sharedValid,statusValid⟩,.enum ["new"]⟩,true,none,.none,.none,none⟩],[],[]⟩

end Sample

end CloudberryEtl.DdlCapture
