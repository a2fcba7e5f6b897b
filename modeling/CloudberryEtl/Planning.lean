import CloudberryEtl.ShadowLoad
import CloudberryEtl.Activation

/-! Names and fingerprints of the planned tables, from `core::mapping`, `runtime::planning` and `plan_inventory` of
`runtime::job`. SHA-256 and the byte form `serde_json::to_vec` of a JSON value are parameters. -/
namespace CloudberryEtl.Planning
open Schema Change TablePlan StagedApply Result TargetStore Manifest ShadowLoad Activation
open Checkpoint hiding databaseGeneration

inductive Json where
  | null
  | bool (value : Bool)
  | num (value : Int)
  | str (value : String)
  | arr (values : List Json)
  | obj (fields : List (String × Json))

def Json.opt {α : Type} (render : α → Json) : Option α → Json
  | none => .null
  | some value => render value

def Json.nat (value : Nat) : Json := .num value

def nameJson (name : QualifiedName) : Json := .obj [("name",.str name.name),("schema",.str name.schema)]

/- `#[serde(tag = "kind", rename_all = "snake_case")]`; the members of an object stand in the order of a BTreeMap. -/
mutual
def kindJson : PgTypeKind → Json
  | .bool => .obj [("kind",.str "bool")]
  | .int2 => .obj [("kind",.str "int2")]
  | .int4 => .obj [("kind",.str "int4")]
  | .int8 => .obj [("kind",.str "int8")]
  | .numeric precision scale =>
      .obj [("kind",.str "numeric"),("precision",.opt .nat precision),("scale",.opt .num scale)]
  | .float4 => .obj [("kind",.str "float4")]
  | .float8 => .obj [("kind",.str "float8")]
  | .text => .obj [("kind",.str "text")]
  | .varChar length => .obj [("kind",.str "var_char"),("length",.opt .nat length)]
  | .char length => .obj [("kind",.str "char"),("length",.opt .nat length)]
  | .bytea => .obj [("kind",.str "bytea")]
  | .date => .obj [("kind",.str "date")]
  | .time precision zone =>
      .obj [("kind",.str "time"),("precision",.opt .nat precision),("with_time_zone",.bool zone)]
  | .timestamp precision zone =>
      .obj [("kind",.str "timestamp"),("precision",.opt .nat precision),("with_time_zone",.bool zone)]
  | .interval precision => .obj [("kind",.str "interval"),("precision",.opt .nat precision)]
  | .uuid => .obj [("kind",.str "uuid")]
  | .json => .obj [("kind",.str "json")]
  | .jsonb => .obj [("kind",.str "jsonb")]
  | .inet => .obj [("kind",.str "inet")]
  | .cidr => .obj [("kind",.str "cidr")]
  | .macAddr => .obj [("kind",.str "mac_addr")]
  | .macAddr8 => .obj [("kind",.str "mac_addr8")]
  | .bit length varying => .obj [("kind",.str "bit"),("length",.opt .nat length),("varying",.bool varying)]
  | .xml => .obj [("kind",.str "xml")]
  | .enum labels => .obj [("kind",.str "enum"),("labels",.arr (labels.map .str))]
  | .domain base constraints =>
      .obj [("base",typeJson base),("constraints",.arr (constraints.map .str)),("kind",.str "domain")]
  | .array element => .obj [("element",typeJson element),("kind",.str "array")]
  | .unsupported reason => .obj [("kind",.str "unsupported"),("reason",.str reason)]

def typeJson : PgType → Json
  | ⟨oid,name,kind⟩ => .obj [("kind",kindJson kind),("name",nameJson name),("oid",.nat oid)]
end

def generatedJson : GeneratedColumn → Json
  | .none => .str "none"
  | .stored => .str "stored"
  | .virtual => .str "virtual"

def identityJson : IdentityColumn → Json
  | .none => .str "none"
  | .always => .str "always"
  | .byDefault => .str "by_default"

def tableKindJson : TableKind → Json
  | .ordinary => .str "ordinary"
  | .partitioned => .str "partitioned"
  | .citusDistributed => .str "citus_distributed"
  | .citusReference => .str "citus_reference"
  | .citusLocal => .str "citus_local"

def replicaIdentityJson : ReplicaIdentity → Json
  | .default => .str "default"
  | .index => .str "index"
  | .full => .str "full"
  | .nothing => .str "nothing"

def columnJson (column : ColumnSchema) : Json :=
  .obj [("attnum",.num column.attnum),("collation",.opt nameJson column.collation),
    ("data_type",typeJson column.dataType),("generated",generatedJson column.generated),
    ("identity",identityJson column.identity),("name",.str column.name),("nullable",.bool column.nullable),
    ("primary_key_ordinal",.opt .nat column.primaryKeyOrdinal)]

def tableJson (table : TableSchema) : Json :=
  .obj [("columns",.arr (table.columns.map columnJson)),("distribution_key",.arr (table.distributionKey.map .num)),
    ("generation",.nat table.generation),("kind",tableKindJson table.kind),("name",nameJson table.name),
    ("partition_key",.arr (table.partitionKey.map .num)),("relation_id",.nat table.relationId),
    ("replica_identity",replicaIdentityJson table.replicaIdentity)]

def Json.remove (key : String) : Json → Json
  | .obj fields => .obj (fields.filter (fun field => field.1 ≠ key))
  | other => other

mutual
def removeObjectKey (key : String) : Json → Json
  | .arr values => .arr (removeFromValues key values)
  | .obj fields => .obj (removeFromFields key fields)
  | .null => .null
  | .bool value => .bool value
  | .num value => .num value
  | .str value => .str value

def removeFromValues (key : String) : List Json → List Json
  | [] => []
  | value :: values => removeObjectKey key value :: removeFromValues key values

def removeFromFields (key : String) : List (String × Json) → List (String × Json)
  | [] => []
  | (name,value) :: fields =>
      if name = key then removeFromFields key fields
      else (name,removeObjectKey key value) :: removeFromFields key fields
end

def portable (table : TableSchema) : Json :=
  removeObjectKey "oid" (((tableJson table).remove "relation_id").remove "generation")

structure TableMapping where
  source : QualifiedName
  target : QualifiedName
  deriving DecidableEq, Repr

structure PlannedTable where
  source : TableSchema
  target : QualifiedName
  shadow : QualifiedName
  stagingName : String
  schemaFingerprint : String
  deriving DecidableEq, Repr

inductive TablePlanningError where
  | defaultMapping (error : CoreError)
  | unknownExplicitSource (table : String)
  | duplicateTarget (table : String)
  | duplicateShadow (table : String)
  | duplicateStaging (table : String)
  deriving DecidableEq, Repr

def escapeChar (c : Char) : List Char :=
  if c = '"' then ['\\','"'] else if c = '\\' then ['\\','\\']
  else if c = '\x08' then ['\\','b'] else if c = '\t' then ['\\','t'] else if c = '\n' then ['\\','n']
  else if c = '\x0c' then ['\\','f'] else if c = '\r' then ['\\','r']
  else if c.toNat < 32 then ['\\','u','0','0'] ++ hexByte (UInt8.ofNat c.toNat) else [c]

def quoted (value : String) : List Char := '"' :: value.toList.flatMap escapeChar ++ ['"']

mutual
def Json.compact : Json → List Char
  | .null => ['n','u','l','l']
  | .bool value => if value then ['t','r','u','e'] else ['f','a','l','s','e']
  | .num value => (toString value).toList
  | .str value => quoted value
  | .arr values => '[' :: compactValues values ++ [']']
  | .obj fields => '\x7b' :: compactFields fields ++ ['\x7d']

def compactValues : List Json → List Char
  | [] => []
  | [value] => value.compact
  | value :: values => value.compact ++ ',' :: compactValues values

def compactFields : List (String × Json) → List Char
  | [] => []
  | [(name,value)] => quoted name ++ ':' :: value.compact
  | (name,value) :: fields => quoted name ++ ':' :: value.compact ++ ',' :: compactFields fields
end

def compactBytes (json : Json) : Bytes := strBytes (String.ofList json.compact)

theorem compactFlat : compactBytes = fun json => json.compact.flatMap String.utf8EncodeChar := by
  funext json
  simp [compactBytes,strBytes,List.utf8Encode]

structure JobSettings where
  pipelineId : PipelineId
  topologyGeneration : Nat
  sourcePrefix : String
  sourceDatabase : String
  targetDatabase : String
  tableMappings : List TableMapping
  deriving DecidableEq, Repr

structure RejectedTable where
  name : QualifiedName
  reason : CoreError
  deriving DecidableEq, Repr

structure TableInventory where
  supported : List TableSchema
  rejected : List RejectedTable
  deriving DecidableEq, Repr

structure RuntimeTable where
  planned : PlannedTable
  snapshotPlan : SnapshotTargetPlan
  deriving DecidableEq, Repr

inductive PlanInventoryError where
  | unsupportedIncludedTable (table : String) (reason : CoreError)
  | invalidFencingToken
  | planning (error : TablePlanningError)
  | snapshot (error : SnapshotTargetError)
  | noEligibleTables
  deriving DecidableEq, Repr

def uuidSimple (uuid : Uuid) : List Char := (List.range 32).reverse.map (fun place => Nat.digitChar (uuid / 16 ^ place % 16))

def hashSuffixBytes : Nat := 12

def charPrefix : Nat → List Char → List Char
  | _,[] => []
  | room,c :: rest => if c.utf8Size ≤ room then c :: charPrefix (room - c.utf8Size) rest else []

section Parameters
variable (sha256 : Bytes → Bytes) (toVec : Json → Bytes)

def shortenIdentifier (value : String) : String :=
  if value.utf8ByteSize ≤ postgresIdentifierMaxBytes then value
  else
    let suffix := ((sha256 (strBytes value)).take hashSuffixBytes).flatMap hexByte
    String.ofList (charPrefix (postgresIdentifierMaxBytes - 1 - suffix.length) value.toList ++ '_' :: suffix)

def mapName (job : JobSettings) (source : QualifiedName) : Except CoreError QualifiedName := do
  validateIdentifier job.sourceDatabase
  validateIdentifier job.targetDatabase
  QualifiedName.new (shortenIdentifier sha256
    (job.sourcePrefix ++ "__" ++ job.sourceDatabase ++ "__" ++ source.schema)) source.name

def schemaFingerprint (table : TableSchema) : String :=
  String.ofList ("sha256:".toList ++ (sha256 (toVec (portable table))).flatMap hexByte)

-- `HashMap::from_iter` keeps the last mapping of a source.
def explicitTarget (job : JobSettings) (source : QualifiedName) : Option QualifiedName :=
  (job.tableMappings.reverse.find? (fun mapping => mapping.source = source)).map TableMapping.target

def nameSuffix (job : JobSettings) (attempt : Nat) (source : TableSchema) : String :=
  String.ofList (uuidSimple job.pipelineId) ++ "_" ++ toString source.relationId ++ "_" ++ toString attempt

def shadowName (job : JobSettings) (attempt : Nat) (source : TableSchema) : String :=
  shortenIdentifier sha256 ("pg2cb_shadow_" ++ nameSuffix job attempt source)

def stageName (job : JobSettings) (attempt : Nat) (source : TableSchema) : String :=
  shortenIdentifier sha256 ("pg2cb_stage_" ++ nameSuffix job attempt source)

def planTable (job : JobSettings) (attempt : Nat) (planned : List PlannedTable) (source : TableSchema) :
    Except TablePlanningError (List PlannedTable) := do
  let target ← match explicitTarget job source.name with
    | some target => .ok target
    | none => (mapName sha256 job source.name).mapError .defaultMapping
  if planned.any (fun other => other.target = target) then .error (.duplicateTarget target.display)
  else
    let shadow ← (QualifiedName.new target.schema (shadowName sha256 job attempt source)).mapError .defaultMapping
    if planned.any (fun other => other.shadow = shadow) then .error (.duplicateShadow shadow.display)
    else
      let stagingName := stageName sha256 job attempt source
      if planned.any (fun other => other.stagingName = stagingName) then .error (.duplicateStaging stagingName)
      else .ok (planned ++ [⟨source,target,shadow,stagingName,schemaFingerprint sha256 toVec source⟩])

def planTables (job : JobSettings) (attempt : Nat) (tables : List TableSchema) :
    Except TablePlanningError (List PlannedTable) :=
  match job.tableMappings.find? (fun mapping => mapping.source ∉ tables.map TableSchema.name) with
  | some mapping => .error (.unknownExplicitSource mapping.source.display)
  | none => tables.foldlM (planTable sha256 toVec job attempt) []

def snapshotTable (job : JobSettings) (planned : PlannedTable) : Except PlanInventoryError RuntimeTable := do
  let schema := {planned.source with generation := job.topologyGeneration}
  let snapshotPlan ← (planSnapshotTarget schema planned.target planned.shadow).mapError .snapshot
  .ok ⟨planned,snapshotPlan⟩

-- The fencing token is passed on as the snapshot attempt that the derived names contain.
def planInventory (job : JobSettings) (fencingToken : Int) (inventory : TableInventory) :
    Except PlanInventoryError (List RuntimeTable) := do
  match inventory.rejected with
  | rejected :: _ => .error (.unsupportedIncludedTable rejected.name.display rejected.reason)
  | [] =>
    if fencingToken < 0 then .error .invalidFencingToken
    else
      let planned ← (planTables sha256 toVec job fencingToken.toNat inventory.supported).mapError .planning
      let accepted ← planned.mapM (snapshotTable job)
      if accepted.isEmpty then .error .noEligibleTables else .ok accepted

def activationTables (tables : List RuntimeTable) : List SnapshotActivationTable :=
  tables.map (fun table => table.snapshotPlan.activationTable table.planned.schemaFingerprint)

end Parameters

end CloudberryEtl.Planning
