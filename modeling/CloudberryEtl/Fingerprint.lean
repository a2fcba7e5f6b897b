import CloudberryEtl.JsonText

/-! What `schema_fingerprint` identifies: the schema without the local relation identifier, the generation and the
type identifiers at every level. -/
namespace CloudberryEtl.Fingerprint
open Schema Change Activation Planning Resume JsonText

mutual
def eraseKind : PgTypeKind → PgTypeKind
  | .domain base constraints => .domain (eraseType base) constraints
  | .array element => .array (eraseType element)
  | kind => kind

def eraseType : PgType → PgType
  | ⟨_,name,kind⟩ => ⟨0,name,eraseKind kind⟩
end

def eraseColumn (column : ColumnSchema) : ColumnSchema := {column with dataType := eraseType column.dataType}

def eraseLocal (table : TableSchema) : TableSchema :=
  {table with relationId := 0,generation := 0,columns := table.columns.map eraseColumn}

inductive KindView where
  | plain (kind : PgTypeKind)
  | domain (base : Json) (constraints : List String)
  | array (element : Json)

def viewKind : PgTypeKind → KindView
  | .domain base constraints => .domain (removeObjectKey "oid" (typeJson base)) constraints
  | .array element => .array (removeObjectKey "oid" (typeJson element))
  | kind => .plain kind

def natOption : Json → Option Nat
  | .num value => some value.toNat
  | _ => none

def intOption : Json → Option Int
  | .num value => some value
  | _ => none

def flag : Json → Bool
  | .bool value => value
  | _ => false

def text : Json → String
  | .str value => value
  | _ => ""

def texts : Json → List String
  | .arr values => values.map text
  | _ => []

def member (name : String) (fields : List (String × Json)) : Json := (fields.lookup name).getD .null

def plainKinds : List (String × PgTypeKind) :=
  [("bool",.bool),("int2",.int2),("int4",.int4),("int8",.int8),("float4",.float4),("float8",.float8),("text",.text),
    ("bytea",.bytea),("date",.date),("uuid",.uuid),("json",.json),("jsonb",.jsonb),("inet",.inet),("cidr",.cidr),
    ("mac_addr",.macAddr),("mac_addr8",.macAddr8),("xml",.xml)]

def readKind (fields : List (String × Json)) : KindView :=
  let precision := natOption (member "precision" fields)
  let length := natOption (member "length" fields)
  let zone := flag (member "with_time_zone" fields)
  let tag := text (member "kind" fields)
  match plainKinds.lookup tag with
  | some kind => .plain kind
  | none =>
    if tag = "numeric" then .plain (.numeric precision (intOption (member "scale" fields)))
    else if tag = "var_char" then .plain (.varChar length)
    else if tag = "char" then .plain (.char length)
    else if tag = "time" then .plain (.time precision zone)
    else if tag = "timestamp" then .plain (.timestamp precision zone)
    else if tag = "interval" then .plain (.interval precision)
    else if tag = "bit" then .plain (.bit length (flag (member "varying" fields)))
    else if tag = "enum" then .plain (.enum (texts (member "labels" fields)))
    else if tag = "domain" then .domain (member "base" fields) (texts (member "constraints" fields))
    else if tag = "array" then .array (member "element" fields)
    else .plain (.unsupported (text (member "reason" fields)))

def fieldsOf : Json → List (String × Json)
  | .obj fields => fields
  | _ => []

theorem stringsKept (values : List String) : removeFromValues "oid" (values.map .str) = values.map .str := by
  induction values with
  | nil => rfl
  | cons value values ih => simp only [List.map_cons,removeFromValues,removeObjectKey,ih]

theorem textsRead (values : List String) : texts (.arr (values.map .str)) = values := by
  induction values with
  | nil => rfl
  | cons value values ih => simpa [texts,text] using ih

theorem kindRead (kind : PgTypeKind) : readKind (fieldsOf (removeObjectKey "oid" (kindJson kind))) = viewKind kind := by
  cases kind with
  | numeric precision scale => cases precision <;> cases scale <;> rfl
  | varChar length => cases length <;> rfl
  | char length => cases length <;> rfl
  | time precision zone => cases precision <;> rfl
  | timestamp precision zone => cases precision <;> rfl
  | interval precision => cases precision <;> rfl
  | bit length varying => cases length <;> rfl
  | enum labels =>
    have kept : removeObjectKey "oid" (kindJson (.enum labels)) =
        .obj [("kind",.str "enum"),("labels",.arr (labels.map .str))] := by
      rw [← stringsKept labels]
      simp only [kindJson]
      rfl
    rw [kept]
    show KindView.plain (.enum (texts (.arr (labels.map .str)))) = _
    rw [textsRead]
    rfl
  | domain base constraints =>
    have kept : removeObjectKey "oid" (kindJson (.domain base constraints)) =
        .obj [("base",removeObjectKey "oid" (typeJson base)),("constraints",.arr (constraints.map .str)),
          ("kind",.str "domain")] := by
      rw [← stringsKept constraints]
      simp only [kindJson]
      rfl
    rw [kept]
    show KindView.domain _ (texts (.arr (constraints.map .str))) = _
    rw [textsRead]
    rfl
  | array element => rfl
  | _ => rfl

theorem viewApart {left right : PgTypeKind} (same : viewKind left = viewKind right) :
    (∃ base base' constraints, left = .domain base constraints ∧ right = .domain base' constraints ∧
      removeObjectKey "oid" (typeJson base) = removeObjectKey "oid" (typeJson base')) ∨
    (∃ element element', left = .array element ∧ right = .array element' ∧
      removeObjectKey "oid" (typeJson element) = removeObjectKey "oid" (typeJson element')) ∨ left = right := by
  unfold viewKind at same
  split at same
  next base constraints =>
    split at same
    next base' constraints' =>
      obtain ⟨bases,kept⟩ := KindView.domain.inj same
      exact .inl ⟨base,base',constraints,rfl,by rw [kept],bases⟩
    next => cases same
    next => cases same
  next element =>
    split at same
    next => cases same
    next element' => exact .inr (.inl ⟨element,element',rfl,rfl,KindView.array.inj same⟩)
    next => cases same
  next =>
    split at same
    next => cases same
    next => cases same
    next => exact .inr (.inr (KindView.plain.inj same))

theorem namePortable (name : QualifiedName) : removeObjectKey "oid" (nameJson name) = nameJson name := rfl

theorem nameApart {left right : QualifiedName} (same : nameJson left = nameJson right) : left = right := by
  obtain ⟨schema,name,_,_⟩ := left
  obtain ⟨schema',name',_,_⟩ := right
  simp only [nameJson,Json.obj.injEq,List.cons.injEq,Prod.mk.injEq,Json.str.injEq,true_and,and_true] at same
  obtain ⟨names,schemas⟩ := same
  subst names
  subst schemas
  rfl

theorem typePortable (oid : Nat) (name : QualifiedName) (kind : PgTypeKind) :
    removeObjectKey "oid" (typeJson ⟨oid,name,kind⟩) =
      .obj [("kind",removeObjectKey "oid" (kindJson kind)),("name",nameJson name)] := by
  simp only [typeJson]
  rfl

mutual
theorem kindApart (left right : PgTypeKind)
    (same : removeObjectKey "oid" (kindJson left) = removeObjectKey "oid" (kindJson right)) :
    eraseKind left = eraseKind right := by
  have views : viewKind left = viewKind right := by rw [← kindRead left,← kindRead right,same]
  rcases viewApart views with domain | array | equal
  · cases left with
    | domain base constraints =>
      obtain ⟨_,base',_,isLeft,isRight,bases⟩ := domain
      cases isLeft
      rw [isRight,eraseKind,eraseKind,typeApart base base' bases]
    | _ =>
      obtain ⟨_,_,_,isLeft,_⟩ := domain
      cases isLeft
  · cases left with
    | array element =>
      obtain ⟨_,element',isLeft,isRight,elements⟩ := array
      cases isLeft
      rw [isRight,eraseKind,eraseKind,typeApart element element' elements]
    | _ =>
      obtain ⟨_,_,isLeft,_⟩ := array
      cases isLeft
  · rw [equal]

theorem typeApart (left right : PgType)
    (same : removeObjectKey "oid" (typeJson left) = removeObjectKey "oid" (typeJson right)) :
    eraseType left = eraseType right := by
  cases left with
  | mk oid name kind =>
  cases right with
  | mk oid' name' kind' =>
    simp only [typePortable,Json.obj.injEq,List.cons.injEq,Prod.mk.injEq,true_and,and_true] at same
    rw [eraseType,eraseType,kindApart kind kind' same.1,nameApart same.2]
end

mutual
theorem kindPortableErased (kind : PgTypeKind) :
    removeObjectKey "oid" (kindJson (eraseKind kind)) = removeObjectKey "oid" (kindJson kind) := by
  cases kind with
  | domain base constraints =>
    have inner := typePortableErased base
    simp only [eraseKind,kindJson,removeObjectKey,removeFromFields,inner]
  | array element =>
    have inner := typePortableErased element
    simp only [eraseKind,kindJson,removeObjectKey,removeFromFields,inner]
  | _ => rfl

theorem typePortableErased (type : PgType) :
    removeObjectKey "oid" (typeJson (eraseType type)) = removeObjectKey "oid" (typeJson type) := by
  cases type with
  | mk oid name kind =>
    rw [eraseType,typePortable,typePortable,kindPortableErased kind]
end

theorem optApart {α : Type} {render : α → Json} (apart : ∀ a b, render a = render b → a = b)
    (present : ∀ a, render a ≠ .null) {left right : Option α} (same : Json.opt render left = Json.opt render right) :
    left = right := by
  cases left with
  | none =>
    cases right with
    | none => rfl
    | some b => exact absurd same.symm (present b)
  | some a =>
    cases right with
    | none => exact absurd same (present a)
    | some b => rw [apart a b same]

theorem natApart (left right : Nat) (same : Json.nat left = Json.nat right) : left = right :=
  Int.ofNat.inj (Json.num.inj same)

theorem generatedApart (left right : GeneratedColumn) (same : generatedJson left = generatedJson right) : left = right := by
  cases left <;> cases right <;> simp_all [generatedJson]

theorem identityApart (left right : IdentityColumn) (same : identityJson left = identityJson right) : left = right := by
  cases left <;> cases right <;> simp_all [identityJson]

theorem tableKindApart (left right : TableKind) (same : tableKindJson left = tableKindJson right) : left = right := by
  cases left <;> cases right <;> simp_all [tableKindJson]

theorem replicaIdentityApart (left right : ReplicaIdentity) (same : replicaIdentityJson left = replicaIdentityJson right) :
    left = right := by
  cases left <;> cases right <;> simp_all [replicaIdentityJson]

theorem columnPortable (column : ColumnSchema) : removeObjectKey "oid" (columnJson column) =
    .obj [("attnum",.num column.attnum),("collation",.opt nameJson column.collation),
      ("data_type",removeObjectKey "oid" (typeJson column.dataType)),("generated",generatedJson column.generated),
      ("identity",identityJson column.identity),("name",.str column.name),("nullable",.bool column.nullable),
      ("primary_key_ordinal",.opt .nat column.primaryKeyOrdinal)] := by
  have generated : removeObjectKey "oid" (generatedJson column.generated) = generatedJson column.generated := by
    cases column.generated <;> rfl
  have identity : removeObjectKey "oid" (identityJson column.identity) = identityJson column.identity := by
    cases column.identity <;> rfl
  have collation : removeObjectKey "oid" (.opt nameJson column.collation) = .opt nameJson column.collation := by
    cases column.collation <;> rfl
  have ordinal : removeObjectKey "oid" (.opt .nat column.primaryKeyOrdinal) = .opt .nat column.primaryKeyOrdinal := by
    cases column.primaryKeyOrdinal <;> rfl
  simp [columnJson,removeObjectKey,removeFromFields,generated,identity,collation,ordinal]

theorem columnApart {left right : ColumnSchema}
    (same : removeObjectKey "oid" (columnJson left) = removeObjectKey "oid" (columnJson right)) :
    eraseColumn left = eraseColumn right := by
  simp only [columnPortable,Json.obj.injEq,List.cons.injEq,Prod.mk.injEq,true_and,and_true,Json.num.injEq,Json.str.injEq,
    Json.bool.injEq] at same
  obtain ⟨attnum,collation,dataType,generated,identity,name,nullable,ordinal⟩ := same
  have collations := optApart (fun _ _ => nameApart) (fun _ null => by cases null) collation
  have ordinals := optApart natApart (fun _ null => by cases null) ordinal
  simp only [eraseColumn,ColumnSchema.mk.injEq]
  exact ⟨attnum,name,typeApart _ _ dataType,nullable,ordinals,generatedApart _ _ generated,identityApart _ _ identity,
    collations⟩

theorem columnPortableErased (column : ColumnSchema) :
    removeObjectKey "oid" (columnJson (eraseColumn column)) = removeObjectKey "oid" (columnJson column) := by
  rw [columnPortable,columnPortable]
  simp only [eraseColumn,typePortableErased]

theorem valuesRemoved (values : List Json) : removeFromValues "oid" values = values.map (removeObjectKey "oid") := by
  induction values with
  | nil => rfl
  | cons value values ih => rw [removeFromValues,ih,List.map_cons]

theorem numbersKept (values : List Int) : removeFromValues "oid" (values.map .num) = values.map .num := by
  rw [valuesRemoved,List.map_map]
  rfl

theorem tablePortable (table : TableSchema) : portable table =
    .obj [("columns",.arr (table.columns.map fun column => removeObjectKey "oid" (columnJson column))),
      ("distribution_key",.arr (table.distributionKey.map .num)),("kind",tableKindJson table.kind),
      ("name",nameJson table.name),("partition_key",.arr (table.partitionKey.map .num)),
      ("replica_identity",replicaIdentityJson table.replicaIdentity)] := by
  have kind : removeObjectKey "oid" (tableKindJson table.kind) = tableKindJson table.kind := by
    cases table.kind <;> rfl
  have identity : removeObjectKey "oid" (replicaIdentityJson table.replicaIdentity) =
      replicaIdentityJson table.replicaIdentity := by
    cases table.replicaIdentity <;> rfl
  have columns : removeFromValues "oid" (table.columns.map columnJson) =
      table.columns.map fun column => removeObjectKey "oid" (columnJson column) := by
    rw [valuesRemoved,List.map_map]
    rfl
  simp [portable,tableJson,Json.remove,removeObjectKey,removeFromFields,kind,identity,columns,numbersKept,namePortable]

theorem numbersApart {left right : List Int} (same : left.map Json.num = right.map Json.num) : left = right :=
  List.map_injective_iff.mpr (fun _ _ equal => Json.num.inj equal) same

theorem columnsApart {left right : List ColumnSchema}
    (same : (left.map fun column => removeObjectKey "oid" (columnJson column)) =
      right.map fun column => removeObjectKey "oid" (columnJson column)) :
    left.map eraseColumn = right.map eraseColumn := by
  induction left generalizing right with
  | nil =>
    cases right with
    | nil => rfl
    | cons column right => cases same
  | cons column left ih =>
    cases right with
    | nil => cases same
    | cons column' right =>
      obtain ⟨first,others⟩ := List.cons.inj same
      rw [List.map_cons,List.map_cons,columnApart first,ih others]

theorem portableExact (left right : TableSchema) : portable left = portable right ↔ eraseLocal left = eraseLocal right := by
  constructor
  · intro same
    simp only [tablePortable,Json.obj.injEq,Json.arr.injEq,List.cons.injEq,Prod.mk.injEq,true_and,and_true] at same
    obtain ⟨columns,distribution,kind,name,partition,identity⟩ := same
    simp only [eraseLocal,TableSchema.mk.injEq,true_and]
    exact ⟨nameApart name,tableKindApart _ _ kind,replicaIdentityApart _ _ identity,columnsApart columns,
      numbersApart distribution,numbersApart partition⟩
  · intro same
    have unchanged : ∀ table : TableSchema, portable (eraseLocal table) = portable table := by
      intro table
      simp only [tablePortable,eraseLocal,List.map_map,Function.comp_def,columnPortableErased]
    rw [← unchanged left,← unchanged right,same]

/-- Two schemas have one fingerprint exactly when they are equal without the relation identifier, the generation
and the identifiers of their types at every level. -/
theorem fingerprintExact {sha256 : Bytes → Bytes} (left right : TableSchema)
    (free : sha256 (compactBytes (portable left)) = sha256 (compactBytes (portable right)) →
      compactBytes (portable left) = compactBytes (portable right)) :
    schemaFingerprint sha256 compactBytes left = schemaFingerprint sha256 compactBytes right ↔
      eraseLocal left = eraseLocal right := by
  rw [← portableExact]
  constructor
  · intro same
    unfold schemaFingerprint at same
    have digests := List.append_cancel_left (String.ofList_injective same)
    exact compactBytesInjective (free (hexBytesInjective _ digests))
  · intro same
    unfold schemaFingerprint
    rw [same]

section Sample

def labelled (relation generation array domain base : Nat) : TableSchema :=
  ⟨relation,generation,⟨"public","accounts",publicValid,accountsValid⟩,.ordinary,.default,
    [⟨1,"oid",⟨array,⟨"app","status",appValid,statusValid⟩,
      .array ⟨domain,⟨"app","shared",appValid,sharedValid⟩,
        .domain ⟨base,⟨"pg_catalog","text",pgCatalogValid,textValid⟩,.text⟩ ["CHECK (VALUE <> '\"')"]⟩⟩,
      false,some 1,.none,.none,none⟩],[],[]⟩

def bare (identity : ReplicaIdentity) : TableSchema :=
  ⟨10,1,⟨"public","accounts",publicValid,accountsValid⟩,.ordinary,identity,[],[],[]⟩

theorem restoredFingerprint :
    schemaFingerprint Sha256.digest compactBytes (labelled 10 1 100 200 25) =
      schemaFingerprint Sha256.digest compactBytes (labelled 99 8 101 201 9999) ∧
    schemaFingerprint Sha256.digest compactBytes (bare .default) ≠
      schemaFingerprint Sha256.digest compactBytes (bare .full) := by
  constructor
  · have same := (portableExact (labelled 10 1 100 200 25) (labelled 99 8 101 201 9999)).mpr rfl
    exact (fingerprintExact (labelled 10 1 100 200 25) (labelled 99 8 101 201 9999)
      fun _ => by rw [same]).mpr rfl
  · intro same
    have erased := (fingerprintExact (bare .default) (bare .full) fun digests => absurd digests (by decide +kernel)).mp same
    exact absurd erased (by decide)

end Sample

end CloudberryEtl.Fingerprint
