import CloudberryEtl.TypeResolution

/-! Which catalog types are reported as supported. The classification reads `typtype`, `typelem` and the bare name of a
type; what an array type really is stands in `pg_type.typarray` of its element, which the scan leaves out. -/
namespace CloudberryEtl.TypeAdmission
open Schema Result Settings Catalog TypeResolution

def registeredName : PgTypeKind → Option String
  | .bool => some "bool"
  | .int2 => some "int2"
  | .int4 => some "int4"
  | .int8 => some "int8"
  | .numeric _ _ => some "numeric"
  | .float4 => some "float4"
  | .float8 => some "float8"
  | .text => some "text"
  | .varChar _ => some "varchar"
  | .char _ => some "bpchar"
  | .bytea => some "bytea"
  | .date => some "date"
  | .time _ withTimeZone => some (if withTimeZone then "timetz" else "time")
  | .timestamp _ withTimeZone => some (if withTimeZone then "timestamptz" else "timestamp")
  | .interval _ => some "interval"
  | .uuid => some "uuid"
  | .json => some "json"
  | .jsonb => some "jsonb"
  | .inet => some "inet"
  | .cidr => some "cidr"
  | .macAddr => some "macaddr"
  | .macAddr8 => some "macaddr8"
  | .bit _ varying => some (if varying then "varbit" else "bit")
  | .xml => some "xml"
  | _ => none

theorem scalarKindNamed (name : String) (typmod : Int) :
    registeredName (scalarKind name typmod) = some name ∨
      (registeredName (scalarKind name typmod) = none ∧
        scalarKind name typmod = .unsupported ("unregistered PostgreSQL type " ++ name)) := by
  unfold scalarKind
  split <;> simp [registeredName]

inductive Faithful (all : List TypeDescriptor) (typarray : Nat → Option Nat) : PgType → Prop
  | enum {oid descriptor name labels} (listed : typeOf all oid = some descriptor)
      (named : name.schema = descriptor.schema ∧ name.name = descriptor.name) (kind : descriptor.typtype = "e") :
      Faithful all typarray ⟨oid,name,.enum labels⟩
  | domain {oid descriptor name base constraints} (listed : typeOf all oid = some descriptor)
      (named : name.schema = descriptor.schema ∧ name.name = descriptor.name) (kind : descriptor.typtype = "d")
      (linked : descriptor.baseOid = some base.oid) (rest : Faithful all typarray base) :
      Faithful all typarray ⟨oid,name,.domain base constraints⟩
  | array {oid descriptor name element} (listed : typeOf all oid = some descriptor)
      (named : name.schema = descriptor.schema ∧ name.name = descriptor.name) (kind : descriptor.typtype = "b")
      (arrayOf : typarray element.oid = some oid) (rest : Faithful all typarray element) :
      Faithful all typarray ⟨oid,name,.array element⟩
  | scalar {oid descriptor name kind} (listed : typeOf all oid = some descriptor)
      (named : name.schema = descriptor.schema ∧ name.name = descriptor.name) (base : descriptor.typtype = "b")
      (noElement : descriptor.elementOid = none) (builtIn : descriptor.schema = "pg_catalog")
      (registered : registeredName kind = some descriptor.name) : Faithful all typarray ⟨oid,name,kind⟩

inductive TypePath (all : List TypeDescriptor) : TypeDescriptor → List TypeDescriptor → TypeDescriptor → Prop
  | last {descriptor} (leaf : descriptor.typtype = "e" ∨ plain descriptor) : TypePath all descriptor [] descriptor
  | through {descriptor next path leaf} (linked : link all descriptor = some next) (rest : TypePath all next path leaf) :
      TypePath all descriptor (descriptor :: path) leaf

def nameValid (descriptor : TypeDescriptor) : Prop :=
  IdentifierValid descriptor.schema ∧ IdentifierValid descriptor.name

/- The types with an element on the way are the array types of their elements, and the type at the end is an enum or a
base type of `pg_catalog`; nothing is asked where the way ends in a type that no name registers. -/
def trueToCatalog (all : List TypeDescriptor) (typarray : Nat → Option Nat) (descriptor : TypeDescriptor) : Prop :=
  ∀ path leaf, TypePath all descriptor path leaf → (∀ step ∈ path, nameValid step) → nameValid leaf →
    leaf.typtype = "e" ∨ (scalarKind leaf.name (-1)).isSupported →
    (∀ step ∈ path, step.typtype = "b" → step.elementOid.bind typarray = some step.oid) ∧
    (leaf.typtype = "e" ∨ (leaf.typtype = "b" ∧ leaf.schema = "pg_catalog"))

section
variable {all : List TypeDescriptor} {typarray : Nat → Option Nat} {descriptor leaf : TypeDescriptor}
  {path : List TypeDescriptor} {typmod : Int} {type : PgType}

theorem qualifiedSource {schema name value} (ok : qualified schema name = .ok value) :
    value.schema = schema ∧ value.name = name := by
  simp only [qualified,mapErrorOk] at ok
  exact QualifiedName.newSource ok

theorem qualifiedIff {schema name : String} :
    (∃ value, qualified schema name = .ok value) ↔ IdentifierValid schema ∧ IdentifierValid name := by
  simp only [qualified,mapErrorOk]
  constructor
  · intro found
    obtain ⟨value,ok⟩ := found
    obtain ⟨rfl,rfl⟩ := QualifiedName.newSource ok
    exact ⟨value.schemaValid,value.nameValid⟩
  · intro valid
    exact ⟨⟨schema,name,valid.1,valid.2⟩,QualifiedName.newValid ⟨schema,name,valid.1,valid.2⟩⟩

theorem scalarKindSupported (name : String) (typmod : Int) :
    (scalarKind name typmod).isSupported = (scalarKind name (-1)).isSupported := by
  unfold scalarKind
  split <;> rfl

theorem leafLink (ends : leaf.typtype = "e" ∨ plain leaf) : link all leaf = none :=
  ends.elim enumLink plainLink

theorem pathUnique {path' leaf'} (one : TypePath all descriptor path leaf) (other : TypePath all descriptor path' leaf') :
    path' = path ∧ leaf' = leaf := by
  induction one generalizing path' with
  | last ends =>
    cases other with
    | last _ => exact ⟨rfl,rfl⟩
    | through linked _ => simp [leafLink ends] at linked
  | through linked _ ih =>
    cases other with
    | last ends => simp [leafLink ends] at linked
    | through linked' rest =>
      cases Option.some.inj (linked.symm.trans linked')
      obtain ⟨rfl,rfl⟩ := ih rest
      exact ⟨rfl,rfl⟩

theorem resolvedPath (resolved : Resolved all descriptor typmod type) :
    ∃ path leaf, TypePath all descriptor path leaf ∧ (∀ step ∈ path, nameValid step) ∧ nameValid leaf := by
  induction resolved with
  | enum named kind => exact ⟨[],_,.last (.inl kind),by simp,qualifiedIff.mp ⟨_,named⟩⟩
  | domain named kind linked _ ih =>
    obtain ⟨path,leaf,walk,valid,leafValid⟩ := ih
    exact ⟨_ :: path,leaf,.through ((if_pos kind).trans linked) walk,
      List.forall_mem_cons.mpr ⟨qualifiedIff.mp ⟨_,named⟩,valid⟩,leafValid⟩
  | array named kind linked _ ih =>
    obtain ⟨path,leaf,walk,valid,leafValid⟩ := ih
    exact ⟨_ :: path,leaf,.through (by simpa [link,kind] using linked) walk,
      List.forall_mem_cons.mpr ⟨qualifiedIff.mp ⟨_,named⟩,valid⟩,leafValid⟩
  | scalar named kind => exact ⟨[],_,.last (.inr kind),by simp,qualifiedIff.mp ⟨_,named⟩⟩

theorem pathResolved (walk : TypePath all descriptor path leaf) (valid : ∀ step ∈ path, nameValid step)
    (leafValid : nameValid leaf) (typmod : Int) : ∃ type, Resolved all descriptor typmod type := by
  induction walk generalizing typmod with
  | last ends =>
    obtain ⟨name,named⟩ := qualifiedIff.mpr leafValid
    exact ends.elim (fun kind => ⟨_,.enum named kind⟩) (fun kind => ⟨_,.scalar named kind⟩)
  | @through descriptor next path leaf linked rest ih =>
    obtain ⟨here,valid⟩ := List.forall_mem_cons.mp valid
    obtain ⟨name,named⟩ := qualifiedIff.mpr here
    unfold link at linked
    split at linked
    · rename_i kind
      obtain ⟨inner,resolved⟩ := ih valid leafValid typmod
      exact ⟨_,.domain named kind linked resolved⟩
    · split at linked
      · rename_i kind
        obtain ⟨inner,resolved⟩ := ih valid leafValid (-1)
        exact ⟨_,.array named kind linked resolved⟩
      · contradiction

theorem resolvedOid (resolved : Resolved all descriptor typmod type) : type.oid = descriptor.oid := by
  cases resolved <;> rfl

theorem faithfulDomain {oid name base constraints} (faithful : Faithful all typarray ⟨oid,name,.domain base constraints⟩) :
    Faithful all typarray base := by
  cases faithful with
  | domain _ _ _ _ rest => exact rest
  | scalar _ _ _ _ _ registered => simp [registeredName] at registered

theorem faithfulArray {oid name element} (faithful : Faithful all typarray ⟨oid,name,.array element⟩) :
    typarray element.oid = some oid ∧ Faithful all typarray element := by
  cases faithful with
  | array _ _ _ arrayOf rest => exact ⟨arrayOf,rest⟩
  | scalar _ _ _ _ _ registered => simp [registeredName] at registered

theorem faithfulScalar {oid name kind text} (listed : typeOf all oid = some descriptor)
    (registered : registeredName kind = some text) (faithful : Faithful all typarray ⟨oid,name,kind⟩) :
    descriptor.typtype = "b" ∧ descriptor.schema = "pg_catalog" := by
  cases faithful with
  | enum _ _ _ => simp [registeredName] at registered
  | domain _ _ _ _ _ => simp [registeredName] at registered
  | array _ _ _ _ _ => simp [registeredName] at registered
  | scalar listed' _ base _ builtIn _ =>
    cases Option.some.inj (listed.symm.trans listed')
    exact ⟨base,builtIn⟩

theorem innerSupported (type : PgType) : type.isSupported = type.kind.isSupported := by
  cases type
  simp [PgType.isSupported]

theorem faithfulIff (typarray : Nat → Option Nat) (resolved : Resolved all descriptor typmod type)
    (walk : TypePath all descriptor path leaf) (listed : typeOf all descriptor.oid = some descriptor) :
    (type.kind.isSupported = true ↔ leaf.typtype = "e" ∨ (scalarKind leaf.name (-1)).isSupported = true) ∧
    (type.kind.isSupported = true → (Faithful all typarray type ↔
      (∀ step ∈ path, step.typtype = "b" → step.elementOid.bind typarray = some step.oid) ∧
      (leaf.typtype = "e" ∨ (leaf.typtype = "b" ∧ leaf.schema = "pg_catalog")))) := by
  induction resolved generalizing path with
  | enum named kind =>
    obtain ⟨rfl,rfl⟩ := pathUnique (.last (.inl kind)) walk
    simp only [kind,PgTypeKind.isSupported,true_or,List.not_mem_nil,false_implies,implies_true,and_self,iff_true,true_implies,
      true_and]
    exact .enum listed (qualifiedSource named) kind
  | @domain descriptor typmod name base inner named kind linked rest ih =>
    obtain ⟨oid,same,found⟩ := Option.bind_eq_some_iff.mp linked
    obtain ⟨_,rfl⟩ := typeOfMem found
    cases walk with
    | last ends => simp [kind,plain] at ends
    | through linked' walk =>
      cases Option.some.inj (linked.symm.trans ((if_pos kind).symm.trans linked'))
      obtain ⟨supported,faithful⟩ := ih walk found
      simp only [PgTypeKind.isSupported,innerSupported,List.forall_mem_cons]
      have notBase : descriptor.typtype = "b" → descriptor.elementOid.bind typarray = some descriptor.oid := by simp [kind]
      constructor
      · exact supported
      · intro here
        constructor
        · intro whole
          obtain ⟨steps,last⟩ := (faithful here).mp (faithfulDomain whole)
          exact ⟨⟨notBase,steps⟩,last⟩
        · intro conditions
          have linked : descriptor.baseOid = some inner.oid := by rw [resolvedOid rest,same]
          exact .domain listed (qualifiedSource named) kind linked ((faithful here).mpr ⟨conditions.1.2,conditions.2⟩)
  | @array descriptor typmod name element inner named kind linked rest ih =>
    obtain ⟨oid,same,found⟩ := Option.bind_eq_some_iff.mp linked
    obtain ⟨_,rfl⟩ := typeOfMem found
    cases walk with
    | last ends => simp [kind,plain,same] at ends
    | @through _ next _ _ linked' walk =>
      have shape : link all descriptor = descriptor.elementOid.bind (typeOf all) := by simp [link,kind]
      cases Option.some.inj (linked.symm.trans (shape.symm.trans linked'))
      obtain ⟨supported,faithful⟩ := ih walk found
      simp only [PgTypeKind.isSupported,innerSupported,List.forall_mem_cons]
      have arrayOf : typarray inner.oid = descriptor.elementOid.bind typarray := by
        rw [resolvedOid rest,same,Option.bind_some]
      constructor
      · exact supported
      · intro here
        constructor
        · intro whole
          obtain ⟨isArray,rest⟩ := faithfulArray whole
          obtain ⟨steps,last⟩ := (faithful here).mp rest
          exact ⟨⟨fun _ => arrayOf ▸ isArray,steps⟩,last⟩
        · intro conditions
          have isArray : typarray inner.oid = some descriptor.oid := arrayOf.trans (conditions.1.1 kind)
          exact .array listed (qualifiedSource named) kind isArray ((faithful here).mpr ⟨conditions.1.2,conditions.2⟩)
  | @scalar descriptor typmod name named kind =>
    obtain ⟨rfl,rfl⟩ := pathUnique (.last (.inr kind)) walk
    obtain ⟨notEnum,_,noElement⟩ := kind
    simp only [scalarKindSupported,notEnum,false_or,List.not_mem_nil,false_implies,implies_true,true_and]
    intro here
    rcases scalarKindNamed leaf.name typmod with registered | ⟨_,unregistered⟩
    · constructor
      · exact faithfulScalar listed registered
      · intro builtIn
        exact .scalar listed (qualifiedSource named) builtIn.1 (noElement builtIn.1) builtIn.2 registered
    · rw [← scalarKindSupported _ typmod,unregistered] at here
      simp [PgTypeKind.isSupported] at here

/-- A type that is reported as supported is what it is reported as exactly when the catalog rows it was resolved through
are: each base type with an element is the array type of that element, and the last one is an enum or stands in
`pg_catalog`. The classification itself checks neither. -/
theorem supportedTypesFaithful (all : List TypeDescriptor) (typarray : Nat → Option Nat) (descriptor : TypeDescriptor)
    (listed : typeOf all descriptor.oid = some descriptor) (typmod : Int) :
    (∀ type, resolveType all (all.length + 1) descriptor typmod = .ok type → type.kind.isSupported = true →
      Faithful all typarray type) ↔ trueToCatalog all typarray descriptor := by
  constructor
  · intro sound path leaf walk valid leafValid admitted
    obtain ⟨type,resolved⟩ := pathResolved walk valid leafValid typmod
    obtain ⟨supported,faithful⟩ := faithfulIff typarray resolved walk listed
    have here := supported.mpr admitted
    exact (faithful here).mp (sound type (resolveTypeIff.mpr resolved) here)
  · intro true' type ok here
    have resolved := resolveTypeIff.mp ok
    obtain ⟨path,leaf,walk,valid,leafValid⟩ := resolvedPath resolved
    obtain ⟨supported,faithful⟩ := faithfulIff typarray resolved walk listed
    exact (faithful here).mpr (true' path leaf walk valid leafValid (supported.mp here))

end

/- `float8`, its array type, and `point`, a base type of two `float8` that is stored as one value. -/
def float8Descriptor : TypeDescriptor := ⟨701,"pg_catalog","float8","b",none,none,[],[]⟩

def float8ArrayDescriptor : TypeDescriptor := ⟨1022,"pg_catalog","_float8","b",none,some 701,[],[]⟩

def pointDescriptor : TypeDescriptor := ⟨600,"pg_catalog","point","b",none,some 701,[],[]⟩

def geometryDescriptors : List TypeDescriptor := [float8Descriptor,float8ArrayDescriptor,pointDescriptor]

def geometryArrays (oid : Nat) : Option Nat := if oid = 701 then some 1022 else none

theorem float8ArrayAdmission :
    (∀ type, resolveType geometryDescriptors (geometryDescriptors.length + 1) float8ArrayDescriptor (-1) = .ok type →
      type.kind.isSupported = true → Faithful geometryDescriptors geometryArrays type) ↔
    trueToCatalog geometryDescriptors geometryArrays float8ArrayDescriptor :=
  supportedTypesFaithful geometryDescriptors geometryArrays float8ArrayDescriptor rfl (-1)

theorem pointReported : ∃ type, resolveType geometryDescriptors (geometryDescriptors.length + 1) pointDescriptor (-1) =
    .ok type ∧ type.kind.isSupported = true ∧ ¬ Faithful geometryDescriptors geometryArrays type := by
  refine ⟨_,rfl,rfl,?_⟩
  intro faithful
  have arrayOf := (faithfulArray faithful).1
  simp [geometryArrays,pointDescriptor,float8Descriptor] at arrayOf

end CloudberryEtl.TypeAdmission
