import CloudberryEtl.Catalog

/-! The publication of a pipeline, from `source-postgres::publication`. The server keeps the members by relation OID; the
specification and the state that is read back name them. -/
namespace CloudberryEtl.Publication
open Schema Result Settings Catalog

structure PgPublication where
  pubname : String
  pubowner : String
  puballtables : Bool
  pubinsert : Bool
  pubupdate : Bool
  pubdelete : Bool
  pubtruncate : Bool
  pubviaroot : Bool
  pubgencolsStored : Bool
  members : List Nat
  deriving DecidableEq, Repr

structure PublicationSpec where
  name : String
  tables : List QualifiedName
  publishViaPartitionRoot : Bool
  deriving DecidableEq, Repr

structure PublicationState where
  owner : String
  allTables : Bool
  publishInsert : Bool
  publishUpdate : Bool
  publishDelete : Bool
  publishTruncate : Bool
  publishViaPartitionRoot : Bool
  publishGeneratedColumnsStored : Bool
  tables : List QualifiedName
  deriving DecidableEq, Repr

def validateName (name : String) : Except SourceError Unit :=
  if IdentifierValid name then .ok () else .error (.invalidIdentifier name)

def PublicationSpec.new (name : String) (tables : List QualifiedName) : Except SourceError PublicationSpec := do
  validateName name
  if tables.isEmpty then .error (.contract "a publication must contain at least one allow-listed table")
  else match (tables.zipIdx.find? (fun (table,index) => table ∈ tables.take index)) with
  | some (table,_) => .error (.contract ("publication table " ++ table.display ++ " is listed more than once"))
  | none => .ok ⟨name,tables,false⟩

def relationName (catalog : PgCatalog) (oid : Nat) : Option (String × String) :=
  (catalog.classes.find? (fun relation => relation.oid = oid)).bind (fun relation =>
    (catalog.nspname relation.relnamespace).map (fun schema => (schema,relation.relname)))

def nameLe (a b : String × String) : Prop := a.1 < b.1 ∨ (a.1 = b.1 ∧ a.2 ≤ b.2)

instance : DecidableRel nameLe := fun a b => by unfold nameLe; infer_instance

def inspectPublication (catalog : PgCatalog) (publications : List PgPublication) (name : String) :
    Except SourceError (Option PublicationState) := do
  validateName name
  match publications.find? (fun row => row.pubname = name) with
  | none => .ok none
  | some row =>
    let tables ← ((row.members.filterMap (relationName catalog)).insertionSort nameLe).mapM (fun (schema,name) =>
      qualified schema name)
    .ok (some ⟨row.pubowner,row.puballtables,row.pubinsert,row.pubupdate,row.pubdelete,row.pubtruncate,row.pubviaroot,
      row.pubgencolsStored,tables⟩)

def displaySort (tables : List QualifiedName) : List QualifiedName :=
  tables.insertionSort (fun a b => a.display ≤ b.display)

def membershipMatches (actual expected : List QualifiedName) : Bool := displaySort actual = displaySort expected

def boolText (value : Bool) : String := if value then "true" else "false"

-- Every caller passes no expected owner.
def validatePublicationState (state : PublicationState) (spec : PublicationSpec) : Except SourceError Unit :=
  if state.allTables then .error (.contract ("publication " ++ spec.name ++ " unexpectedly includes all tables"))
  else if !(state.publishInsert && state.publishUpdate && state.publishDelete && state.publishTruncate) then
    .error (.contract ("publication " ++ spec.name ++ " does not publish the required row operations"))
  else if state.publishViaPartitionRoot ≠ spec.publishViaPartitionRoot then
    .error (.contract ("publication " ++ spec.name ++ " has publish_via_partition_root=" ++
      boolText state.publishViaPartitionRoot ++ ", expected " ++ boolText spec.publishViaPartitionRoot))
  else if !state.publishGeneratedColumnsStored then
    .error (.contract ("publication " ++ spec.name ++ " does not publish stored generated columns"))
  else if !membershipMatches state.tables spec.tables then
    .error (.contract ("publication " ++ spec.name ++ " table allow-list differs from configuration"))
  else .ok ()

def validatePublication (catalog : PgCatalog) (publications : List PgPublication) (spec : PublicationSpec) :
    Except SourceError PublicationState := do
  match ← inspectPublication catalog publications spec.name with
  | none => .error (.contract ("publication " ++ spec.name ++ " is missing"))
  | some state =>
    validatePublicationState state spec
    .ok state

end CloudberryEtl.Publication
