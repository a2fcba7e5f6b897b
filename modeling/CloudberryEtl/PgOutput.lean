import CloudberryEtl.Publication

/-! What the source server sends for a publication, as PostgreSQL 18 documents it: table entries with row filters and
column lists, schema entries, the published operations, and the identity of a partition's changes. -/
namespace CloudberryEtl.PgOutput
open Change Catalog Publication

/- The values of a row by column name. A partition has the columns of its ancestors under the same names. -/
abbrev Row := String → Option Bytes

/- A change of a row. The WAL has the old row, or its key, only where the replica identity asks for it. -/
inductive RowEvent where
  | insert (new : Row)
  | update (old : Option Row) (new : Row)
  | delete (old : Row)

def RowEvent.images : RowEvent → List Row
  | .insert new => [new]
  | .update old new => old.toList ++ [new]
  | .delete old => [old]

structure PgPublicationRel where
  prrelid : Nat
  prqual : Option (Row → Bool)
  prattrs : Option (List Int)

structure PgPublicationEntries where
  row : PgPublication
  entries : List PgPublicationRel
  schemas : List Nat
  members : row.members = entries.map PgPublicationRel.prrelid

def Publishable (relation : PgClass) : Prop :=
  (relation.relkind = "r" ∨ relation.relkind = "p") ∧ relation.relpersistence = "p"

def Stored (relation : PgClass) : Prop := relation.relkind = "r" ∧ relation.relpersistence = "p"

def listed (pub : PgPublicationEntries) (relation : PgClass) : Bool := relation.oid ∈ pub.row.members

def inSchema (pub : PgPublicationEntries) (relation : PgClass) : Bool := relation.relnamespace ∈ pub.schemas

def included (pub : PgPublicationEntries) (relation : PgClass) : Bool := listed pub relation || inSchema pub relation

/- The database that is published, with the changes that the constraints of a table allow. The ancestors of a partition
begin with its parent and end with the root; names are unique, and only publishable tables have an entry. -/
structure PublishedServer where
  catalog : PgCatalog
  publications : List PgPublicationEntries
  ancestors : PgClass → List PgClass
  changes : PgClass → RowEvent → Prop
  named : ∀ relation ∈ catalog.classes, (relationName catalog relation.oid).isSome
  distinct : ∀ relation ∈ catalog.classes, ∀ other ∈ catalog.classes,
    relationName catalog relation.oid = relationName catalog other.oid → relation = other
  partitioned : ∀ relation ∈ catalog.classes, ∀ ancestor ∈ ancestors relation,
    ancestor ∈ catalog.classes ∧ ancestor.relkind = "p" ∧ ancestor.relpersistence = "p"
  above : ∀ relation before ancestor after, ancestors relation = before ++ ancestor :: after → ancestors ancestor = after
  publishable : ∀ pub ∈ publications, ∀ relation ∈ catalog.classes, listed pub relation = true → Publishable relation

section Server
variable (server : PublishedServer) (pub : PgPublicationEntries)

def line (relation : PgClass) : List PgClass := relation :: server.ancestors relation

def publishedAs (relation : PgClass) : Option PgClass :=
  if pub.row.puballtables then some (if pub.row.pubviaroot then (line server relation).getLast (by simp [line]) else relation)
  else match ((line server relation).filter (included pub)).getLast? with
    | some topmost => some (if pub.row.pubviaroot then topmost else relation)
    | none => none

def entry (target : PgClass) : Option PgPublicationRel := pub.entries.find? (fun entry => entry.prrelid = target.oid)

-- A table whose schema is published is sent without a row filter.
def accepts (target : PgClass) (row : Row) : Bool :=
  pub.row.puballtables || inSchema pub target ||
    match (entry pub target).bind PgPublicationRel.prqual with
    | some filter => filter row
    | none => true

def storedAttribute (attr : PgAttribute) : Bool := attr.live && (attr.attgenerated = [] || attr.attgenerated = [115])

-- Without a column list the generated columns are sent as the publication says.
def publishedAttributes (target : PgClass) : List PgAttribute :=
  match (entry pub target).bind PgPublicationRel.prattrs with
  | some attrs => target.attributes.filter (fun attr => storedAttribute attr && attr.attnum ∈ attrs)
  | none => target.attributes.filter (fun attr => storedAttribute attr &&
      (attr.attgenerated = [] || pub.row.pubgencolsStored))

end Server

-- A row filter decides on an update by the old and the new row.
def filtered (accept : Row → Bool) : RowEvent → Option RowEvent
  | .insert new => if accept new then some (.insert new) else none
  | .delete old => if accept old then some (.delete old) else none
  | .update none new => if accept new then some (.update none new) else none
  | .update (some old) new =>
    if accept old then some (if accept new then .update (some old) new else .delete old)
    else if accept new then some (.insert new) else none

abbrev Values := List (String × Option Bytes)

inductive Sent where
  | insert (new : Values)
  | update (old : Option Values) (new : Values)
  | delete (old : Values)
  deriving DecidableEq, Repr

structure Emission where
  relation : Nat
  sent : Sent
  deriving DecidableEq, Repr

def shown (attributes : List PgAttribute) (row : Row) : Values := attributes.map fun attr => (attr.attname,row attr.attname)

def sendAs (attributes : List PgAttribute) : RowEvent → Sent
  | .insert new => .insert (shown attributes new)
  | .update old new => .update (old.map (shown attributes)) (shown attributes new)
  | .delete old => .delete (shown attributes old)

def publishes (row : PgPublication) : RowEvent → Bool
  | .insert _ => row.pubinsert
  | .update _ _ => row.pubupdate
  | .delete _ => row.pubdelete

def emit (server : PublishedServer) (pub : PgPublicationEntries) (relation : PgClass) (event : RowEvent) : Option Emission :=
  match publishedAs server pub relation with
  | none => none
  | some target =>
    if publishes pub.row event then
      (filtered (accepts pub target) event).map fun event => ⟨target.oid,sendAs (publishedAttributes pub target) event⟩
    else none

/- A partitioned table is truncated under its own name only when it is published via the root, and a partition only
when it is not published as another table. -/
def emitsTruncate (server : PublishedServer) (pub : PgPublicationEntries) (relation : PgClass) : Prop :=
  publishedAs server pub relation = some relation ∧ (relation.relkind = "r" ∨ pub.row.pubviaroot = true) ∧
    pub.row.pubtruncate = true

end CloudberryEtl.PgOutput
