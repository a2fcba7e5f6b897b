import CloudberryEtl.Membership
import CloudberryEtl.PgOutput
import CloudberryEtl.Isolation

/-! What an accepted publication sends. The check of `source-postgres::publication` reads the flags and the names of the
table entries; row filters, column lists, schema entries and partitions are not part of what it reads. -/
namespace CloudberryEtl.PublicationScope
open Schema Change Result Catalog Publication CloudberryEtl.Membership PgOutput

def managed (server : PublishedServer) (spec : PublicationSpec) : Option PgPublicationEntries :=
  server.publications.find? (fun pub => pub.row.pubname = spec.name)

def inSpec (server : PublishedServer) (spec : PublicationSpec) (relation : PgClass) : Bool :=
  spec.tables.any fun table => relationName server.catalog relation.oid = some (table.schema,table.name)

def owners (server : PublishedServer) (spec : PublicationSpec) (relation : PgClass) : List PgClass :=
  (line server relation).filter (inSpec server spec)

def whole (event : RowEvent) (owner : PgClass) : Emission :=
  ⟨owner.oid,sendAs (owner.attributes.filter storedAttribute) event⟩

/- Every change of a row is sent once for each table of the specification it belongs to, whole, and nothing else is. A
TRUNCATE is sent of exactly the tables of the specification, and of every table whose rows belong to one of these. -/
structure Faithful (server : PublishedServer) (pub : PgPublicationEntries) (spec : PublicationSpec) : Prop where
  rows : ∀ relation ∈ server.catalog.classes, Stored relation → ∀ event, server.changes relation event →
    (emit server pub relation event).toList = (owners server spec relation).map (whole event)
  truncates : ∀ relation ∈ server.catalog.classes, Publishable relation →
    (emitsTruncate server pub relation ↔ inSpec server spec relation = true)
  partitions : ∀ relation ∈ server.catalog.classes, Stored relation → owners server spec relation ≠ [] →
    emitsTruncate server pub relation

/- The schema entries reach no table beside the specification's, and each row belongs to one of these only, as which
it is published, and is stored there. -/
structure Separate (server : PublishedServer) (pub : PgPublicationEntries) (spec : PublicationSpec) : Prop where
  unpartitioned : spec.publishViaPartitionRoot = false → ∀ relation ∈ server.catalog.classes,
    inSpec server spec relation = true → relation.relkind = "r"
  unreached : spec.publishViaPartitionRoot = false → ∀ relation ∈ server.catalog.classes, Stored relation →
    (∃ reached ∈ line server relation, inSchema pub reached = true) → inSpec server spec relation = true
  topmost : spec.publishViaPartitionRoot = true → ∀ relation ∈ server.catalog.classes,
    inSpec server spec relation = true → ∀ ancestor ∈ server.ancestors relation, included pub ancestor = false
  rooted : spec.publishViaPartitionRoot = true → ∀ relation ∈ server.catalog.classes, Publishable relation →
    inSchema pub relation = true → (∀ ancestor ∈ server.ancestors relation, included pub ancestor = false) →
    inSpec server spec relation = true
  unsplit : spec.publishViaPartitionRoot = true → ∀ relation ∈ server.catalog.classes, Stored relation →
    owners server spec relation ≠ [] → inSpec server spec relation = true

/- What the check does not read: besides, no row filter is false of a row and no column list leaves out a stored column
of a table of the specification that has rows. -/
structure Undisturbed (server : PublishedServer) (pub : PgPublicationEntries) (spec : PublicationSpec) : Prop where
  separate : Separate server pub spec
  unfiltered : ∀ relation ∈ server.catalog.classes, Stored relation → ∀ event, server.changes relation event →
    ∀ owner ∈ owners server spec relation, inSchema pub owner = false →
    ∀ filter, (entry pub owner).bind PgPublicationRel.prqual = some filter → ∀ image ∈ event.images, filter image = true
  complete : ∀ relation ∈ server.catalog.classes, Stored relation → ∀ event, server.changes relation event →
    ∀ owner ∈ owners server spec relation, ∀ attrs, (entry pub owner).bind PgPublicationRel.prattrs = some attrs →
    ∀ attr ∈ owner.attributes, storedAttribute attr = true → attr.attnum ∈ attrs

structure Accepted (server : PublishedServer) (pub : PgPublicationEntries) (spec : PublicationSpec) : Prop where
  explicit : pub.row.puballtables = false
  operations : ∀ event, publishes pub.row event = true
  truncate : pub.row.pubtruncate = true
  root : pub.row.pubviaroot = spec.publishViaPartitionRoot
  generated : pub.row.pubgencolsStored = true
  members : ∀ relation ∈ server.catalog.classes, listed pub relation = inSpec server spec relation

section Accept
variable {server : PublishedServer} {pub : PgPublicationEntries} {spec : PublicationSpec} {state : PublicationState}

theorem stateChecked (ok : validatePublicationState state spec = .ok ()) :
    state.allTables = false ∧ state.publishInsert = true ∧ state.publishUpdate = true ∧ state.publishDelete = true ∧
      state.publishTruncate = true ∧ state.publishViaPartitionRoot = spec.publishViaPartitionRoot ∧
      state.publishGeneratedColumnsStored = true ∧ state.tables.Perm spec.tables := by
  obtain ⟨explicit,ok⟩ := iteOk.mp ok
  obtain ⟨operations,ok⟩ := iteOk.mp ok
  obtain ⟨root,ok⟩ := iteOk.mp ok
  obtain ⟨generated,ok⟩ := iteOk.mp ok
  obtain ⟨tables,_⟩ := iteOk.mp ok
  simp only [Bool.not_eq_true,Bool.not_eq_eq_eq_not,Bool.not_true,Bool.not_eq_false,Bool.and_eq_true,not_not]
    at explicit operations root generated tables
  exact ⟨explicit,operations.1.1.1,operations.1.1.2,operations.1.2,operations.2,root,generated,matchesPerm tables⟩

theorem qualifiedName {schema name : String} {table : QualifiedName} (ok : qualified schema name = .ok table) :
    table.schema = schema ∧ table.name = name :=
  QualifiedName.newSource (mapErrorOk.mp ok)

theorem relationNameFound {catalog : PgCatalog} {oid : Nat} {name} (found : relationName catalog oid = some name) :
    ∃ relation ∈ catalog.classes, relation.oid = oid := by
  unfold relationName at found
  obtain ⟨relation,here,_⟩ := Option.bind_eq_some_iff.mp found
  exact ⟨relation,List.mem_of_find?_eq_some here,by simpa using List.find?_some here⟩

theorem membersNamed {tables : List QualifiedName} {members : List Nat}
    (read : ((members.filterMap (relationName server.catalog)).insertionSort nameLe).mapM
      (fun (schema,name) => qualified schema name) = .ok tables) (same : tables.Perm spec.tables)
    {relation} (mem : relation ∈ server.catalog.classes) :
    relation.oid ∈ members ↔ inSpec server spec relation = true := by
  have related := mapMOk.mp read
  simp only [inSpec,List.any_eq_true,decide_eq_true_eq]
  constructor
  · intro isMember
    obtain ⟨name,named⟩ := Option.isSome_iff_exists.mp (server.named relation mem)
    have sorted : name ∈ (members.filterMap (relationName server.catalog)).insertionSort nameLe :=
      (List.mem_insertionSort _).mpr (List.mem_filterMap.mpr ⟨relation.oid,isMember,named⟩)
    obtain ⟨table,inTables,read⟩ := relatedFrom related sorted
    obtain ⟨schema,label⟩ := qualifiedName read
    exact ⟨table,same.subset inTables,by rw [named,schema,label]⟩
  · intro isOwn
    obtain ⟨table,inSpec',named⟩ := isOwn
    obtain ⟨name,sorted,read⟩ := relatedMem related (same.symm.subset inSpec')
    obtain ⟨schema,label⟩ := qualifiedName read
    obtain ⟨oid,isMember,found⟩ := List.mem_filterMap.mp ((List.mem_insertionSort _).mp sorted)
    obtain ⟨other,otherMem,otherOid⟩ := relationNameFound found
    have one : relation = other := by
      apply server.distinct relation mem other otherMem
      rw [named,otherOid,found,schema,label]
    rw [one,otherOid]
    exact isMember

theorem accepted (ok : validatePublication server.catalog (server.publications.map PgPublicationEntries.row) spec = .ok state)
    (found : managed server spec = some pub) : Accepted server pub spec := by
  obtain ⟨answer,inspected,ok⟩ := bindOk.mp ok
  obtain ⟨_,_,inspected⟩ := bindOk.mp inspected
  have row : (server.publications.map PgPublicationEntries.row).find? (fun row => row.pubname = spec.name) =
      some pub.row := by
    rw [List.find?_map]
    exact congrArg (Option.map PgPublicationEntries.row) found
  rw [row] at inspected
  obtain ⟨tables,read,inspected⟩ := bindOk.mp inspected
  cases Except.ok.inj inspected
  obtain ⟨_,checked,_⟩ := bindOk.mp ok
  obtain ⟨explicit,insert,update,delete,truncate,root,generated,same⟩ := stateChecked checked
  refine ⟨explicit,?_,truncate,root,generated,?_⟩
  · intro event
    cases event with
    | insert new => exact insert
    | update old new => exact update
    | delete old => exact delete
  · intro relation mem
    have iff := membersNamed read same mem
    simp only [listed]
    cases inSpec' : inSpec server spec relation with
    | true => simpa using iff.mpr inSpec'
    | false => simpa [inSpec'] using iff

end Accept

section Lines
variable {server : PublishedServer} {pub : PgPublicationEntries} {spec : PublicationSpec}

end Lines

section Published
variable {server : PublishedServer} {pub : PgPublicationEntries} {spec : PublicationSpec} (known : Accepted server pub spec)
include known

end Published

section Sample
open CloudberryEtl.Isolation

variable (filter : Option (Row → Bool))

end Sample

end CloudberryEtl.PublicationScope
