import CloudberryEtl.Inventory
import CloudberryEtl.TypeResolution

/-! When the inspection of a well-formed source answers, and that each table's entry is then the one it gets when it is
inspected alone. A row of any table in scope can end the scan, since all rows pass through one loop. -/
namespace CloudberryEtl.Isolation
open Schema Change Result Settings Catalog Inventory LinkChain TypeResolution
open Planning (TableInventory)

-- `int2vectorout`: the numbers with single blanks between them.
def int2vectorText (keys : List Nat) : String := " ".intercalate (keys.map toString)

/- The rows of `pg_type` are named, refer to rows that are there, and no type is made of itself. -/
structure TypesFormed (catalog : PgCatalog) : Prop where
  named : ∀ row ∈ catalog.types, IdentifierValid row.typname ∧ ∃ schema, catalog.nspname row.typnamespace = some schema
  oids : ∀ row ∈ catalog.types, row.oid ≠ 0 ∧ row.oid < 2 ^ 32
  kinds : ∀ row ∈ catalog.types, row.typtype = "d" → ∃ base ∈ catalog.types, base.oid = row.typbasetype
  elements : ∀ row ∈ catalog.types, row.typelem ≠ 0 → ∃ element ∈ catalog.types, element.oid = row.typelem
  ranked : ∃ rank : Nat → Nat, ∀ row ∈ catalog.types,
    (row.typtype = "d" → rank row.typbasetype < rank row.oid) ∧ (row.typelem ≠ 0 → rank row.typelem < rank row.oid)

structure AttributeFormed (catalog : PgCatalog) (attr : PgAttribute) : Prop where
  typed : ∃ row ∈ catalog.types, row.oid = attr.atttypid
  generated : attr.attgenerated ∈ [[],[115],[118]]
  identity : attr.attidentity ∈ [[],[97],[100]]
  collation : ∀ collation ∈ catalog.collations, collation.oid = attr.attcollation → IdentifierValid collation.collname

structure RelationFormed (catalog : PgCatalog) (relation : PgClass) : Prop where
  named : IdentifierValid relation.relname
  replicaIdentity : relation.relreplident ∈ ["d","i","f","n"]
  ordinary : relation.relkind ≠ "p" → relation.partattrs = none
  partitioned : relation.relkind = "p" → ∃ keys ≠ [], relation.partattrs = some (int2vectorText keys)
  attributes : ∀ attr ∈ relation.attributes, attr.live → AttributeFormed catalog attr

structure WellFormed (catalog : PgCatalog) : Prop where
  types : TypesFormed catalog
  relations : ∀ relation ∈ catalog.classes, RelationFormed catalog relation

def alone (catalog : PgCatalog) (relation : PgClass) : PgCatalog :=
  {catalog with classes := [relation], oids := oneOid relation}

def entryOf (table : TableSchema) : TableInventory := classifyTable ⟨[],[]⟩ table

def readWhole (catalog : PgCatalog) (relation : PgClass) (table : TableSchema) : Prop :=
  table.relationId = relation.oid ∧ catalog.nspname relation.relnamespace = some table.name.schema ∧
  table.name.name = relation.relname ∧
  table.columns.map (fun column => (column.attnum,column.name)) =
    relation.liveAttributes.map (fun attr => (attr.attnum,attr.attname)) ∧
  (table.columns.map ColumnSchema.attnum).Pairwise (· < ·)

/- The inspection answers, and what it answers is put together from one entry for each relation in scope: the entry that
the relation gets when there is no other. -/
def inspectsEachTable (catalog : PgCatalog) (options : CatalogOptions) : Prop :=
  ∃ inventory tables, inspectTables catalog options = .ok inventory ∧
    List.Forall₂ (fun relation table => readWhole catalog relation table ∧
      inspectTables (alone catalog relation) options = .ok (entryOf table)) (inScopeRelations catalog options) tables ∧
    inventory.supported = tables.flatMap (fun table => (entryOf table).supported) ∧
    inventory.rejected = tables.flatMap (fun table => (entryOf table).rejected)

section Types
variable {catalog : PgCatalog}

theorem bindSucceeds {ε α β : Type} {x : Except ε α} {f : α → Except ε β} {a : α} (first : x = .ok a)
    (rest : ∃ b, f a = .ok b) : ∃ b, (x >>= f) = .ok b := by
  obtain ⟨b,rest⟩ := rest
  exact ⟨b,bindOk.mpr ⟨a,first,rest⟩⟩

theorem schemaNamed {oid : Nat} {schema : String} (named : catalog.nspname oid = some schema) : IdentifierValid schema := by
  obtain ⟨row,_,same⟩ := Option.map_eq_some_iff.mp named
  exact same ▸ row.named

theorem qualifies {schema name : String} (schemaValid : IdentifierValid schema) (nameValid : IdentifierValid name) :
    qualified schema name = .ok ⟨schema,name,schemaValid,nameValid⟩ := by
  simp only [qualified,mapErrorOk]
  exact QualifiedName.newValid ⟨schema,name,schemaValid,nameValid⟩

theorem descriptorSource {descriptor : TypeDescriptor} (mem : descriptor ∈ loadTypeDescriptors catalog) :
    ∃ row ∈ catalog.types, ∃ schema, catalog.nspname row.typnamespace = some schema ∧
      descriptor = ⟨row.oid,schema,row.typname,row.typtype,nullIfZero row.typbasetype,nullIfZero row.typelem,row.labels,
        row.constraints⟩ := by
  obtain ⟨row,member,described⟩ := List.mem_filterMap.mp mem
  obtain ⟨schema,named,same⟩ := Option.map_eq_some_iff.mp described
  exact ⟨row,member,schema,named,same.symm⟩

theorem typeFound (formed : TypesFormed catalog) {row : PgTypeRow} (member : row ∈ catalog.types) :
    ∃ descriptor, typeOf (loadTypeDescriptors catalog) row.oid = some descriptor := by
  obtain ⟨_,schema,named⟩ := formed.named row member
  apply Option.isSome_iff_exists.mp
  rw [typeOf,List.find?_isSome]
  have described : typeDescriptor catalog row = some _ := Option.map_eq_some_iff.mpr ⟨schema,named,rfl⟩
  exact ⟨_,List.mem_filterMap.mpr ⟨row,member,described⟩,by simp⟩

theorem linkFound (formed : TypesFormed catalog) {target : PgTypeRow} {oid : Nat} (member : target ∈ catalog.types)
    (same : target.oid = oid) : ∃ descriptor, (nullIfZero oid).bind (typeOf (loadTypeDescriptors catalog)) = some descriptor ∧
      descriptor ∈ loadTypeDescriptors catalog ∧ descriptor.oid = oid := by
  obtain ⟨descriptor,found⟩ := typeFound formed member
  rw [same] at found
  have present : nullIfZero oid = some oid := if_neg (same ▸ (formed.oids target member).1)
  exact ⟨descriptor,by rw [present]; exact found,(typeOfMem found).1,(typeOfMem found).2⟩

theorem typesResolve (formed : TypesFormed catalog) {rank : Nat → Nat}
    (falls : ∀ row ∈ catalog.types, (row.typtype = "d" → rank row.typbasetype < rank row.oid) ∧
      (row.typelem ≠ 0 → rank row.typelem < rank row.oid)) (bound : Nat) :
    ∀ descriptor ∈ loadTypeDescriptors catalog, rank descriptor.oid < bound → ∀ typmod,
      ∃ type, Resolved (loadTypeDescriptors catalog) descriptor typmod type := by
  -- Induction on the rank of the type: a base and an element come before the type made of them.
  induction bound with
  | zero => intro _ _ below; omega
  | succ bound ih =>
    intro descriptor mem below typmod
    obtain ⟨row,member,schema,named,rfl⟩ := descriptorSource mem
    have name := qualifies (schemaNamed named) (formed.named row member).1
    by_cases isEnum : row.typtype = "e"
    · exact ⟨_,.enum name isEnum⟩
    by_cases isDomain : row.typtype = "d"
    · obtain ⟨base,baseMember,same⟩ := formed.kinds row member isDomain
      obtain ⟨next,linked,nextMem,oid⟩ := linkFound formed baseMember same
      have lower := (falls row member).1 isDomain
      obtain ⟨inner,resolved⟩ := ih next nextMem (by simp only [oid]; simp only at below; omega) typmod
      exact ⟨_,.domain name isDomain linked resolved⟩
    by_cases isArray : row.typtype = "b" ∧ row.typelem ≠ 0
    · obtain ⟨element,elementMember,same⟩ := formed.elements row member isArray.2
      obtain ⟨next,linked,nextMem,oid⟩ := linkFound formed elementMember same
      have lower := (falls row member).2 isArray.2
      obtain ⟨inner,resolved⟩ := ih next nextMem (by simp only [oid]; simp only at below; omega) (-1)
      exact ⟨_,.array name isArray.1 linked resolved⟩
    · have noElement : row.typtype = "b" → nullIfZero row.typelem = none := by
        intro base
        exact if_pos (by_contra (fun element => isArray ⟨base,element⟩))
      exact ⟨_,.scalar name ⟨isEnum,isDomain,noElement⟩⟩

theorem typeResolves (formed : TypesFormed catalog) {row : PgTypeRow} (member : row ∈ catalog.types) (typmod : Int) :
    ∃ descriptor type, typeOf (loadTypeDescriptors catalog) row.oid = some descriptor ∧
      resolveType (loadTypeDescriptors catalog) ((loadTypeDescriptors catalog).length + 1) descriptor typmod = .ok type := by
  obtain ⟨rank,falls⟩ := formed.ranked
  obtain ⟨descriptor,found⟩ := typeFound formed member
  obtain ⟨type,resolved⟩ := typesResolve formed falls _ descriptor (typeOfMem found).1 (Nat.lt_succ_self _) typmod
  exact ⟨descriptor,type,found,resolveTypeIff.mpr resolved⟩

end Types

section Rows
variable {catalog : PgCatalog} {options : CatalogOptions} {relation : PgClass} {schema : String} {attr : PgAttribute}

theorem generatedRead {value : Bytes} (known : value ∈ [[],[115],[118]]) :
    ∃ generated, parseGenerated value = .ok generated := by
  simp only [List.mem_cons,List.not_mem_nil,or_false] at known
  rcases known with rfl | rfl | rfl <;> exact ⟨_,rfl⟩

theorem identityRead {value : Bytes} (known : value ∈ [[],[97],[100]]) : ∃ identity, parseIdentity value = .ok identity := by
  simp only [List.mem_cons,List.not_mem_nil,or_false] at known
  rcases known with rfl | rfl | rfl <;> exact ⟨_,rfl⟩

theorem replicaIdentityRead {value : String} (known : value ∈ ["d","i","f","n"]) :
    ∃ identity, parseReplicaIdentity (value.toList.headD 'd') = .ok identity := by
  simp only [List.mem_cons,List.not_mem_nil,or_false] at known
  rcases known with rfl | rfl | rfl | rfl <;> exact ⟨_,rfl⟩

theorem collationRead (formed : AttributeFormed catalog attr) :
    ∃ collation, rowCollation (catalogRow catalog relation schema attr) = .ok collation := by
  simp only [rowCollation,catalogRow]
  cases found : collationOf catalog attr with
  | none => exact ⟨none,rfl⟩
  | some collation =>
    cases named : catalog.nspname collation.collnamespace with
    | none => exact ⟨none,by simp [named]⟩
    | some collationSchema =>
      unfold collationOf at found
      split at found
      · contradiction
      · have same : collation.oid = attr.attcollation := by simpa using List.find?_some found
        have valid := formed.collation collation (List.mem_of_find?_eq_some found) same
        have name := qualifies (schemaNamed named) valid
        exact ⟨_,by simp [named,name,Except.map]; rfl⟩

theorem columnRead (types : TypesFormed catalog) (formed : AttributeFormed catalog attr) :
    ∃ column, rowColumn (loadTypeDescriptors catalog) (catalogRow catalog relation schema attr) = .ok column := by
  obtain ⟨row,member,same⟩ := formed.typed
  obtain ⟨descriptor,type,found,resolved⟩ := typeResolves types member attr.atttypmod
  have collated : ∃ collation, rowCollation (catalogRow catalog relation schema attr) = .ok collation := collationRead formed
  obtain ⟨collation,collated⟩ := collated
  obtain ⟨generated,generatedOk⟩ := generatedRead formed.generated
  obtain ⟨identity,identityOk⟩ := identityRead formed.identity
  have fits : parseU32Value (catalogRow catalog relation schema attr).typeOid "type_oid" = .ok attr.atttypid := by
    have bound : (attr.atttypid : Int) < 2 ^ 32 := by
      have range := (types.oids row member).2
      omega
    have read : parseU32Value (attr.atttypid : Int) "type_oid" = .ok attr.atttypid := by
      unfold parseU32Value
      rw [if_pos ⟨Int.natCast_nonneg _,bound⟩,Int.toNat_natCast]
    exact read
  rw [same] at found
  unfold rowColumn
  apply bindSucceeds fits
  simp only [found]
  apply bindSucceeds resolved
  apply bindSucceeds collated
  apply bindSucceeds generatedOk
  apply bindSucceeds identityOk
  exact ⟨_,rfl⟩

theorem addRowSucceeds {types : List TypeDescriptor} {tables : List TableSchema} {name : QualifiedName}
    {replicaIdentity : ReplicaIdentity} {column : ColumnSchema} {partitionKey : List Int}
    (named : qualified schema relation.relname = .ok name)
    (replica : parseReplicaIdentity (relation.relreplident.toList.headD 'd') = .ok replicaIdentity)
    (read : rowColumn types (catalogRow catalog relation schema attr) = .ok column)
    (keys : parseAttnums (relation.partattrs.getD "{}") = .ok partitionKey) :
    ∃ result, addRow types options tables (catalogRow catalog relation schema attr) = .ok result := by
  unfold addRow
  split
  · exact ⟨_,rfl⟩
  apply bindSucceeds (relationIdRead relation)
  split
  · exact ⟨_,rfl⟩
  apply bindSucceeds named
  apply bindSucceeds replica
  apply bindSucceeds read
  apply bindSucceeds keys
  split
  · split <;> exact ⟨_,rfl⟩
  · exact ⟨_,rfl⟩

theorem foldSucceeds {ε α σ : Type} {step : σ → α → Except ε σ} {items : List α}
    (each : ∀ item ∈ items, ∀ state, ∃ next, step state item = .ok next) (state : σ) :
    ∃ result, items.foldlM step state = .ok result := by
  induction items generalizing state with
  | nil => exact ⟨state,rfl⟩
  | cons item items ih =>
    obtain ⟨next,first⟩ := each item List.mem_cons_self state
    exact bindSucceeds first (ih (fun item mem => each item (List.mem_cons_of_mem _ mem)) next)

theorem scannedRow (types : TypesFormed catalog) (formed : RelationFormed catalog relation)
    (named : catalog.nspname relation.relnamespace = some schema) (mem : attr ∈ relation.liveAttributes)
    (plain : inScope catalog options relation → relation.relkind ≠ "p") (tables : List TableSchema) :
    ∃ result, addRow (loadTypeDescriptors catalog) options tables (catalogRow catalog relation schema attr) = .ok result := by
  by_cases kept : eligibleSchema schema options && (!relation.relispartition || options.includePartitions)
  · have live : attr ∈ relation.attributes ∧ attr.live := by
      simpa [PgClass.liveAttributes,List.mem_insertionSort] using mem
    have present : relation.liveAttributes.isEmpty = false := by
      cases listed : relation.liveAttributes with
      | nil => simp [listed] at mem
      | cons _ _ => rfl
    have ordinary := plain (by simp [inScope,named,kept,present])
    obtain ⟨identity,replica⟩ := replicaIdentityRead formed.replicaIdentity
    have read : ∃ column, rowColumn (loadTypeDescriptors catalog) (catalogRow catalog relation schema attr) = .ok column :=
      columnRead types (formed.attributes attr live.1 live.2)
    obtain ⟨column,read⟩ := read
    have keys : parseAttnums (relation.partattrs.getD "{}") = .ok [] := by
      rw [formed.ordinary ordinary]
      rfl
    exact addRowSucceeds (qualifies (schemaNamed named) formed.named) replica read keys
  · exact ⟨tables,addRowSkipped kept⟩

theorem scanSucceeds (formed : WellFormed catalog)
    (plain : ∀ relation ∈ inScopeRelations catalog options, relation.relkind ≠ "p") :
    ∃ tables, loadTableCandidates catalog options = .ok tables := by
  apply foldSucceeds
  intro row mem tables
  obtain ⟨relation,scanned,rowMem⟩ := List.mem_flatMap.mp mem
  unfold relationRows at rowMem
  cases named : catalog.nspname relation.relnamespace with
  | none => simp [named] at rowMem
  | some schema =>
    simp only [named] at rowMem
    obtain ⟨attr,attrMem,rfl⟩ := List.mem_map.mp rowMem
    apply scannedRow formed.types (formed.relations relation (memScanned.mp scanned).1) named attrMem
    intro scope
    exact plain relation (List.mem_filter.mpr ⟨scanned,scope⟩)

end Rows

section Partitioned

theorem digitNotBlank {c : Char} (digit : c.isDigit) : isWhitespace c = false := by
  simp only [Char.isDigit,Bool.and_eq_true,decide_eq_true_eq,UInt32.le_iff_toNat_le] at digit
  have low : 48 ≤ c.toNat := digit.1
  have high : c.toNat ≤ 57 := digit.2
  simp only [isWhitespace,Bool.or_eq_false_iff,Bool.and_eq_false_iff,decide_eq_false_iff_not]
  omega

theorem trimDigit {c : Char} (digit : c.isDigit) (rest : List Char) : ∃ tail, trim (c :: rest) = c :: tail := by
  have visible := digitNotBlank digit
  have kept : trim (c :: rest) = (c :: rest).rdropWhile isWhitespace := by
    simp [trim,List.rdropWhile,visible]
  have filled : (c :: rest).rdropWhile isWhitespace ≠ [] := by
    intro empty
    have blank := List.rdropWhile_eq_nil_iff.mp empty c List.mem_cons_self
    simp [visible] at blank
  obtain ⟨suffix,whole⟩ := List.rdropWhile_prefix isWhitespace (l := c :: rest)
  rw [kept]
  cases shape : (c :: rest).rdropWhile isWhitespace with
  | nil => exact absurd shape filled
  | cons first tail =>
    rw [shape] at whole
    exact ⟨tail,by rw [(List.cons.inj whole).1]⟩

theorem vectorText (key : Nat) (keys : List Nat) :
    ∃ c rest, (int2vectorText (key :: keys)).toList = c :: rest ∧ c.isDigit := by
  have digits : (toString key).toList = Nat.toDigits 10 key := Nat.toList_repr
  have text : ∃ rest, (int2vectorText (key :: keys)).toList = Nat.toDigits 10 key ++ rest := by
    cases keys with
    | nil => exact ⟨[],by simp [int2vectorText]⟩
    | cons other keys =>
      exact ⟨_,by rw [int2vectorText,List.map_cons,List.map_cons,String.intercalate_cons_cons,String.toList_append,
        String.toList_append,digits,List.append_assoc]⟩
  obtain ⟨rest,text⟩ := text
  cases shape : Nat.toDigits 10 key with
  | nil => exact absurd shape Nat.toDigits_ne_nil
  | cons c tail =>
    have mem : c ∈ Nat.toDigits 10 key := shape ▸ List.mem_cons_self
    exact ⟨c,tail ++ rest,by rw [text,shape]; rfl,Nat.isDigit_of_mem_toDigits (by decide) (by decide) mem⟩

theorem vectorRefused {keys : List Nat} (filled : keys ≠ []) (result : List Int) :
    parseAttnums (int2vectorText keys) ≠ .ok result := by
  -- The parser wants braces, which the text of an array has and that of an int2vector has not.
  obtain ⟨key,keys,rfl⟩ := List.exists_cons_of_ne_nil filled
  obtain ⟨c,rest,text,digit⟩ := vectorText key keys
  obtain ⟨tail,trimmed⟩ := trimDigit digit rest
  have notBrace : c ≠ '{' := by
    rintro rfl
    contradiction
  intro ok
  simp [parseAttnums,text,trimmed,stripBraces,notBrace] at ok

end Partitioned

section Entries
variable {catalog : PgCatalog} {options : CatalogOptions} {relation : PgClass}

theorem columnsSource {types : List TypeDescriptor} {schema : String} {attrs : List PgAttribute} {columns : List ColumnSchema}
    (reads : List.Forall₂ (fun attr column => rowColumn types (catalogRow catalog relation schema attr) = .ok column)
      attrs columns) :
    columns.map (fun column => (column.attnum,column.name)) = attrs.map (fun attr => (attr.attnum,attr.attname)) := by
  induction reads with
  | nil => rfl
  | cons read _ ih =>
    obtain ⟨attnum,name,_⟩ := rowColumnSource read
    simp only [List.map_cons,attnum,name,ih]
    rfl

theorem liveAscending (relation : PgClass) : (relation.liveAttributes.map PgAttribute.attnum).Pairwise (· < ·) := by
  have sorted : relation.liveAttributes.Pairwise (fun a b => a.attnum ≤ b.attnum) := by
    have total : Std.Total (fun a b : PgAttribute => a.attnum ≤ b.attnum) := ⟨fun a b => le_total a.attnum b.attnum⟩
    have transitive : IsTrans PgAttribute (fun a b => a.attnum ≤ b.attnum) := ⟨fun _ _ _ => le_trans⟩
    exact List.pairwise_insertionSort _ _
  have distinct : (relation.liveAttributes.map PgAttribute.attnum).Nodup := by
    have filtered := relation.attnums.sublist ((List.filter_sublist (p := PgAttribute.live)).map PgAttribute.attnum)
    exact ((List.perm_insertionSort _ _).map PgAttribute.attnum).nodup_iff.mpr filtered
  have ascending := (List.pairwise_map.mpr sorted).and distinct
  exact ascending.imp (fun both => lt_of_le_of_ne both.1 both.2)

theorem wholeRead {table : TableSchema} (reads : Reads catalog relation table) : readWhole catalog relation table := by
  obtain ⟨schema,named,name,columns⟩ := reads.named
  have source := columnsSource columns
  simp only [qualified,mapErrorOk] at name
  obtain ⟨sameSchema,sameName⟩ := QualifiedName.newSource name
  have attnums : table.columns.map ColumnSchema.attnum = relation.liveAttributes.map PgAttribute.attnum := by
    simpa only [List.map_map,Function.comp_def] using congrArg (List.map Prod.fst) source
  exact ⟨reads.relationId,by rw [named,sameSchema],sameName,source,attnums ▸ liveAscending relation⟩

theorem readsUnique {one other : TableSchema} (first : Reads catalog relation one) (second : Reads catalog relation other) :
    one = other := by
  obtain ⟨schema,named,name,columns⟩ := first.named
  obtain ⟨schema',named',name',columns'⟩ := second.named
  cases Option.some.inj (named.symm.trans named')
  have names : one.name = other.name := Except.ok.inj (name.symm.trans name')
  have oneColumn : Relator.RightUnique (fun attr column => rowColumn (loadTypeDescriptors catalog)
      (catalogRow catalog relation schema attr) = .ok column) := by
    intro attr left right here there
    exact Except.ok.inj (here.symm.trans there)
  have columns : one.columns = other.columns := List.right_unique_forall₂' oneColumn columns columns'
  have oids := first.relationId.trans second.relationId.symm
  have generations := first.generation.trans second.generation.symm
  have kinds := first.kind.trans second.kind.symm
  have identities := Except.ok.inj (first.replicaIdentity.symm.trans second.replicaIdentity)
  have distributions := first.distribution.trans second.distribution.symm
  have keys := Except.ok.inj (first.partition.symm.trans second.partition)
  cases one
  cases other
  rw [TableSchema.mk.injEq]
  exact ⟨oids,generations,names,kinds,identities,columns,distributions,keys⟩

theorem relatedWithin {α β : Type} {R S : α → β → Prop} {xs : List α} {ys : List β} (related : List.Forall₂ R xs ys)
    (each : ∀ x ∈ xs, ∀ y, R x y → S x y) : List.Forall₂ S xs ys := by
  induction related with
  | nil => exact .nil
  | cons head _ ih =>
    exact .cons (each _ List.mem_cons_self _ head) (ih (fun x mem => each x (List.mem_cons_of_mem _ mem)))

theorem inspectedTables (tables : List TableSchema) :
    (classifyTables tables).supported = tables.flatMap (fun table => (entryOf table).supported) ∧
    (classifyTables tables).rejected = tables.flatMap (fun table => (entryOf table).rejected) := by
  suffices general : ∀ (tables : List TableSchema) (inventory : TableInventory),
      (tables.foldl classifyTable inventory).supported =
        inventory.supported ++ tables.flatMap (fun table => (entryOf table).supported) ∧
      (tables.foldl classifyTable inventory).rejected =
        inventory.rejected ++ tables.flatMap (fun table => (entryOf table).rejected) by
    simpa [classifyTables] using general tables ⟨[],[]⟩
  intro tables
  induction tables with
  | nil => intro inventory; simp
  | cons table tables ih =>
    intro inventory
    rw [List.foldl_cons,(ih _).1,(ih _).2]
    cases valid : table.validateSupported <;> simp [classifyTable,entryOf,valid]

theorem aloneScope (scope : relation ∈ inScopeRelations catalog options) :
    inScopeRelations (alone catalog relation) options = [relation] := by
  obtain ⟨scanned,inside⟩ := List.mem_filter.mp scope
  have kept := (memScanned.mp scanned).2
  have here : inScope (alone catalog relation) options relation := inside
  simp [inScopeRelations,PgCatalog.scanned,alone,kept]
  exact here

theorem aloneFormed (formed : WellFormed catalog) (scope : relation ∈ inScopeRelations catalog options) :
    WellFormed (alone catalog relation) := by
  have member := (memScanned.mp (List.mem_filter.mp scope).1).1
  have here := formed.relations relation member
  refine ⟨⟨formed.types.named,formed.types.oids,formed.types.kinds,formed.types.elements,formed.types.ranked⟩,?_⟩
  intro other mem
  cases List.mem_singleton.mp mem
  refine ⟨here.named,here.replicaIdentity,here.ordinary,here.partitioned,?_⟩
  intro attr mem live
  have typed := here.attributes attr mem live
  exact ⟨typed.typed,typed.generated,typed.identity,typed.collation⟩

theorem inspectedAlone (formed : WellFormed catalog) (scope : relation ∈ inScopeRelations catalog options)
    (plain : relation.relkind ≠ "p") {table : TableSchema} (reads : Reads catalog relation table) :
    inspectTables (alone catalog relation) options = .ok (entryOf table) := by
  have scopes := aloneScope scope
  have others : ∀ other ∈ inScopeRelations (alone catalog relation) options, other.relkind ≠ "p" := by
    intro other mem
    rw [scopes] at mem
    cases List.mem_singleton.mp mem
    exact plain
  obtain ⟨tables,loaded⟩ := scanSucceeds (aloneFormed formed scope) others
  have source := loadTableCandidatesSource loaded
  rw [scopes] at source
  obtain ⟨table',rfl,reads'⟩ : ∃ table', tables = [table'] ∧ Reads (alone catalog relation) relation table' := by
    cases source with
    | cons head tail =>
      cases tail
      exact ⟨_,rfl,head⟩
  have again : Reads catalog relation table' :=
    ⟨reads'.relationId,reads'.generation,reads'.named,reads'.kind,reads'.replicaIdentity,reads'.distribution,reads'.partition⟩
  cases readsUnique reads again
  simp only [inspectTables,loaded,Except.map]
  rfl

/-- The inspection of a well-formed source answers with one entry for each table in scope, the one it gets alone and with
all its live columns, exactly when no table in scope is partitioned: the key of a partitioned table is printed without the
braces that the parser asks for, and its error ends the scan of all tables. -/
theorem inspectionIsolated (catalog : PgCatalog) (formed : WellFormed catalog) (options : CatalogOptions) :
    inspectsEachTable catalog options ↔ ∀ relation ∈ inScopeRelations catalog options, relation.relkind ≠ "p" := by
  constructor
  · intro inspected relation scope kind
    obtain ⟨inventory,_,ok,_⟩ := inspected
    unfold inspectTables at ok
    cases loaded : loadTableCandidates catalog options with
    | error _ => simp [loaded,Except.map] at ok
    | ok tables =>
      obtain ⟨table,_,reads⟩ := relatedFrom (loadTableCandidatesSource loaded) scope
      have member := (memScanned.mp (List.mem_filter.mp scope).1).1
      obtain ⟨keys,filled,text⟩ := (formed.relations relation member).partitioned kind
      have parsed := reads.partition
      rw [text] at parsed
      exact vectorRefused filled _ parsed
  · intro plain
    obtain ⟨tables,loaded⟩ := scanSucceeds formed plain
    obtain ⟨supported,rejected⟩ := inspectedTables tables
    refine ⟨classifyTables tables,tables,by simp [inspectTables,loaded,Except.map],?_,supported,rejected⟩
    apply relatedWithin (loadTableCandidatesSource loaded)
    intro relation scope table reads
    exact ⟨wholeRead reads,inspectedAlone formed scope (plain relation scope) reads⟩

end Entries

section Sample

def idAttribute : PgAttribute := ⟨1,"id",23,-1,true,false,[],[],0⟩

def idIndex : PgIndex := ⟨true,true,true,true,[1],1,oneKeyBounded,oneKeyDistinct⟩

theorem ordersOid : 16400 < 2 ^ 32 := by omega

theorem idDistinct : ([idAttribute].map PgAttribute.attnum).Nodup := List.nodup_singleton _

theorem idIndexed : ∀ index ∈ [idIndex], index.indisprimary → ∀ attnum ∈ index.indkey,
    ∃ attr ∈ [idAttribute], attr.attnum = attnum ∧ attr.live := by
  intro index mem _ attnum key
  cases List.mem_singleton.mp mem
  cases List.mem_singleton.mp key
  exact ⟨idAttribute,List.mem_singleton_self _,rfl,rfl⟩

def ordersClass (relkind : String) (partattrs : Option String) : PgClass :=
  ⟨16400,"orders",2200,relkind,"p",false,"d",partattrs,[idAttribute],[idIndex],ordersOid,idDistinct,idIndexed⟩

def ordersCatalog (relkind : String) (partattrs : Option String) : PgCatalog :=
  ⟨[⟨11,"pg_catalog",pgCatalogValid⟩,⟨2200,"public",publicValid⟩],[⟨23,"int4",11,"b",0,0,[],[]⟩],[],
    [ordersClass relkind partattrs],oneOid _⟩

def ordersOptions : CatalogOptions := ⟨"pg2cb",none,[],false⟩

theorem int4NameValid : IdentifierValid "int4" := by decide

theorem ordersTypes (relkind : String) (partattrs : Option String) : TypesFormed (ordersCatalog relkind partattrs) where
  named row mem := by
    cases List.mem_singleton.mp mem
    exact ⟨int4NameValid,"pg_catalog",rfl⟩
  oids row mem := by
    cases List.mem_singleton.mp mem
    decide
  kinds row mem kind := by
    cases List.mem_singleton.mp mem
    contradiction
  elements row mem element := by
    cases List.mem_singleton.mp mem
    contradiction
  ranked := by
    refine ⟨id,?_⟩
    intro row mem
    cases List.mem_singleton.mp mem
    simp

theorem ordersFormed (relkind : String) (partattrs : Option String) (ordinary : relkind ≠ "p" → partattrs = none)
    (partitioned : relkind = "p" → ∃ keys ≠ [], partattrs = some (int2vectorText keys)) :
    WellFormed (ordersCatalog relkind partattrs) := by
  refine ⟨ordersTypes relkind partattrs,?_⟩
  intro relation mem
  cases List.mem_singleton.mp mem
  refine ⟨ordersValid,by simp [ordersClass],ordinary,partitioned,?_⟩
  intro attr mem _
  cases List.mem_singleton.mp mem
  exact ⟨⟨_,List.mem_singleton_self _,rfl⟩,by simp [idAttribute],by simp [idAttribute],by simp [ordersCatalog]⟩

theorem notesOid : 16401 < 2 ^ 32 := by omega

theorem notesIndexed : ∀ index ∈ ([] : List PgIndex), index.indisprimary → ∀ attnum ∈ index.indkey,
    ∃ attr ∈ [idAttribute], attr.attnum = attnum ∧ attr.live := by
  intro index mem
  cases mem

def notesClass : PgClass :=
  ⟨16401,"notes",2200,"r","p",false,"d",none,[idAttribute],[],notesOid,idDistinct,notesIndexed⟩

def notesCatalog : PgCatalog :=
  {ordersCatalog "r" none with classes := [notesClass,ordersClass "r" none], oids := by decide}

theorem notesValid : IdentifierValid "notes" := by decide

theorem notesFormed : WellFormed notesCatalog := by
  have orders := ordersFormed "r" none (fun _ => rfl) (fun same => absurd same (by decide))
  obtain ⟨named,oids,kinds,elements,ranked⟩ := orders.types
  refine ⟨⟨named,oids,kinds,elements,ranked⟩,?_⟩
  intro relation mem
  have attributes : ∀ attr ∈ [idAttribute], attr.live → AttributeFormed notesCatalog attr := by
    intro attr mem live
    obtain ⟨typed,generated,identity,collation⟩ := (orders.relations _ (List.mem_singleton_self _)).attributes attr mem live
    exact ⟨typed,generated,identity,collation⟩
  rcases List.mem_cons.mp mem with rfl | mem
  · exact ⟨notesValid,by decide,fun _ => rfl,fun same => absurd same (by decide),attributes⟩
  · cases List.mem_singleton.mp mem
    exact ⟨ordersValid,by decide,fun _ => rfl,fun same => absurd same (by decide),attributes⟩

theorem everyTableInspected : inspectsEachTable notesCatalog ordersOptions ∧
    (inspectTables notesCatalog ordersOptions).map (fun inventory => (inventory.supported.map (fun table => table.name.name),
      inventory.rejected.map (fun entry => entry.name.name))) = .ok (["orders"],["notes"]) :=
  ⟨(inspectionIsolated notesCatalog notesFormed ordersOptions).mpr (by decide),by decide +kernel⟩

theorem partitionedOrdersRefused : WellFormed (ordersCatalog "p" (some (int2vectorText [1]))) ∧
    inspectTables (ordersCatalog "p" (some (int2vectorText [1]))) ordersOptions =
      .error (.contract "invalid int2vector `1`") :=
  ⟨ordersFormed "p" (some (int2vectorText [1])) (by decide) (fun _ => ⟨[1],by decide,rfl⟩),by decide⟩

end Sample

end CloudberryEtl.Isolation
