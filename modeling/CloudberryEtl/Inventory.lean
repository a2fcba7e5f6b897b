import CloudberryEtl.Catalog

/-! What a successful catalog scan has read: one table for each relation in scope, in OID order, with one column for each
of its live attributes. -/
namespace CloudberryEtl.Inventory
open Schema Change Result Settings Catalog
open Planning (TableInventory)

def inScope (catalog : PgCatalog) (options : CatalogOptions) (relation : PgClass) : Bool :=
  match catalog.nspname relation.relnamespace with
  | none => false
  | some schema => eligibleSchema schema options && (!relation.relispartition || options.includePartitions) &&
      !relation.liveAttributes.isEmpty

def inScopeRelations (catalog : PgCatalog) (options : CatalogOptions) : List PgClass :=
  catalog.scanned.filter (inScope catalog options)

structure Reads (catalog : PgCatalog) (relation : PgClass) (table : TableSchema) : Prop where
  relationId : table.relationId = relation.oid
  generation : table.generation = 1
  named : ∃ schema, catalog.nspname relation.relnamespace = some schema ∧
    qualified schema relation.relname = .ok table.name ∧
    List.Forall₂ (fun attr column => rowColumn (loadTypeDescriptors catalog) (catalogRow catalog relation schema attr) =
      .ok column) relation.liveAttributes table.columns
  kind : table.kind = if relation.relkind = "p" then .partitioned else .ordinary
  replicaIdentity : parseReplicaIdentity (relation.relreplident.toList.headD 'd') = .ok table.replicaIdentity
  distribution : table.distributionKey = []
  partition : parseAttnums (relation.partattrs.getD "\x7b\x7d") = .ok table.partitionKey

theorem rowColumnSource {types row column} (ok : rowColumn types row = .ok column) :
    column.attnum = row.attnum ∧ column.name = row.attname ∧ column.primaryKeyOrdinal = pkOrdinalU16 row := by
  obtain ⟨_,_,ok⟩ := bindOk.mp ok
  split at ok <;> try contradiction
  obtain ⟨_,_,ok⟩ := bindOk.mp ok
  obtain ⟨_,_,ok⟩ := bindOk.mp ok
  obtain ⟨_,_,ok⟩ := bindOk.mp ok
  obtain ⟨_,_,ok⟩ := bindOk.mp ok
  cases Except.ok.inj ok
  exact ⟨rfl,rfl,rfl⟩

section Rows
variable {catalog : PgCatalog} {options : CatalogOptions} {relation : PgClass} {schema : String}

theorem relationIdRead (relation : PgClass) : parseU32Value relation.oid "relation_id" = .ok relation.oid := by
  have fits : (relation.oid : Int) < 2 ^ 32 := by exact_mod_cast relation.oidRange
  unfold parseU32Value
  rw [if_pos ⟨Int.natCast_nonneg _,fits⟩,Int.toNat_natCast]

theorem partitionSkipped (partition included : Bool) : (partition && !included) = !(!partition || included) := by
  cases partition <;> rfl

theorem addRowSkipped {types tables attr} (out : ¬ (eligibleSchema schema options &&
      (!relation.relispartition || options.includePartitions))) :
    addRow types options tables (catalogRow catalog relation schema attr) = .ok tables := by
  unfold addRow
  by_cases eligible : eligibleSchema schema options
  · have partition : ((catalogRow catalog relation schema attr).relispartition && !options.includePartitions) = true := by
      rw [eligible,Bool.true_and] at out
      rw [partitionSkipped,Bool.not_eq_true']
      exact Bool.eq_false_iff.mpr out
    rw [if_neg (by simpa [catalogRow] using eligible)]
    refine bindOk.mpr ⟨relation.oid,relationIdRead relation,?_⟩
    rw [if_pos partition]
  · rw [if_pos (by simpa [catalogRow] using eligible)]

theorem rowsSkipped {types tables} {attrs : List PgAttribute} (out : ¬ (eligibleSchema schema options &&
      (!relation.relispartition || options.includePartitions))) :
    (attrs.map (catalogRow catalog relation schema)).foldlM (addRow types options) tables = .ok tables := by
  induction attrs with
  | nil => rfl
  | cons attr attrs ih =>
    rw [List.map_cons,List.foldlM_cons]
    exact bindOk.mpr ⟨tables,addRowSkipped out,ih⟩

theorem addRowSource {types tables attr result} (eligible : eligibleSchema schema options)
    (partition : !relation.relispartition || options.includePartitions)
    (ok : addRow types options tables (catalogRow catalog relation schema attr) = .ok result) :
    ∃ name replicaIdentity column partitionKey, qualified schema relation.relname = .ok name ∧
      parseReplicaIdentity (relation.relreplident.toList.headD 'd') = .ok replicaIdentity ∧
      rowColumn types (catalogRow catalog relation schema attr) = .ok column ∧
      parseAttnums (relation.partattrs.getD "\x7b\x7d") = .ok partitionKey ∧
      ((∃ table, tables.getLast? = some table ∧ table.relationId = relation.oid ∧
        result = tables.dropLast ++ [{table with columns := table.columns ++ [column]}]) ∨
      ((∀ table, tables.getLast? = some table → table.relationId ≠ relation.oid) ∧ result = tables ++
        [newTable relation.oid name (catalogRow catalog relation schema attr) replicaIdentity column partitionKey])) := by
  unfold addRow at ok
  rw [if_neg (by simpa [catalogRow] using eligible)] at ok
  obtain ⟨relationId,read,ok⟩ := bindOk.mp ok
  cases Except.ok.inj ((relationIdRead relation).symm.trans read)
  have kept : ¬ ((catalogRow catalog relation schema attr).relispartition && !options.includePartitions) = true := by
    rw [partitionSkipped,Bool.not_eq_true',Bool.not_eq_false]
    exact partition
  rw [if_neg kept] at ok
  obtain ⟨name,named,ok⟩ := bindOk.mp ok
  obtain ⟨replicaIdentity,identity,ok⟩ := bindOk.mp ok
  obtain ⟨column,columnRead,ok⟩ := bindOk.mp ok
  obtain ⟨partitionKey,partitioned,ok⟩ := bindOk.mp ok
  refine ⟨name,replicaIdentity,column,partitionKey,named,identity,columnRead,partitioned,?_⟩
  cases last : tables.getLast? with
  | none =>
    simp only [last] at ok
    have empty := List.getLast?_eq_none_iff.mp last
    exact .inr ⟨by simp,by simpa [empty] using (Except.ok.inj ok).symm⟩
  | some table =>
    simp only [last] at ok
    split at ok
    · rename_i same
      exact .inl ⟨table,rfl,same,(Except.ok.inj ok).symm⟩
    · rename_i other
      exact .inr ⟨fun found eq => by cases eq; exact other,(Except.ok.inj ok).symm⟩

theorem laterRows {types attrs tables table result} (eligible : eligibleSchema schema options)
    (partition : !relation.relispartition || options.includePartitions) (same : table.relationId = relation.oid)
    (ok : (attrs.map (catalogRow catalog relation schema)).foldlM (addRow types options) (tables ++ [table]) =
      .ok result) :
    ∃ columns, List.Forall₂ (fun attr column => rowColumn types (catalogRow catalog relation schema attr) = .ok column)
      attrs columns ∧ result = tables ++ [{table with columns := table.columns ++ columns}] := by
  -- Induction on the attributes that are still to come, with the table of the relation at the end of the list.
  induction attrs generalizing table with
  | nil =>
    cases Except.ok.inj ok
    exact ⟨[],.nil,by simp⟩
  | cons attr attrs ih =>
    rw [List.map_cons,List.foldlM_cons] at ok
    obtain ⟨middle,first,ok⟩ := bindOk.mp ok
    obtain ⟨_,_,column,_,_,_,read,_,⟨found,last,_,rfl⟩ | ⟨other,_⟩⟩ := addRowSource eligible partition first
    · rw [List.getLast?_concat,Option.some.injEq] at last
      subst last
      rw [List.dropLast_concat] at ok
      obtain ⟨columns,reads,rfl⟩ := ih (by exact same) ok
      exact ⟨column :: columns,.cons read reads,by simp⟩
    · exact absurd same (other table List.getLast?_concat)

theorem relationFold {tables result} (fresh : ∀ table ∈ tables, table.relationId ≠ relation.oid)
    (ok : (relationRows catalog relation).foldlM (addRow (loadTypeDescriptors catalog) options) tables = .ok result) :
    (inScope catalog options relation = false ∧ result = tables) ∨
      (inScope catalog options relation = true ∧ ∃ table, Reads catalog relation table ∧ result = tables ++ [table]) := by
  unfold relationRows at ok
  unfold inScope
  cases named : catalog.nspname relation.relnamespace with
  | none =>
    rw [named] at ok
    exact .inl ⟨rfl,(Except.ok.inj ok).symm⟩
  | some schema =>
    simp only [named] at ok ⊢
    by_cases kept : eligibleSchema schema options && (!relation.relispartition || options.includePartitions)
    · obtain ⟨eligible,partition⟩ := Bool.and_eq_true_iff.mp kept
      cases attrs : relation.liveAttributes with
      | nil =>
        rw [attrs] at ok
        exact .inl ⟨by simp,(Except.ok.inj ok).symm⟩
      | cons attr rest =>
        rw [attrs,List.map_cons,List.foldlM_cons] at ok
        obtain ⟨middle,first,ok⟩ := bindOk.mp ok
        obtain ⟨name,identity,column,key,here,replica,read,partitioned,⟨found,last,same,_⟩ | ⟨_,rfl⟩⟩ :=
          addRowSource eligible partition first
        · exact absurd same (fresh found (List.mem_of_getLast? last))
        · obtain ⟨columns,reads,rfl⟩ := laterRows eligible partition (by rfl) ok
          refine .inr ⟨by simp [kept],_,⟨rfl,rfl,⟨schema,named,here,?_⟩,rfl,replica,rfl,partitioned⟩,rfl⟩
          rw [attrs]
          exact .cons read reads
    · rw [rowsSkipped kept] at ok
      exact .inl ⟨by simp [kept],(Except.ok.inj ok).symm⟩

end Rows

theorem relationsFold {catalog : PgCatalog} {options : CatalogOptions} (relations : List PgClass) :
    ∀ tables result, (relations.map PgClass.oid).Nodup →
      (∀ relation ∈ relations, ∀ table ∈ tables, table.relationId ≠ relation.oid) →
      (relations.flatMap (relationRows catalog)).foldlM (addRow (loadTypeDescriptors catalog) options) tables = .ok result →
      ∃ added, result = tables ++ added ∧
        List.Forall₂ (Reads catalog) (relations.filter (inScope catalog options)) added := by
  induction relations with
  | nil =>
    intro tables result _ _ ok
    exact ⟨[],by simpa [pure,Except.pure] using ok.symm,.nil⟩
  | cons relation relations ih =>
    intro tables result distinct fresh ok
    obtain ⟨apart,distinct⟩ := List.nodup_cons.mp distinct
    rw [List.flatMap_cons,List.foldlM_append] at ok
    obtain ⟨middle,first,later⟩ := bindOk.mp ok
    rcases relationFold (fresh relation (by simp)) first with ⟨out,rfl⟩ | ⟨here,table,reads,rfl⟩
    · obtain ⟨added,rfl,read⟩ := ih _ _ distinct (fun relation mem => fresh relation (by simp [mem])) later
      exact ⟨added,rfl,by simpa [out] using read⟩
    · have fresh' : ∀ other ∈ relations, ∀ found ∈ tables ++ [table], found.relationId ≠ other.oid := by
        intro other mem found member same
        rcases List.mem_append.mp member with old | new
        · exact fresh other (by simp [mem]) found old same
        · cases List.mem_singleton.mp new
          exact apart (List.mem_map.mpr ⟨other,mem,same.symm.trans reads.relationId⟩)
      obtain ⟨added,rfl,read⟩ := ih _ _ distinct fresh' later
      refine ⟨table :: added,by simp,?_⟩
      rw [List.filter_cons_of_pos here]
      exact .cons reads read

/-- A successful scan has read exactly the relations in scope, in the order of their OIDs. -/
theorem loadTableCandidatesSource {catalog options tables} (ok : loadTableCandidates catalog options = .ok tables) :
    List.Forall₂ (Reads catalog) (inScopeRelations catalog options) tables := by
  have distinct : (catalog.scanned.map PgClass.oid).Nodup := by
    have filtered : ((catalog.classes.filter PgClass.scanned).map PgClass.oid).Nodup :=
      catalog.oids.sublist (List.filter_sublist.map _)
    exact ((List.perm_insertionSort oidLe _).map _).nodup_iff.mpr filtered
  obtain ⟨added,rfl,read⟩ := relationsFold catalog.scanned [] tables distinct (by simp) ok
  exact read

theorem memScanned {catalog : PgCatalog} {relation} :
    relation ∈ catalog.scanned ↔ relation ∈ catalog.classes ∧ relation.scanned := by
  simp [PgCatalog.scanned,List.mem_insertionSort]

theorem classifyTablesSource (tables : List TableSchema) :
    (classifyTables tables).supported = tables.filter (fun table => table.validateSupported.toOption.isSome) := by
  suffices general : ∀ (tables : List TableSchema) (inventory : TableInventory), (tables.foldl classifyTable inventory).supported =
      inventory.supported ++ tables.filter (fun table => table.validateSupported.toOption.isSome) by
    simpa [classifyTables] using general tables ⟨[],[]⟩
  intro tables
  induction tables with
  | nil => intro inventory; simp
  | cons table tables ih =>
    intro inventory
    rw [List.foldl_cons,ih]
    cases valid : table.validateSupported with
    | ok value => simp [classifyTable,valid,Except.toOption]
    | error error => simp [classifyTable,valid,Except.toOption]

theorem supportedSource {catalog options inventory table} (ok : inspectTables catalog options = .ok inventory)
    (mem : table ∈ inventory.supported) :
    table.validateSupported = .ok () ∧
      ∃ relation ∈ inScopeRelations catalog options, Reads catalog relation table := by
  unfold inspectTables at ok
  cases loaded : loadTableCandidates catalog options with
  | error error => simp [loaded,Except.map] at ok
  | ok tables =>
    rw [loaded] at ok
    cases Except.ok.inj ok
    rw [classifyTablesSource] at mem
    obtain ⟨mem,valid⟩ := List.mem_filter.mp mem
    obtain ⟨_,valid⟩ := okOfToOption valid
    exact ⟨valid,relatedMem (loadTableCandidatesSource loaded) mem⟩

end CloudberryEtl.Inventory
