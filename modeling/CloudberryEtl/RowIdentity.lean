import CloudberryEtl.Inventory
import CloudberryEtl.SpelledSteps

/-! The key of a supported table and the key of its primary index. The ordinals come from the position of an attribute in
the whole of `indkey`, while the server takes the key of a row from the first `indnkeyatts` entries only. -/
namespace CloudberryEtl.RowIdentity
open Schema Change TablePlan StagedApply KeyedTable Result Normalize KeyLayout Replay FoldInvariant FoldStep FoldRefines
open FoldedBatch StagedSteps Settings Catalog Inventory KeyEquality Respelling SpelledSteps
open Planning (TableInventory)

def position (table : TableSchema) (attnum : Int) : Nat := table.columns.findIdx (fun column => column.attnum = attnum)

def sourceKey (table : TableSchema) (index : PgIndex) (row : Row) : List (Option Bytes) :=
  index.keyColumns.map (fun attnum => column row (position table attnum))

/- An update that pgoutput sends without an old tuple, which it does when no key column of the replica identity changed or
is stored out of line. A cell that is not sent again keeps the value of the old row. -/
structure PlainUpdate (table : TableSchema) (index : PgIndex) (old new : Row) (tuple : Tuple) : Prop where
  oldWidth : old.length = table.columns.length
  arity : tuple.cells.length = table.columns.length
  patched : patchRow tuple.cells old = new
  text : ∀ value, Cell.binary value ∉ tuple.cells
  admitted : rowAdmitted table new
  key : ∀ attnum ∈ index.keyColumns, ∃ value, cellAt tuple.cells (position table attnum) = .text value ∧
    column old (position table attnum) = some value

def updateChange (table : TableSchema) (tuple : Tuple) : TableChange := ⟨table.relationId,table.generation,.update none tuple⟩

structure Identified (table : TableSchema) (index : PgIndex) : Prop where
  ordered : table.primaryKey.map ColumnSchema.attnum = index.keyColumns
  readsKey : ∀ old new tuple, PlainUpdate table index old new tuple →
    ∃ key, keyFromUpdateTuple table (.new table) tuple none = .ok key ∧ key.map some = sourceKey table index old
  oneRow : ∀ target staging plan, planApply table target staging = .ok plan → ∀ equal, SqlEquality equal →
    ∀ rows, IsTable table rows → SqlDistinct equal table rows → ∀ old ∈ rows, ∀ new tuple,
    PlainUpdate table index old new tuple → ∃ staged out, normalizeTableChanges table [updateChange table tuple] = .ok staged ∧
      executeTable equal plan staged rows = .ok out ∧ out.length = rows.length ∧ new ∈ out

section Columns
variable {catalog : PgCatalog} {relation : PgClass} {table : TableSchema}

def ordinalOf (relation : PgClass) (attnum : Int) : Option Nat :=
  relation.primaryIndex.bind (fun index => (arrayPosition index.indkey attnum).map (· + 1))

theorem u16Fits {place : Nat} (bound : place < indexMaxKeys) : u16 ((place : Int) + 1) = some (place + 1) := by
  unfold indexMaxKeys at bound
  have fits : (0 : Int) ≤ (place : Int) + 1 ∧ (place : Int) + 1 < 2 ^ 16 := by omega
  rw [u16,if_pos fits,Option.some.injEq]
  omega

theorem indexOrdinal (index : PgIndex) (attnum : Int) :
    (index.pkOrdinal attnum).bind u16 = (arrayPosition index.indkey attnum).map (· + 1) := by
  unfold PgIndex.pkOrdinal
  rcases Option.eq_none_or_eq_some (arrayPosition index.indkey attnum) with found | ⟨place,found⟩
  · rw [found]
    rfl
  · -- no step may compute the test of `u16` on a variable
    have bound := (List.findIdx?_eq_some_iff_getElem.mp found).1
    have fits := u16Fits (lt_of_lt_of_le bound index.bounded)
    have read : (arrayPosition index.indkey attnum).map (fun (position : Nat) => (position : Int) + 1) =
        some ((place : Int) + 1) := by rw [found]; rfl
    have ordinal : (arrayPosition index.indkey attnum).map (· + 1) = some (place + 1) := by rw [found]; rfl
    exact (Option.bind_eq_some_iff.mpr ⟨_,read,fits⟩).trans ordinal.symm

theorem ordinalRead (schema : String) (attr : PgAttribute) :
    pkOrdinalU16 (catalogRow catalog relation schema attr) = ordinalOf relation attr.attnum := by
  unfold pkOrdinalU16 catalogRow ordinalOf
  cases relation.primaryIndex with
  | none => rfl
  | some index => exact indexOrdinal index attr.attnum

variable (reads : Reads catalog relation table)
include reads

theorem readColumns : List.Forall₂ (fun attr column => column.attnum = attr.attnum ∧
    column.primaryKeyOrdinal = ordinalOf relation attr.attnum) relation.liveAttributes table.columns := by
  obtain ⟨schema,_,_,columns⟩ := reads.named
  refine columns.imp fun attr column read => ?_
  obtain ⟨attnum,_,ordinal⟩ := rowColumnSource read
  exact ⟨attnum,ordinal.trans (ordinalRead schema attr)⟩

theorem readAttnums : table.columns.map ColumnSchema.attnum = relation.liveAttributes.map PgAttribute.attnum := by
  have columns := readColumns reads
  generalize relation.liveAttributes = attrs at columns ⊢
  generalize table.columns = read at columns ⊢
  induction columns with
  | nil => rfl
  | cons head tail ih => simp [head.1,ih]

theorem readDistinct : AttnumsDistinct table := by
  have filtered : ((relation.attributes.filter PgAttribute.live).map PgAttribute.attnum).Nodup :=
    relation.attnums.sublist (List.filter_sublist.map _)
  rw [AttnumsDistinct,UniqueKeys,readAttnums reads]
  exact ((List.perm_insertionSort _ _).map _).nodup_iff.mpr filtered

theorem columnOrdinal {column} (mem : column ∈ table.columns) :
    column.primaryKeyOrdinal = ordinalOf relation column.attnum := by
  obtain ⟨attr,_,attnum,ordinal⟩ := relatedMem (readColumns reads) mem
  rw [ordinal,attnum]

theorem supportedIndex (supported : table.validateSupported = .ok ()) :
    ∃ index, relation.primaryIndex = some index := by
  cases found : relation.primaryIndex with
  | some index => exact ⟨index,rfl⟩
  | none =>
    obtain ⟨column,mem⟩ := List.exists_mem_of_ne_nil _ (primaryKeyNeNil supported)
    obtain ⟨mem,isKey⟩ := memPrimaryKey.mp mem
    simp [ColumnSchema.isKey,columnOrdinal reads mem,ordinalOf,found] at isKey

end Columns

section Keys
variable {catalog : PgCatalog} {relation : PgClass} {table : TableSchema} {index : PgIndex}
  (reads : Reads catalog relation table) (found : relation.primaryIndex = some index)
include reads found

theorem memKeyAttnums {attnum : Int} : attnum ∈ table.primaryKey.map ColumnSchema.attnum ↔ attnum ∈ index.indkey := by
  constructor
  · intro mem
    obtain ⟨column,member,rfl⟩ := List.mem_map.mp mem
    obtain ⟨mem,isKey⟩ := memPrimaryKey.mp member
    simp only [ColumnSchema.isKey,columnOrdinal reads mem,ordinalOf,found,Option.bind_some,arrayPosition,
      Option.isSome_map,List.findIdx?_isSome,List.any_eq_true,decide_eq_true_eq] at isKey
    obtain ⟨value,mem,same⟩ := isKey
    exact same ▸ mem
  · intro mem
    have joined : index.joined := List.find?_some found
    have primary : index.indisprimary := by
      simp only [PgIndex.joined,Bool.and_eq_true] at joined
      exact joined.1.1.1
    obtain ⟨attr,member,same,live⟩ := relation.indexed index (List.mem_of_find?_eq_some found) primary attnum mem
    have member : attr ∈ relation.liveAttributes := by
      simp [PgClass.liveAttributes,List.mem_insertionSort,member,live]
    obtain ⟨column,here,attnums,ordinal⟩ := relatedFrom (readColumns reads) member
    refine List.mem_map.mpr ⟨column,memPrimaryKey.mpr ⟨here,?_⟩,attnums.trans same⟩
    simp only [ColumnSchema.isKey,ordinal,same,ordinalOf,found,Option.bind_some,arrayPosition,Option.isSome_map,
      List.findIdx?_isSome,List.any_eq_true,decide_eq_true_eq]
    exact ⟨attnum,mem,rfl⟩

theorem keyOrdinals : (table.primaryKey.map ColumnSchema.attnum).Pairwise
    (fun a b => index.indkey.findIdx (· = a) ≤ index.indkey.findIdx (· = b)) := by
  have sorted : table.primaryKey.Pairwise ordinalLe := by
    have total : Std.Total ordinalLe := ⟨fun a b => Nat.le_total _ _⟩
    have trans : IsTrans ColumnSchema ordinalLe := ⟨fun a b c => Nat.le_trans⟩
    exact List.pairwise_insertionSort ordinalLe _
  refine List.pairwise_map.mpr (sorted.imp_of_mem ?_)
  intro a b memA memB le
  have ordinal : ∀ column ∈ table.primaryKey,
      column.primaryKeyOrdinal.getD 0 = index.indkey.findIdx (· = column.attnum) + 1 := by
    intro column mem
    have listed := (memKeyAttnums reads found).mp (List.mem_map_of_mem mem)
    have some' : index.indkey.findIdx? (· = column.attnum) = some (index.indkey.findIdx (· = column.attnum)) :=
      List.findIdx?_eq_some_of_exists ⟨column.attnum,listed,by simp⟩
    rw [columnOrdinal reads (memPrimaryKey.mp mem).1,ordinalOf,found,Option.bind_some,arrayPosition,some']
    rfl
  rw [ordinalLe,ordinal a memA,ordinal b memB] at le
  omega

theorem orderedIff : table.primaryKey.map ColumnSchema.attnum = index.keyColumns ↔
    ∀ attnum ∈ index.includedColumns, attnum ∈ index.keyColumns := by
  have split : index.keyColumns ++ index.includedColumns = index.indkey := List.take_append_drop _ _
  constructor
  · intro ordered attnum included
    rw [← ordered,memKeyAttnums reads found,← split]
    exact List.mem_append_right _ included
  · intro included
    have members : ∀ attnum, attnum ∈ table.primaryKey.map ColumnSchema.attnum ↔ attnum ∈ index.keyColumns := by
      intro attnum
      rw [memKeyAttnums reads found,← split,List.mem_append]
      exact ⟨fun mem => mem.elim id (included attnum),.inl⟩
    have distinct : (table.primaryKey.map ColumnSchema.attnum).Nodup :=
      ((primaryKeyPerm table).map _).nodup_iff.mpr ((readDistinct reads).sublist (List.filter_sublist.map _))
    have perm := (List.perm_ext_iff_of_nodup distinct index.distinct).mpr members
    have place : ∀ (number : Nat) (bound : number < index.keyColumns.length),
        index.indkey.findIdx (· = index.keyColumns[number]) = number := by
      intro number bound
      have listed : index.keyColumns.findIdx (· = index.keyColumns[number]) < index.keyColumns.length :=
        List.findIdx_lt_length_of_exists ⟨_,List.getElem_mem bound,by simp⟩
      rw [← split,List.findIdx_append,if_pos listed]
      have unique : UniqueKeys id index.keyColumns := by
        rw [UniqueKeys,List.map_id]
        exact index.distinct
      exact positionOfKey unique (List.getElem?_eq_getElem bound)
    refine perm.eq_of_pairwise ?_ (keyOrdinals reads found) ?_
    · intro a b memA memB le ge
      obtain ⟨i,boundI,rfl⟩ := List.getElem_of_mem ((members a).mp memA)
      obtain ⟨j,boundJ,rfl⟩ := List.getElem_of_mem memB
      rw [place i boundI,place j boundJ] at le ge
      have same : i = j := by omega
      subst same
      rfl
    · refine List.pairwise_iff_getElem.mpr fun i j boundI boundJ less => ?_
      rw [place i boundI,place j boundJ]
      exact less.le

end Keys

def valueAt (cells : List Cell) (index : Nat) : Bytes := (textValue (cellAt cells index)).getD []

theorem mapMFirsts {f : Nat × Nat → Except NormalizeError Bytes} {places : List (Nat × Nat)} {positions : List Nat}
    {cells : List Cell} (firsts : places.map Prod.fst = positions)
    (each : ∀ place ∈ places, f place = .ok (valueAt cells place.1)) :
    places.mapM f = .ok (positions.map (valueAt cells)) := by
  rw [mapMOkOfForall each,← firsts,List.map_map]
  rfl

section Texts
variable {table : TableSchema} {cells : List Cell}
  (texts : ∀ index ∈ keyPositions table, ∃ value, cellAt cells index = .text value)
include texts

theorem valueText {index} (mem : index ∈ keyPositions table) : cellAt cells index = .text (valueAt cells index) := by
  obtain ⟨value,text⟩ := texts index mem
  simp [valueAt,text,textValue]

theorem keyFromTexts (kind : String) :
    keyFromCells table (.new table) cells kind = .ok ((keyPositions table).map (valueAt cells)) := by
  refine mapMFirsts (List.map_fst_zip (Nat.le_refl _)) fun place mem => ?_
  simp only [valueText texts (List.of_mem_zip mem).1]
  rfl

theorem updateKeyFromTexts : keyFromUpdateTuple table (.new table) ⟨cells⟩ none =
    .ok ((keyPositions table).map (valueAt cells)) := by
  refine mapMFirsts (List.zipIdx_map_fst 0 _) fun place mem => ?_
  have mem : place.1 ∈ keyPositions table := List.zipIdx_map_fst 0 (keyPositions table) ▸ List.mem_map_of_mem mem
  simp only [updateKeyCell,valueText texts mem]
  rfl

theorem mergedCell {stored : List Cell} (width : stored.length = cells.length) {index} (mem : index ∈ keyPositions table) :
    cellAt (List.zipWith patchCell stored cells) index = cellAt cells index := by
  obtain ⟨value,text⟩ := texts index mem
  have bound : index < cells.length := by
    by_contra out
    simp [cellAt,List.getD_eq_getElem?_getD,out] at text
  have bound' : index < stored.length := by omega
  have here : cells[index] = .text value := by
    simpa [cellAt,List.getD_eq_getElem?_getD,bound] using text
  simp [cellAt,List.getD_eq_getElem?_getD,bound,bound',here,patchCell]

omit texts in
theorem newTupleValid (arity : cells.length = table.columns.length) (text : ∀ value, Cell.binary value ∉ cells) :
    validateNewTuple table ⟨cells⟩ "update" = .ok () := by
  unfold validateNewTuple
  rw [if_neg (not_not.mpr arity)]
  split
  · rename_i index found
    obtain ⟨bound,binary,_⟩ := List.findIdx?_eq_some_iff_getElem.mp found
    split at binary
    · rename_i value here
      exact absurd (here ▸ List.getElem_mem bound) (text value)
    · contradiction
  · rfl

theorem updateAccepted (supported : table.validateSupported = .ok ()) (arity : cells.length = table.columns.length)
    (text : ∀ value, Cell.binary value ∉ cells) :
    ∃ staged, normalizeTableChanges table [updateChange table ⟨cells⟩] = .ok staged ∧
      ∀ row ∈ staged, row.operation = .upsert := by
  let key := (keyPositions table).map (valueAt cells)
  let n : Normalizer := {Normalizer.new table with sequence := Normalizer.nextSequence 0}
  let located := (n.newBaseline key 0 true).1
  let merged := List.zipWith patchCell (n.baselineCells key) cells
  have width : (n.baselineCells key).length = cells.length := by
    rw [arity]
    exact baselineLength key
  have sameTexts : ∀ index ∈ keyPositions table, ∃ value, cellAt merged index = .text value := by
    intro index mem
    rw [mergedCell texts width mem]
    exact texts index mem
  have sameKey : (keyPositions table).map (valueAt merged) = key := by
    refine List.map_congr_left fun index mem => ?_
    rw [valueAt,mergedCell texts width mem]
    rfl
  have rewritten : located.rewrite 0 cells = .ok (located.patch 0 cells) := by
    have read := keyFromTexts sameTexts "update"
    rw [sameKey] at read
    refine bindOk.mpr ⟨key,read,?_⟩
    exact if_pos rfl
  have pushed : Normalizer.push (.new table) (updateChange table ⟨cells⟩) = .ok (located.patch 0 cells) := by
    unfold Normalizer.push updateChange
    rw [if_neg (by simp [Normalizer.new]),if_neg (by simp [Normalizer.new])]
    refine bindOk.mpr ⟨(),newTupleValid arity text,?_⟩
    refine bindOk.mpr ⟨none,rfl,?_⟩
    refine bindOk.mpr ⟨key,updateKeyFromTexts texts,?_⟩
    exact bindOk.mpr ⟨(located,0),rfl,rewritten⟩
  refine ⟨[⟨.upsert,merged,none⟩],?_,fun row mem => by rw [List.mem_singleton.mp mem]⟩
  refine bindOk.mpr ⟨(),mapErrorOk.mpr supported,?_⟩
  refine bindOk.mpr ⟨_,bindOk.mpr ⟨_,pushed,rfl⟩,?_⟩
  have staged : Normalizer.stagingRow (located.patch 0 cells) ⟨some key,some key,merged,0⟩ =
      .ok (some ⟨.upsert,merged,none⟩) := if_pos rfl
  refine bindOk.mpr ⟨[some ⟨.upsert,merged,none⟩],?_,rfl⟩
  exact mapMOk.mpr (.cons staged .nil)

end Texts

section Update
variable {table : TableSchema} {index : PgIndex} (ordered : table.primaryKey.map ColumnSchema.attnum = index.keyColumns)
include ordered

theorem keyPositionsOrdered : keyPositions table = index.keyColumns.map (position table) := by
  rw [← ordered,List.map_map]
  rfl

theorem rowKeySource (row : Row) : rowKey table row = sourceKey table index row := by
  rw [rowKey,keyPositionsOrdered ordered,List.map_map]
  rfl

variable {old new : Row} {tuple : Tuple} (update : PlainUpdate table index old new tuple)
include update

theorem updateTexts : ∀ place ∈ keyPositions table, ∃ value, cellAt tuple.cells place = .text value ∧
    column old place = some value := by
  rw [keyPositionsOrdered ordered]
  intro place mem
  obtain ⟨attnum,listed,rfl⟩ := List.mem_map.mp mem
  exact update.key attnum listed

theorem cellTexts : ∀ place ∈ keyPositions table, ∃ value, cellAt tuple.cells place = .text value :=
  fun place mem => (updateTexts ordered update place mem).imp fun _ both => both.1

theorem oldKeyTexts : ((keyPositions table).map (valueAt tuple.cells)).map some = rowKey table old := by
  rw [rowKey,List.map_map]
  refine List.map_congr_left fun place mem => ?_
  obtain ⟨value,text,same⟩ := updateTexts ordered update place mem
  simp [valueAt,text,textValue,same]

theorem updateReplays (distinct : AttnumsDistinct table) {rows} (content : IsTable table rows) (mem : old ∈ rows) :
    ∃ final, replay table rows [updateChange table tuple] = some final ∧ new ∈ final ∧
      (final.map (rowKey table)).Perm (rows.map (rowKey table)) := by
  -- The update replays: it removes the old row and adds the new one, which has its key.
  let key := (keyPositions table).map (valueAt tuple.cells)
  have named : rowKey table old = key.map some := (oldKeyTexts ordered update).symm
  have present : find table rows key = some old := by
    rw [find,← named]
    exact lookupOfMem content.unique mem
  have read : updateKey table none tuple.cells = some key :=
    keyFromUpdateTupleSource (updateKeyFromTexts (cellTexts ordered update))
  have absent : find table (remove table rows key) key = none := by
    rw [findRemove content.unique,Function.update_self]
  have added : add table (remove table rows key) key (patchRow tuple.cells old) = some (remove table rows key ++ [new]) := by
    rw [update.patched]
    exact if_pos ⟨absent,update.admitted⟩
  have changed : replayChange table rows (updateChange table tuple) = some (remove table rows key ++ [new]) := by
    refine (if_pos ⟨rfl,rfl⟩).trans ?_
    refine Option.bind_eq_some_iff.mpr ⟨key,read,?_⟩
    exact Option.bind_eq_some_iff.mpr ⟨old,present,(if_pos update.arity).trans added⟩
  have perm : rows.Perm (old :: remove table rows key) := permWithout content.unique present
  have renamed : rowKey table new = rowKey table old := by
    rw [← update.patched,rowKeyUpdate distinct update.arity update.oldWidth read named,named]
  refine ⟨_,Option.bind_eq_some_iff.mpr ⟨_,changed,rfl⟩,by simp,?_⟩
  rw [List.map_append,List.map_singleton,renamed]
  exact (List.perm_append_singleton _ _).trans (perm.map (rowKey table)).symm

theorem updateOneRow {target staging plan} (distinct : AttnumsDistinct table) (supported : table.validateSupported = .ok ())
    (planned : planApply table target staging = .ok plan) {equal : Nat → Bytes → Bytes → Bool} (equality : SqlEquality equal)
    {rows} (content : IsTable table rows) (apart : SqlDistinct equal table rows) (mem : old ∈ rows) :
    ∃ staged out, normalizeTableChanges table [updateChange table tuple] = .ok staged ∧
      executeTable equal plan staged rows = .ok out ∧ out.length = rows.length ∧ new ∈ out := by
  obtain ⟨final,replayed,kept,keys⟩ := updateReplays ordered update distinct content mem
  obtain ⟨staged,folded,upserts⟩ := updateAccepted (cellTexts ordered update) supported update.arity update.text
  obtain ⟨n,run,rfl⟩ := normalizeSource folded
  obtain ⟨plans,_,_⟩ := planApplySource planned
  obtain ⟨result,inv⟩ := runFolded distinct (keyedFind content) _ content (foldedStart table _) replayed run
  have lastApart : SqlDistinct equal table final := by
    have named : (rows.map (rowKey table)).Pairwise fun left right => ¬ sameKeys equal (keyPositions table) left right :=
      List.pairwise_map.mpr apart
    exact List.pairwise_map.mp ((keys.pairwise_iff fun differ back => differ (sameKeysSymm equality _ back)).mpr named)
  have upsert : ∀ op ∈ foldedOps n, op.operation = .upsert := fun op mem => upserts _ (List.mem_map_of_mem mem)
  have quiet : Quiet equal table rows n := by
    constructor
    · intro op mem move
      exact absurd (upsert op mem) (moveNot move).1
    · intro _ _ _ gone mem dead
      rw [upsert gone mem] at dead
      contradiction
  obtain ⟨out,executed,perm⟩ := executedQuiet equality distinct plans content result apart lastApart inv quiet
  have length : final.length = rows.length := by simpa using keys.length_eq
  exact ⟨_,out,folded,executed,perm.length_eq.trans length,perm.mem_iff.mpr kept⟩

end Update

/-- A supported table is identified by the key of its primary index exactly when the index includes no further column. -/
theorem identifiedIff {catalog options inventory table} (ok : inspectTables catalog options = .ok inventory)
    (mem : table ∈ inventory.supported) :
    ∃ relation ∈ catalog.classes, relation.oid = table.relationId ∧ ∃ index, relation.primaryIndex = some index ∧
      (Identified table index ↔ ∀ attnum ∈ index.includedColumns, attnum ∈ index.keyColumns) := by
  obtain ⟨supported,relation,inScope,reads⟩ := supportedSource ok mem
  obtain ⟨index,found⟩ := supportedIndex reads supported
  have listed := (memScanned.mp (List.mem_of_mem_filter inScope)).1
  refine ⟨relation,listed,reads.relationId.symm,index,found,fun identified => ?_,fun included => ?_⟩
  · exact (orderedIff reads found).mp identified.ordered
  · have ordered := (orderedIff reads found).mpr included
    have distinct := readDistinct reads
    refine ⟨ordered,fun old new tuple update => ?_,
      fun target staging plan planned equal equality rows content apart old mem new tuple update => ?_⟩
    · refine ⟨_,updateKeyFromTexts (cellTexts ordered update),?_⟩
      rw [oldKeyTexts ordered update,rowKeySource ordered]
    · exact updateOneRow ordered update distinct supported planned equality content apart mem

section Sample

-- PRIMARY KEY (id) INCLUDE (note)
def coveringIndex : PgIndex := ⟨true,true,true,true,[1,2],1,by decide,by decide⟩

def accountColumns : List PgAttribute :=
  [⟨1,"id",20,-1,true,false,[],[],0⟩,⟨2,"note",25,-1,false,false,[],[],0⟩]

def accountRelation (index : PgIndex) (indexed : ∀ attnum ∈ index.indkey, attnum = 1 ∨ attnum = 2) : PgClass where
  oid := 16385
  relname := "accounts"
  relnamespace := 2200
  relkind := "r"
  relpersistence := "p"
  relispartition := false
  relreplident := "d"
  partattrs := none
  attributes := accountColumns
  indexes := [index]
  oidRange := by decide
  attnums := by decide
  indexed := by
    intro other mem _ attnum listed
    rw [List.mem_singleton.mp mem] at listed
    rcases indexed attnum listed with rfl | rfl
    · exact ⟨_,List.mem_cons_self,rfl,rfl⟩
    · exact ⟨_,List.mem_cons_of_mem _ List.mem_cons_self,rfl,rfl⟩

def accountCatalog (relation : PgClass) : PgCatalog where
  namespaces := [⟨11,"pg_catalog",pgCatalogValid⟩,⟨2200,"public",publicValid⟩]
  types := [⟨20,"int8",11,"b",0,0,[],[]⟩,⟨25,"text",11,"b",0,0,[],[]⟩]
  collations := []
  classes := [relation]
  oids := oneOid relation

def coveredAccounts : PgClass := accountRelation coveringIndex (by decide)

def coveredTable : TableSchema :=
  ⟨16385,1,⟨"public","accounts",publicValid,accountsValid⟩,.ordinary,.default,
    [⟨1,"id",⟨20,⟨"pg_catalog","int8",pgCatalogValid,int8Valid⟩,.int8⟩,false,some 1,.none,.none,none⟩,
     ⟨2,"note",⟨25,⟨"pg_catalog","text",pgCatalogValid,textValid⟩,.text⟩,true,some 2,.none,.none,none⟩],[],[]⟩

-- PRIMARY KEY (region, id), whose columns stand in the table the other way round
def regionalIndex : PgIndex := ⟨true,true,true,true,[2,1],2,by decide,by decide⟩

def regionalAccounts : PgClass where
  oid := 16385
  relname := "accounts"
  relnamespace := 2200
  relkind := "r"
  relpersistence := "p"
  relispartition := false
  relreplident := "d"
  partattrs := none
  attributes := [⟨1,"id",20,-1,true,false,[],[],0⟩,⟨2,"region",25,-1,true,false,[],[],0⟩,⟨3,"note",25,-1,false,false,[],[],0⟩]
  indexes := [regionalIndex]
  oidRange := by decide
  attnums := by decide
  indexed := by
    intro other mem _ attnum listed
    rw [List.mem_singleton.mp mem] at listed
    rcases List.mem_cons.mp listed with rfl | listed
    · exact ⟨_,List.mem_cons_of_mem _ List.mem_cons_self,rfl,rfl⟩
    · rw [List.mem_singleton.mp listed]
      exact ⟨_,List.mem_cons_self,rfl,rfl⟩

def regionalTable : TableSchema :=
  ⟨16385,1,⟨"public","accounts",publicValid,accountsValid⟩,.ordinary,.default,
    [⟨1,"id",⟨20,⟨"pg_catalog","int8",pgCatalogValid,int8Valid⟩,.int8⟩,false,some 2,.none,.none,none⟩,
     ⟨2,"region",⟨25,⟨"pg_catalog","text",pgCatalogValid,textValid⟩,.text⟩,false,some 1,.none,.none,none⟩,
     ⟨3,"note",⟨25,⟨"pg_catalog","text",pgCatalogValid,textValid⟩,.text⟩,true,none,.none,.none,none⟩],[],[]⟩

theorem regionalIdentified : ∃ inventory, inspectTables (accountCatalog regionalAccounts) (catalogOptions {}) = .ok inventory ∧
    regionalTable ∈ inventory.supported ∧ Identified regionalTable regionalIndex := by
  have inspected : inspectTables (accountCatalog regionalAccounts) (catalogOptions {}) = .ok ⟨[regionalTable],[]⟩ := by
    decide +kernel
  have supported : regionalTable ∈ (⟨[regionalTable],[]⟩ : TableInventory).supported := List.mem_singleton.mpr rfl
  obtain ⟨relation,mem,_,index,found,iff⟩ := identifiedIff inspected supported
  cases List.mem_singleton.mp mem
  cases Option.some.inj (found.symm.trans (by rfl : regionalAccounts.primaryIndex = some regionalIndex))
  exact ⟨_,inspected,supported,iff.mpr (by decide)⟩

/- The note of the account 1 changes from a to b; the server sends no old tuple because the key is the id alone. -/
theorem coveringKeyDuplicates : inspectTables (accountCatalog coveredAccounts) (catalogOptions {}) = .ok ⟨[coveredTable],[]⟩ ∧
    coveredAccounts.primaryIndex = some coveringIndex ∧ ¬ Identified coveredTable coveringIndex ∧
    PlainUpdate coveredTable coveringIndex [some [49],some [97]] [some [49],some [98]] ⟨[.text [49],.text [98]]⟩ ∧
    ∃ plan staged out, planApply coveredTable coveredTable.name "pg2cb_stage" = .ok plan ∧
      normalizeTableChanges coveredTable [updateChange coveredTable ⟨[.text [49],.text [98]]⟩] = .ok staged ∧
      executeTable textEqual plan staged [[some [49],some [97]]] = .ok out ∧ out.length = 2 := by
  have update : PlainUpdate coveredTable coveringIndex [some [49],some [97]] [some [49],some [98]]
      ⟨[.text [49],.text [98]]⟩ := by
    refine ⟨rfl,rfl,rfl,by simp,by decide,fun attnum mem => ?_⟩
    cases List.mem_singleton.mp mem
    exact ⟨[49],by decide,by decide⟩
  refine ⟨by decide +kernel,by rfl,fun identified => ?_,update,?_⟩
  · have ordered := identified.ordered
    revert ordered
    decide
  · have applied : ((planApply coveredTable coveredTable.name "pg2cb_stage").toOption.bind fun plan =>
        (normalizeTableChanges coveredTable [updateChange coveredTable ⟨[.text [49],.text [98]]⟩]).toOption.bind fun staged =>
          (executeTable textEqual plan staged [[some [49],some [97]]]).toOption.map List.length) = some 2 := by
      decide +kernel
    obtain ⟨plan,planned,applied⟩ := Option.bind_eq_some_iff.mp applied
    obtain ⟨staged,folded,applied⟩ := Option.bind_eq_some_iff.mp applied
    obtain ⟨out,executed,length⟩ := Option.map_eq_some_iff.mp applied
    exact ⟨plan,staged,out,toOptionSome.mp planned,toOptionSome.mp folded,toOptionSome.mp executed,length⟩

end Sample

end CloudberryEtl.RowIdentity
