import CloudberryEtl.StagingColumns
import CloudberryEtl.Rejection

/-! The rows of the normalizer on their way through the COPY stream. Every row of an accepted batch, whether or not the
batch replays, is well formed; its line is read back column by column, under the names of `copy_sql`, as the same row. -/
namespace CloudberryEtl.StagedDecoding
open Schema Change TablePlan CopyText StagedApply KeyedTable Result Normalize KeyLayout Replay StagedSteps FoldInvariant
open FoldStep FoldRefines Rejection StagingColumns

section Emission

structure Shaped (schema : TableSchema) (touched : List Key) (lineage : Lineage) : Prop where
  arity : lineage.cells.length = schema.columns.length
  plain : ∀ octets, Cell.binary octets ∉ lineage.cells
  named : ∀ key, lineage.currentKey = some key → (keyPositions schema).map (cellAt lineage.cells) = keyCells key
  origin : ∀ key, lineage.originKey = some key → key.length = (keyPositions schema).length ∧ key ∈ touched

structure Emits (schema : TableSchema) (touched : List Key) (n : Normalizer) : Prop where
  sameSchema : n.schema = schema
  sameLayout : n.primaryKey = .new schema
  each : ∀ lineage ∈ n.lineages, Shaped schema touched lineage

variable {schema : TableSchema} {touched : List Key} {n n' : Normalizer}

theorem Shaped.grow {lineage} (shaped : Shaped schema touched lineage) (more : List Key) :
    Shaped schema (touched ++ more) lineage := by
  refine ⟨shaped.arity,shaped.plain,shaped.named,?_⟩
  intro key born
  exact ⟨(shaped.origin key born).1,List.mem_append_left _ (shaped.origin key born).2⟩

theorem Emits.grow (emits : Emits schema touched n) (more : List Key) : Emits schema (touched ++ more) n :=
  ⟨emits.sameSchema,emits.sameLayout,fun lineage mem => (emits.each lineage mem).grow more⟩

theorem modifyEach {P : Lineage → Prop} {lineages : List Lineage} {index : Nat} {f : Lineage → Lineage}
    (before : ∀ lineage ∈ lineages, P lineage) (after : ∀ lineage, lineages[index]? = some lineage → P (f lineage)) :
    ∀ lineage ∈ lineages.modify index f, P lineage := by
  intro lineage mem
  obtain ⟨position,found⟩ := List.getElem?_of_mem mem
  rcases modifyAt.mp found with ⟨_,found⟩ | ⟨_,source,found,same⟩
  · exact before lineage (List.mem_of_getElem? found)
  · exact same ▸ after source found

theorem fullKeyLength {cells key} (full : fullKey schema cells = some key) : key.length = (keyPositions schema).length := by
  simpa [keyCells] using (congrArg List.length (fullKeyIff.mp full)).symm

theorem oldTupleKeyLength {tuple key} (old : oldTupleKey schema tuple = some key) :
    key.length = (keyPositions schema).length := by
  unfold oldTupleKey at old
  split at old
  · exact fullKeyLength old
  · split at old
    · exact fullKeyLength old
    · contradiction

theorem lookupKeyLength {old oldKey newKey cells} (explicit : explicitOldKey schema old = some oldKey)
    (updated : updateKey schema oldKey cells = some newKey) :
    (oldKey.getD newKey).length = (keyPositions schema).length := by
  cases old with
  | none =>
    cases Option.some.inj explicit
    simpa using (updateKeySource updated).length_eq.symm
  | some tuple =>
    obtain ⟨key,read,rfl⟩ := Option.map_eq_some_iff.mp explicit
    exact oldTupleKeyLength read

theorem insertEmits (emits : Emits schema touched n) {new sequence} (ok : n.insert new sequence = .ok n') :
    Emits schema touched n' := by
  obtain ⟨_,valid,ok⟩ := bindOk.mp ok
  obtain ⟨_,_,ok⟩ := bindOk.mp ok
  obtain ⟨key,read,ok⟩ := bindOk.mp ok
  obtain ⟨_,ok⟩ := iteOk.mp ok
  rw [emits.sameSchema] at valid
  rw [emits.sameSchema,emits.sameLayout] at read
  obtain ⟨arity,plain⟩ := validateNewTupleSource valid
  have named := fullKeyIff.mp (keyFromFullTupleSource read)
  split at ok
  · cases Except.ok.inj ok
    refine ⟨emits.sameSchema,emits.sameLayout,modifyEach emits.each ?_⟩
    intro lineage found
    refine ⟨arity,plain,?_,(emits.each lineage (List.mem_of_getElem? found)).origin⟩
    intro other live
    exact Option.some.inj live ▸ named
  · cases Except.ok.inj ok
    refine ⟨emits.sameSchema,emits.sameLayout,?_⟩
    intro lineage mem
    rcases List.mem_append.mp mem with mem | mem
    · exact emits.each lineage mem
    · rw [List.mem_singleton.mp mem]
      refine ⟨arity,plain,?_,?_⟩
      · intro other live
        exact Option.some.inj live ▸ named
      · intro other born
        contradiction

theorem locateEmits (distinct : AttnumsDistinct schema) (emits : Emits schema touched n) {key sequence live verb index}
    (length : key.length = (keyPositions schema).length) (ok : n.locate key sequence live verb = .ok (n',index)) :
    Emits schema (touched ++ [key]) n' := by
  have grown := emits.grow [key]
  unfold Normalizer.locate at ok
  split at ok
  · cases Except.ok.inj ok
    exact grown
  · obtain ⟨_,ok⟩ := iteOk.mp ok
    cases Except.ok.inj ok
    have cells : n.baselineCells key = baseline schema key := by
      rw [Normalizer.baselineCells,emits.sameSchema,emits.sameLayout,baseline]
    refine ⟨emits.sameSchema,emits.sameLayout,?_⟩
    intro lineage mem
    rcases List.mem_append.mp mem with mem | mem
    · exact grown.each lineage mem
    · rw [List.mem_singleton.mp mem,cells]
      refine ⟨baselineLength key,baselinePlain distinct length,?_,?_⟩
      · intro other current
        split at current
        · exact Option.some.inj current ▸ baselineKey distinct length
        · contradiction
      · intro other born
        cases Option.some.inj born
        exact ⟨length,by simp⟩

theorem patchedShaped {lineage : Lineage} {incoming : List Cell} (shaped : Shaped schema touched lineage)
    (arity : incoming.length = schema.columns.length) (plain : ∀ octets, Cell.binary octets ∉ incoming)
    {current : Option Key} (named : ∀ key, current = some key →
      (keyPositions schema).map (cellAt (List.zipWith patchCell lineage.cells incoming)) = keyCells key) :
    Shaped schema touched {lineage with
      currentKey := current, cells := List.zipWith patchCell lineage.cells incoming} := by
  refine ⟨by simp [shaped.arity,arity],?_,named,shaped.origin⟩
  intro octets mem
  rcases patchCellMem mem with ⟨mem,_⟩ | mem
  · exact plain octets mem
  · exact shaped.plain octets mem

theorem rewriteEmits (emits : Emits schema touched n) {index incoming} (arity : incoming.length = schema.columns.length)
    (plain : ∀ octets, Cell.binary octets ∉ incoming) (ok : n.rewrite index incoming = .ok n') :
    Emits schema touched n' := by
  unfold Normalizer.rewrite at ok
  cases found : n.lineages[index]? with
  | none =>
    have same : (n.patch index incoming).lineages[index]? = none := by simp [Normalizer.patch,found]
    simp only [same] at ok
    cases Except.ok.inj ok
    refine ⟨emits.sameSchema,emits.sameLayout,modifyEach emits.each ?_⟩
    intro lineage here
    rw [found] at here
    contradiction
  | some lineage =>
    have shaped := emits.each lineage (List.mem_of_getElem? found)
    have patchedAt : (n.patch index incoming).lineages[index]? =
        some {lineage with cells := List.zipWith patchCell lineage.cells incoming} := by
      simp [Normalizer.patch,found]
    simp only [patchedAt] at ok
    obtain ⟨finalKey,read,ok⟩ := bindOk.mp ok
    rw [show (n.patch index incoming).schema = schema from emits.sameSchema,
      show (n.patch index incoming).primaryKey = .new schema from emits.sameLayout] at read
    have final := fullKeyIff.mp (keyFromCellsSource read)
    -- the patched lineage is named by the key read from it, or by none
    have patches (named : ∀ key, lineage.currentKey = some key → key = finalKey) :
        Emits schema touched (n.patch index incoming) := by
      refine ⟨emits.sameSchema,emits.sameLayout,modifyEach emits.each ?_⟩
      intro other here
      cases Option.some.inj (found.symm.trans here)
      exact patchedShaped shaped arity plain (fun key live => named key live ▸ final)
    split at ok
    next dead =>
      cases Except.ok.inj ok
      refine patches ?_
      intro key live
      rw [dead] at live
      contradiction
    next previousKey live =>
      split at ok
      next same =>
        cases Except.ok.inj ok
        refine patches ?_
        intro key here
        rw [live] at here
        exact (Option.some.inj here).symm.trans same.symm
      next =>
        obtain ⟨_,ok⟩ := iteOk.mp ok
        obtain ⟨_,ok⟩ := iteOk.mp ok
        cases Except.ok.inj ok
        refine ⟨emits.sameSchema,emits.sameLayout,?_⟩
        intro other mem
        obtain ⟨position,here⟩ := List.getElem?_of_mem mem
        rcases modifyAt.mp here with ⟨apart,kept⟩ | ⟨_,source,held,same⟩
        · rcases modifyAt.mp kept with ⟨_,kept⟩ | ⟨same,_⟩
          · exact emits.each other (List.mem_of_getElem? kept)
          · exact absurd same apart
        · cases Option.some.inj (patchedAt.symm.trans held)
          rw [same]
          exact patchedShaped shaped arity plain (fun key live => Option.some.inj live ▸ final)

theorem pushEmits (distinct : AttnumsDistinct schema) (emits : Emits schema touched n) {change}
    (ok : n.push change = .ok n') : Emits schema (touched ++ (touchedKey? schema change.change).toList) n' := by
  obtain ⟨_,ok⟩ := iteOk.mp ok
  obtain ⟨_,ok⟩ := iteOk.mp ok
  have emits : Emits schema touched {n with sequence := Normalizer.nextSequence n.sequence} :=
    ⟨emits.sameSchema,emits.sameLayout,emits.each⟩
  cases kind : change.change with
  | insert new =>
    rw [kind] at ok
    simpa [touchedKey?] using insertEmits emits ok
  | update old new =>
    rw [kind] at ok
    obtain ⟨_,valid,ok⟩ := bindOk.mp ok
    obtain ⟨oldKey,readOld,ok⟩ := bindOk.mp ok
    obtain ⟨newKey,readNew,ok⟩ := bindOk.mp ok
    obtain ⟨⟨m,index⟩,located,ok⟩ := bindOk.mp ok
    rw [emits.sameSchema] at valid
    rw [emits.sameSchema,emits.sameLayout] at readOld readNew
    obtain ⟨arity,plain⟩ := validateNewTupleSource valid
    have explicit := explicitSource distinct readOld
    have updated := keyFromUpdateTupleSource readNew
    have after := rewriteEmits (locateEmits distinct emits (lookupKeyLength explicit updated) located) arity plain ok
    simpa [touchedKey?,explicit,updated] using after
  | delete old =>
    rw [kind] at ok
    obtain ⟨key,read,ok⟩ := bindOk.mp ok
    obtain ⟨⟨m,index⟩,located,ok⟩ := bindOk.mp ok
    rw [emits.sameSchema,emits.sameLayout] at read
    have old := keyFromOldTupleSource distinct read
    have after := locateEmits distinct emits (oldTupleKeyLength old) located
    cases Except.ok.inj ok
    simp only [touchedKey?,old,Option.toList_some]
    refine ⟨after.sameSchema,after.sameLayout,modifyEach after.each ?_⟩
    intro lineage found
    have shaped := after.each lineage (List.mem_of_getElem? found)
    refine ⟨shaped.arity,shaped.plain,?_,shaped.origin⟩
    intro other live
    contradiction

theorem runEmits (distinct : AttnumsDistinct schema) (changes : List TableChange)
    (folded : changes.foldlM Normalizer.push (.new schema) = .ok n) : Emits schema (touchedKeys schema changes) n := by
  have start : Emits schema (touchedKeys schema []) (.new schema) := ⟨rfl,rfl,by simp [Normalizer.new]⟩
  have step (past : List TableChange) (n : Normalizer) (change : TableChange) (n' : Normalizer)
      (emits : Emits schema (touchedKeys schema past) n) (ok : n.push change = .ok n') :
      Emits schema (touchedKeys schema (past ++ [change])) n' :=
    touchedSnoc schema past change ▸ pushEmits distinct emits ok
  exact foldlMInvariant step changes [] _ n start folded

theorem emittedRows (distinct : AttnumsDistinct schema) {changes rows} (ok : normalizeTableChanges schema changes = .ok rows) :
    ∀ row ∈ rows, ∃ op : Op, row = op.row ∧ OpOk schema op ∧ (op.isMove → op.old ∈ touchedKeys schema changes) := by
  intro row mem
  obtain ⟨n,folded,rfl⟩ := normalizeSource ok
  have emits := runEmits distinct changes folded
  obtain ⟨op,held,rfl⟩ := List.mem_map.mp mem
  obtain ⟨index,lineage,found,made⟩ := memFoldedOps.mp held
  have shaped := emits.each lineage (List.mem_of_getElem? found)
  refine ⟨op,rfl,?_⟩
  cases opSource.mp made with
  | upsert live _ =>
    exact ⟨⟨shaped.arity,shaped.plain,shaped.named _ live,fun move => absurd move (by simp [Op.isMove])⟩,
      fun move => absurd move (by simp [Op.isMove])⟩
  | move born live _ =>
    exact ⟨⟨shaped.arity,shaped.plain,shaped.named _ live,fun _ => (shaped.origin _ born).1⟩,
      fun _ => (shaped.origin _ born).2⟩
  | @delete origin born _ _ =>
    have cells : n.baselineCells origin = baseline schema origin := by
      rw [Normalizer.baselineCells,emits.sameSchema,emits.sameLayout,baseline]
    have length := (shaped.origin origin born).1
    exact ⟨⟨cells ▸ baselineLength origin,cells ▸ baselinePlain distinct length,cells ▸ baselineKey distinct length,
      fun move => absurd move (by simp [Op.isMove])⟩,fun move => absurd move (by simp [Op.isMove])⟩

end Emission

section Reading

abbrev Fields := List (String × Option Bytes)

def readOperation : Option Bytes → Option StageOperation
  | some [85] => some .upsert
  | some [68] => some .delete
  | some [77] => some .move
  | _ => none

def readFlag : Option Bytes → Option Bool
  | some [116] => some true
  | some [102] => some false
  | _ => none

def readCell (value : Option Bytes) (present : Bool) : Cell :=
  if present then (match value with
    | none => .null
    | some text => .text text)
  else .unchangedToast

def readPresent (plan : ApplyPlan) (fields : Fields) (index : Nat) : Option Bool :=
  match plan.copyLayout.presenceColumns.find? (fun presence => presence.sourceColumnIndex = index) with
  | none => some true
  | some presence => (fields.lookup presence.stagingColumnName).bind readFlag

def readStaging (plan : ApplyPlan) (fields : Fields) : Option StagingRow := do
  let operation ← (fields.lookup plan.copyLayout.operationColumn).bind readOperation
  let cells ← plan.copyLayout.dataColumns.zipIdx.mapM (fun column => do
    let value ← fields.lookup column.1
    let present ← readPresent plan fields column.2
    some (readCell value present))
  let hasOldKey ← (fields.lookup plan.copyLayout.oldKeyPresentColumn).bind readFlag
  let oldKey ← plan.copyLayout.oldKeyColumns.mapM (fun column => fields.lookup column.stagingColumnName)
  some ⟨operation,cells,if hasOldKey then some (oldKey.map (readCell · true)) else none⟩

def received (plan : ApplyPlan) (values : List (Option Bytes)) : Fields := (copyColumns plan).zip values

theorem lookupHeld {fields : Fields} (nodup : (fields.map Prod.fst).Nodup) {name value} (mem : (name,value) ∈ fields) :
    fields.lookup name = some value := by
  induction fields with
  | nil => contradiction
  | cons head rest ih =>
    obtain ⟨fresh,nodup⟩ := List.nodup_cons.mp nodup
    rcases List.mem_cons.mp mem with rfl | mem
    · simp
    · have apart : name ≠ head.1 := by
        intro same
        exact fresh (same ▸ List.mem_map_of_mem mem)
      rw [List.lookup_cons,beq_eq_false_iff_ne.mpr apart]
      exact ih nodup mem

theorem readAll {γ : Type} {fields : Fields} {columns : List γ} (name : γ → String) {values : List (Option Bytes)}
    (lengths : columns.length = values.length)
    (held : ∀ field ∈ (columns.map name).zip values, fields.lookup field.1 = some field.2) :
    List.Forall₂ (fun column value => fields.lookup (name column) = some value) columns values := by
  refine List.forall₂_iff_zip.mpr ⟨lengths,?_⟩
  intro column value mem
  refine held (name column,value) ?_
  rw [List.zip_map_left]
  exact List.mem_map.mpr ⟨(column,value),mem,rfl⟩

variable {schema : TableSchema} {target : QualifiedName} {staging : String} {plan : ApplyPlan}
  (distinct : AttnumsDistinct schema) (ranged : AttnumsInRange schema)
  (planned : planApply schema target staging = .ok plan) {op : Op} (ok : OpOk schema op)

include planned ok in
theorem stagedOldKeyLength : (stagedOldKey plan op).length = plan.copyLayout.oldKeyColumns.length := by
  have plans := (planApplySource planned).1
  unfold stagedOldKey
  split
  next move => rw [keyCells,List.length_map,ok.oldLength move,keyPositionsLength,plans.oldKeys]
  next => rw [List.length_map]

include planned ok in
theorem receivedLength : ((opFields plan op).map cellValue).length = (copyColumns plan).length := by
  have plans := (planApplySource planned).1
  have olds := stagedOldKeyLength planned ok
  simp only [copyColumns,opFields,List.length_map,List.length_cons,List.length_append,olds]
  rw [(layoutSource planned).2]
  simp only [List.length_map,plans.table.length,ok.arity]

include planned ok in
theorem receivedFields : received plan ((opFields plan op).map cellValue) =
    (plan.copyLayout.operationColumn,some [op.operation.byte]) :: (plan.copyLayout.dataColumns.zip (op.cells.map cellValue) ++
      (plan.copyLayout.presenceColumns.map (fun presence =>
        (presence.stagingColumnName,cellValue (flag (isPresent op.cells presence)))) ++
      (plan.copyLayout.oldKeyPresentColumn,cellValue (flag op.isMove)) ::
        (plan.copyLayout.oldKeyColumns.map OldKeyColumn.stagingColumnName).zip ((stagedOldKey plan op).map cellValue))) := by
  have plans := (planApplySource planned).1
  have data : plan.copyLayout.dataColumns.length = (op.cells.map cellValue).length := by
    rw [(layoutSource planned).2,List.length_map,List.length_map,plans.table.length,ok.arity]
  have materialized : (op.cells.map materialize).map cellValue = op.cells.map cellValue := by
    rw [List.map_map]
    refine List.map_congr_left ?_
    intro cell _
    cases cell <;> rfl
  unfold received copyColumns opFields
  simp only [List.map_cons,List.map_append,materialized,List.cons_append,List.zip_cons_cons,List.append_assoc]
  rw [List.zip_append data,List.map_map,List.zip_append (by simp),List.zip_cons_cons,List.zip_map']
  rfl

include distinct ranged planned ok

theorem receivedHeld {name value} (mem : (name,value) ∈ received plan ((opFields plan op).map cellValue)) :
    (received plan ((opFields plan op).map cellValue)).lookup name = some value := by
  refine lookupHeld ?_ mem
  rw [received,List.map_fst_zip (receivedLength planned ok).ge]
  exact copyColumnsNodup planned distinct ranged

theorem readPresentAt {index : Nat} (bound : index < schema.columns.length) :
    readPresent plan (received plan ((opFields plan op).map cellValue)) index =
      some (decide (index ∈ keyPositions schema) || cellAt op.cells index != .unchangedToast) := by
  have plans := (planApplySource planned).1
  unfold readPresent
  by_cases isKey : index ∈ keyPositions schema
  · have none' := @presenceKey schema plan distinct plans op index isKey
    rw [presenceOfStaged,Option.map_eq_none_iff] at none'
    simp [none',isKey]
  · have some' := presenceData distinct plans ok isKey bound
    rw [presenceOfStaged] at some'
    obtain ⟨presence,found,same⟩ := Option.map_eq_some_iff.mp some'
    have mem := List.mem_of_find?_eq_some found
    have held := @receivedHeld schema target staging plan distinct ranged planned op ok presence.stagingColumnName
      (cellValue (flag (isPresent op.cells presence))) (by
        rw [receivedFields planned ok]
        exact List.mem_cons_of_mem _ (List.mem_append_right _ (List.mem_append_left _ (List.mem_map_of_mem mem))))
    rw [found]
    simp only [held,same,Option.bind_some]
    cases cellAt op.cells index != .unchangedToast <;> simp [flag,cellValue,readFlag,isKey]

theorem readCells : (plan.copyLayout.dataColumns.zipIdx.mapM (fun column => do
    let value ← (received plan ((opFields plan op).map cellValue)).lookup column.1
    let present ← readPresent plan (received plan ((opFields plan op).map cellValue)) column.2
    some (readCell value present))) = some op.cells := by
  have plans := (planApplySource planned).1
  have widths : plan.copyLayout.dataColumns.length = op.cells.length := by
    rw [(layoutSource planned).2,List.length_map,plans.table.length,ok.arity]
  refine mapMSome.mpr (List.forall₂_iff_get.mpr ⟨by simpa using widths,?_⟩)
  intro index inNames inCells
  have bound : index < schema.columns.length := ok.arity ▸ inCells
  have inData : index < plan.copyLayout.dataColumns.length := widths ▸ inCells
  have cell : cellAt op.cells index = op.cells[index] := by
    simp [cellAt,List.getD_eq_getElem?_getD,inCells]
  have held := @receivedHeld schema target staging plan distinct ranged planned op ok plan.copyLayout.dataColumns[index]
    (cellValue op.cells[index]) (by
      rw [receivedFields planned ok]
      refine List.mem_cons_of_mem _ (List.mem_append_left _ (List.mem_iff_getElem.mpr ⟨index,?_,?_⟩))
      · simpa using ⟨inData,inCells⟩
      · simp)
  have present := readPresentAt distinct ranged planned ok bound
  simp only [List.get_eq_getElem,List.getElem_zipIdx,Nat.zero_add,held,present,Option.bind_eq_bind,Option.bind_some,cell,
    Option.some.injEq]
  cases here : op.cells[index] with
  | null => simp [readCell,cellValue]
  | unchangedToast =>
    have notKey : index ∉ keyPositions schema := by
      intro isKey
      obtain ⟨value,text⟩ := keyCellText ok isKey
      rw [cell,here] at text
      contradiction
    simp [readCell,notKey]
  | text value => simp [readCell,cellValue]
  | binary octets => exact absurd (here ▸ List.getElem_mem inCells) (ok.plain octets)

theorem readOldKey : List.Forall₂ (fun (column : OldKeyColumn) value =>
    (received plan ((opFields plan op).map cellValue)).lookup column.stagingColumnName = some value)
    plan.copyLayout.oldKeyColumns ((stagedOldKey plan op).map cellValue) := by
  refine readAll OldKeyColumn.stagingColumnName (by simpa using (stagedOldKeyLength planned ok).symm) ?_
  intro ⟨name,value⟩ mem
  refine receivedHeld distinct ranged planned ok ?_
  rw [receivedFields planned ok]
  exact List.mem_cons_of_mem _ (List.mem_append_right _ (List.mem_append_right _ (List.mem_cons_of_mem _ mem)))

theorem readStagingRow : readStaging plan (received plan ((opFields plan op).map cellValue)) = some op.row := by
  have operation := @receivedHeld schema target staging plan distinct ranged planned op ok plan.copyLayout.operationColumn
    (some [op.operation.byte]) (by rw [receivedFields planned ok]; exact List.mem_cons_self)
  have oldKeyPresent := @receivedHeld schema target staging plan distinct ranged planned op ok
    plan.copyLayout.oldKeyPresentColumn (cellValue (flag op.isMove)) (by
      rw [receivedFields planned ok]
      exact List.mem_cons_of_mem _ (List.mem_append_right _ (List.mem_append_right _ List.mem_cons_self)))
  have oldKey := mapMSome.mpr (readOldKey distinct ranged planned ok)
  have known : readOperation (some [op.operation.byte]) = some op.operation := by
    cases op.operation <;> rfl
  unfold readStaging
  rw [operation,oldKeyPresent,readCells distinct ranged planned ok,oldKey]
  simp only [Option.bind_some,known,Option.bind_eq_bind]
  cases move : op.isMove with
  | false => simp [flag,cellValue,readFlag,Op.row,move]
  | true =>
    have texts : ((keyCells op.old).map cellValue).map (readCell · true) = keyCells op.old := by
      simp [keyCells,cellValue,readCell,Function.comp_def]
    simpa [flag,cellValue,readFlag,Op.row,move,stagedOldKey] using texts

end Reading

/-- Every row of an accepted batch is encoded as one line, whose values, under the distinct columns that the COPY statement
names, read back as the row; the old key of a move is a key that an event named, and each of its values stands in the
staging column of its primary-key column. -/
theorem stagedRowsDecode {schema : TableSchema} {target : QualifiedName} {staging : String} {plan : ApplyPlan}
    (distinct : AttnumsDistinct schema) (ranged : AttnumsInRange schema)
    (planned : planApply schema target staging = .ok plan) {changes rows}
    (folded : normalizeTableChanges schema changes = .ok rows) : (copyColumns plan).Nodup ∧
    ∀ row ∈ rows, ∃ line values, encodeStagingRow plan row = .ok line ∧ decodeStream line = [values] ∧
      values.length = (copyColumns plan).length ∧ readStaging plan (received plan values) = some row ∧
      ∀ oldKey, row.oldKey = some oldKey → (∃ key ∈ touchedKeys schema changes, oldKey = keyCells key) ∧
        List.Forall₂ (fun (column : ColumnSchema) cell => (received plan values).lookup
          (unusedControlPrefix plan.table ++ ("old_" ++ toString column.attnum)) = some (cellValue cell))
          schema.primaryKey oldKey := by
  refine ⟨copyColumnsNodup planned distinct ranged,?_⟩
  intro row mem
  obtain ⟨op,rfl,ok,named⟩ := emittedRows distinct folded row mem
  have plans := (planApplySource planned).1
  obtain ⟨line,encoded⟩ := encodeRowOk (by simp [opFields]) (@opFieldsPlain schema plan op ok)
  have single := decodeStreamRows (.cons encoded .nil)
  refine ⟨line,(opFields plan op).map cellValue,bindOk.mpr ⟨_,stagingFieldsOk distinct plans ok,mapErrorOk.mpr encoded⟩,
    by simpa using single,receivedLength planned ok,readStagingRow distinct ranged planned ok,?_⟩
  intro oldKey has
  have move : op.isMove := by
    by_contra other
    simp [Op.row,other] at has
  have same : oldKey = keyCells op.old := by simpa [Op.row,move] using has.symm
  refine ⟨⟨op.old,named move,same⟩,?_⟩
  have read := readOldKey distinct ranged planned ok
  rw [stagedOldKey,if_pos move,← same] at read
  have names : List.Forall₂ (fun name value =>
      (received plan ((opFields plan op).map cellValue)).lookup name = some value)
      (plan.copyLayout.oldKeyColumns.map OldKeyColumn.stagingColumnName) (oldKey.map cellValue) :=
    List.forall₂_map_left_iff.mpr read
  rw [oldKeyNames planned] at names
  have columns := List.forall₂_map_left_iff.mp names
  have cells := List.forall₂_map_right_iff.mp columns
  exact cells

theorem moveStagedRowsDecode : ∃ plan rows, planApply accounts accounts.name "pg2cb_stage" = .ok plan ∧
    normalizeTableChanges accounts moveAndReuse = .ok rows ∧ (copyColumns plan).Nodup ∧
    ∀ row ∈ rows, ∃ line values, encodeStagingRow plan row = .ok line ∧ decodeStream line = [values] ∧
      values.length = (copyColumns plan).length ∧ readStaging plan (received plan values) = some row ∧
      ∀ oldKey, row.oldKey = some oldKey → (∃ key ∈ touchedKeys accounts moveAndReuse, oldKey = keyCells key) ∧
        List.Forall₂ (fun (column : ColumnSchema) cell => (received plan values).lookup
          (unusedControlPrefix plan.table ++ ("old_" ++ toString column.attnum)) = some (cellValue cell))
          accounts.primaryKey oldKey := by
  obtain ⟨plan,planned⟩ : ∃ plan, planApply accounts accounts.name "pg2cb_stage" = .ok plan :=
    okOfToOption (by decide +kernel)
  obtain ⟨rows,folded⟩ : ∃ rows, normalizeTableChanges accounts moveAndReuse = .ok rows :=
    okOfToOption (by decide +kernel)
  exact ⟨plan,rows,planned,folded,stagedRowsDecode (by decide) (by decide) planned folded⟩

end CloudberryEtl.StagedDecoding
