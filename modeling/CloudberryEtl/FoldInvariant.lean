import CloudberryEtl.Replay

/-! The invariant of the fold. Between two events every key is in one of three states: live under a lineage, whose
cells turn the batch-start row of its origin into the current row; vacated, when a lineage started there and the key
is no longer live; or untouched, when the current row is the batch-start row. -/
namespace CloudberryEtl.FoldInvariant
open Schema Change StagedApply KeyedTable Result Normalize KeyLayout Replay

section Keys
variable {schema : TableSchema}

theorem keyCellText {cell index kind value} (ok : keyCell schema cell index kind = .ok value) : cell = .text value := by
  cases cell <;> simp_all [keyCell]

theorem selectedCells {layout : PrimaryKeyLayout} {cells indexes kind key}
    (same : indexes.length = layout.ordinalIndexes.length)
    (ok : keyFromSelectedCells schema layout cells indexes kind = .ok key) :
    indexes.map (cellAt cells) = keyCells key := by
  unfold keyFromSelectedCells at ok
  generalize layout.ordinalIndexes = ordinals at same ok
  induction indexes generalizing ordinals key with
  | nil => cases Except.ok.inj ok; rfl
  | cons index indexes ih =>
    cases ordinals with
    | nil => simp at same
    | cons ordinal ordinals =>
      rw [List.zip_cons_cons,List.mapM_cons] at ok
      obtain ⟨value,head,ok⟩ := bindOk.mp ok
      obtain ⟨tail,rest,ok⟩ := bindOk.mp ok
      cases Except.ok.inj ok
      simp only [List.map_cons,keyCells,keyCellText head,ih ordinals (by simpa using same) rest]

theorem keyFromCellsSource {cells kind key} (ok : keyFromCells schema (.new schema) cells kind = .ok key) :
    fullKey schema cells = some key := fullKeyIff.mpr (selectedCells rfl ok)

theorem keyFromFullTupleSource {tuple kind key} (ok : keyFromFullTuple schema (.new schema) tuple kind = .ok key) :
    fullKey schema tuple.cells = some key := fullKeyIff.mpr (selectedCells rfl ok)

theorem keyTuplePositionsWiden (distinct : AttnumsDistinct schema) (cells : List Cell) :
    (PrimaryKeyLayout.new schema).keyTuplePositions.map (cellAt cells) =
      (keyPositions schema).map (cellAt (widen schema.columns cells)) := by
  rw [show (PrimaryKeyLayout.new schema).keyTuplePositions =
    (keyPositions schema).map (fun index => (schemaOrder schema).findIdx (· = index)) from rfl,List.map_map]
  refine List.map_congr_left fun index mem => ?_
  obtain ⟨column,found,isKey⟩ := (memKeyPositions distinct).mp mem
  simpa [schemaOrder] using (widenAt found isKey 0 cells).symm

theorem keyFromOldTupleSource (distinct : AttnumsDistinct schema) {tuple key}
    (ok : keyFromOldTuple schema (.new schema) tuple = .ok key) : oldTupleKey schema tuple = some key := by
  have lengths : (PrimaryKeyLayout.new schema).ordinalIndexes.length = schema.primaryKey.length :=
    keyPositionsLength schema
  unfold keyFromOldTuple at ok
  unfold oldTupleKey
  split at ok
  · rename_i full
    rw [if_pos full]
    exact fullKeyIff.mpr (selectedCells rfl ok)
  · rename_i notFull
    split at ok <;> try contradiction
    rename_i keyOnly
    rw [if_neg notFull,if_pos (keyOnly.trans lengths),fullKeyIff,← keyTuplePositionsWiden distinct]
    exact selectedCells (by simp [PrimaryKeyLayout.new]) ok

theorem keyFromUpdateTupleSource {tuple oldKey key}
    (ok : keyFromUpdateTuple schema (.new schema) tuple oldKey = .ok key) :
    updateKey schema oldKey tuple.cells = some key := by
  refine mapMSome.mpr ((mapMOk.mp ok).imp ?_)
  rintro ⟨index,ordinal⟩ value found
  cases cell : cellAt tuple.cells index <;> simp only [updateKeyCell,cell] at found ⊢
  case unchangedToast =>
    split at found <;> try contradiction
    rename_i old
    cases Except.ok.inj found
    exact old
  case text =>
    cases keyCellText found
    rfl
  all_goals cases keyCellText found

end Keys

section Write
variable {positions : List Nat} {values : List Cell}

theorem setAllLength (positions : List Nat) (values cells : List Cell) :
    ((positions.zip values).foldl (fun cells (index,value) => cells.set index value) cells).length = cells.length := by
  induction positions generalizing values cells with
  | nil => rfl
  | cons index positions ih =>
    cases values with
    | nil => rfl
    | cons value values => simpa using ih values (cells.set index value)

theorem setAllOther {index} (apart : index ∉ positions) (cells : List Cell) :
    cellAt ((positions.zip values).foldl (fun cells (index,value) => cells.set index value) cells) index =
      cellAt cells index := by
  induction positions generalizing values cells with
  | nil => rfl
  | cons head positions ih =>
    cases values with
    | nil => rfl
    | cons value values =>
      rw [List.mem_cons,not_or] at apart
      rw [List.zip_cons_cons,List.foldl_cons,ih apart.2]
      simp [cellAt,List.getD_eq_getElem?_getD,List.getElem?_set_ne (Ne.symm apart.1)]

theorem setAllHere (nodup : positions.Nodup) (same : positions.length = values.length) (cells : List Cell)
    (bound : ∀ index ∈ positions, index < cells.length) :
    positions.map (cellAt ((positions.zip values).foldl (fun cells (index,value) => cells.set index value) cells)) =
      values := by
  induction positions generalizing values cells with
  | nil => cases values <;> simp_all
  | cons head positions ih =>
    cases values with
    | nil => simp at same
    | cons value values =>
      obtain ⟨fresh,nodup⟩ := List.nodup_cons.mp nodup
      have headBound := bound head List.mem_cons_self
      rw [List.zip_cons_cons,List.foldl_cons,List.map_cons,setAllOther fresh,
        ih nodup (by simpa using same) _ (fun index mem => by simpa using bound index (List.mem_cons_of_mem _ mem))]
      simp [cellAt,headBound]

end Write

def baseline (schema : TableSchema) (key : Key) : List Cell :=
  writeKey (.new schema) (List.replicate schema.columns.length .unchangedToast) key

section Baseline
variable {schema : TableSchema} (distinct : AttnumsDistinct schema)
include distinct

theorem baselineKey {key : Key} (length : key.length = (keyPositions schema).length) :
    (keyPositions schema).map (cellAt (baseline schema key)) = keyCells key :=
  setAllHere (keyPositionsNodup distinct) (by simp [keyCells,length]) _
    (fun index mem => by simpa using keyPositionsLt distinct mem)

omit distinct in
theorem baselineLength (key : Key) : (baseline schema key).length = schema.columns.length := by
  rw [baseline,writeKey,setAllLength,List.length_replicate]

omit distinct in
theorem baselineOther (key : Key) {index} (apart : index ∉ keyPositions schema) (bound : index < schema.columns.length) :
    cellAt (baseline schema key) index = .unchangedToast := by
  have same : cellAt (baseline schema key) index =
      cellAt (List.replicate schema.columns.length .unchangedToast) index := setAllOther apart _
  rw [same]
  simp [cellAt,List.getD_eq_getElem?_getD,bound]

theorem baselinePlain {key : Key} (length : key.length = (keyPositions schema).length) :
    ∀ octets, Cell.binary octets ∉ baseline schema key := by
  intro octets mem
  obtain ⟨index,found⟩ := List.getElem?_of_mem mem
  have bound : index < schema.columns.length := by
    have inside := (List.getElem?_eq_some_iff.mp found).1
    rwa [baselineLength] at inside
  have value : cellAt (baseline schema key) index = .binary octets := by
    simp [cellAt,List.getD_eq_getElem?_getD,found]
  by_cases isKey : index ∈ keyPositions schema
  · have text : cellAt (baseline schema key) index ∈ keyCells key :=
      baselineKey distinct length ▸ List.mem_map_of_mem isKey
    rw [value] at text
    simp [keyCells] at text
  · rw [baselineOther key isKey bound] at value
    contradiction

theorem patchBaseline {key : Key} {row : Row} (width : row.length = schema.columns.length)
    (named : rowKey schema row = key.map some) : patchRow (baseline schema key) row = row := by
  have lengths : key.length = (keyPositions schema).length := by
    simpa [rowKey] using (congrArg List.length named).symm
  have arity : (baseline schema key).length = schema.columns.length := baselineLength key
  refine List.ext_getElem? fun index => ?_
  by_cases bound : index < row.length
  · have cell : column (patchRow (baseline schema key) row) index = column row index := by
      rw [columnPatch (arity.trans width.symm) bound]
      by_cases mem : index ∈ keyPositions schema
      · obtain ⟨ordinal,place⟩ := List.getElem?_of_mem mem
        have text := congrArg (fun list => list[ordinal]?) (baselineKey distinct lengths)
        have value := congrArg (fun list => list[ordinal]?) named
        simp only [List.getElem?_map,place,Option.map_some,rowKey,keyCells] at text value
        cases atKey : key[ordinal]? with
        | none => simp [atKey] at text
        | some octets =>
          simp only [atKey,Option.map_some,Option.some.injEq] at text value
          rw [text,value]
          rfl
      · rw [baselineOther key mem (width ▸ bound)]
        rfl
    have bound' : index < (patchRow (baseline schema key) row).length := by
      rw [patchRowLength (arity.trans width.symm)]; exact bound
    simpa [column,List.getD_eq_getElem?_getD,bound,bound'] using cell
  · have past : (patchRow (baseline schema key) row).length ≤ index := by
      rw [patchRowLength (arity.trans width.symm)]; omega
    rw [List.getElem?_eq_none past,List.getElem?_eq_none (by omega)]

end Baseline

theorem appendAt {α : Type} {xs : List α} {x y : α} {index : Nat} :
    (xs ++ [x])[index]? = some y ↔ xs[index]? = some y ∨ (index = xs.length ∧ y = x) := by
  rcases Nat.lt_trichotomy index xs.length with low | same | high
  · simp [List.getElem?_append_left low,Nat.ne_of_lt low]
  · subst same; simp [eq_comm]
  · have past : (xs ++ [x]).length ≤ index := by
      rw [List.length_append,List.length_singleton]
      omega
    rw [List.getElem?_eq_none past,List.getElem?_eq_none (Nat.le_of_lt high)]
    simp [Nat.ne_of_gt high]

theorem modifyAt {α : Type} {xs : List α} {f : α → α} {y : α} {place index : Nat} :
    (xs.modify place f)[index]? = some y ↔
      (index ≠ place ∧ xs[index]? = some y) ∨ (index = place ∧ ∃ x, xs[place]? = some x ∧ y = f x) := by
  rw [List.getElem?_modify]
  by_cases same : index = place
  · subst same; simp [eq_comm]
  · simp [same,Ne.symm same]

/- What holds of one lineage. `row` is the batch-start row of its origin; without an origin the cells are complete and
any row will do. -/
structure LineageOk (schema : TableSchema) (start table : Key → Option Row) (lineage : Lineage) : Prop where
  arity : lineage.cells.length = schema.columns.length
  plain : ∀ octets, Cell.binary octets ∉ lineage.cells
  complete : lineage.originKey = none → Cell.unchangedToast ∉ lineage.cells
  born : ∀ key, lineage.originKey = some key → (start key).isSome
  named : ∀ key, lineage.currentKey = some key → (keyPositions schema).map (cellAt lineage.cells) = keyCells key
  value : ∀ key, lineage.currentKey = some key → ∃ row : Row, row.length = schema.columns.length ∧
    (∀ origin, lineage.originKey = some origin → start origin = some row) ∧
    table key = some (patchRow lineage.cells row)

structure Folded (schema : TableSchema) (start table : Key → Option Row) (n : Normalizer) : Prop where
  sameSchema : n.schema = schema
  sameLayout : n.primaryKey = .new schema
  current : ∀ key index, n.currentByKey key = some index ↔
    ∃ lineage, n.lineages[index]? = some lineage ∧ lineage.currentKey = some key
  origin : ∀ key index, n.originByKey key = some index ↔
    ∃ lineage, n.lineages[index]? = some lineage ∧ lineage.originKey = some key
  each : ∀ (index : Nat) lineage, n.lineages[index]? = some lineage → LineageOk schema start table lineage
  vacated : ∀ key, n.currentByKey key = none → (n.originByKey key).isSome → table key = none
  untouched : ∀ key, n.currentByKey key = none → n.originByKey key = none → table key = start key
  fresh : ∀ key, (n.currentByKey key).isSome → n.originByKey key = none → start key = none
  moved : ∀ (index : Nat) lineage origin current, n.lineages[index]? = some lineage → lineage.originKey = some origin →
    lineage.currentKey = some current → origin ≠ current → n.originByKey current = none

theorem foldedStart (schema : TableSchema) (start : Key → Option Row) :
    Folded schema start start (.new schema) where
  sameSchema := rfl
  sameLayout := rfl
  current key index := by simp [Normalizer.new]
  origin key index := by simp [Normalizer.new]
  each index lineage found := by simp [Normalizer.new] at found
  vacated key _ present := by simp [Normalizer.new] at present
  untouched key _ _ := rfl
  fresh key live := by simp [Normalizer.new] at live
  moved index lineage _ _ found := by simp [Normalizer.new] at found

def clear {α : Type} (map : Key → Option α) : Option Key → Key → Option α
  | none => map
  | some key => Function.update map key none

def place {α : Type} (map : Key → Option α) (key : Option Key) (value : α) : Key → Option α :=
  match key with
  | none => map
  | some key => Function.update map key (some value)

theorem clearSelf {α : Type} (map : Key → Option α) (key : Key) : clear map (some key) key = none := by simp [clear]

theorem clearOther {α : Type} (map : Key → Option α) {key : Option Key} {other : Key} (apart : key ≠ some other) :
    clear map key other = map other := by
  cases key with
  | none => rfl
  | some key => exact Function.update_of_ne (fun same => apart (congrArg some same.symm)) _ _

theorem placeSelf {α : Type} (map : Key → Option α) (key : Key) (value : α) :
    place map (some key) value key = some value := by simp [place]

theorem placeOther {α : Type} (map : Key → Option α) {key : Option Key} {other : Key} (value : α)
    (apart : key ≠ some other) : place map key value other = map other := by
  cases key with
  | none => rfl
  | some key => exact Function.update_of_ne (fun same => apart (congrArg some same.symm)) _ _

structure Rewrites (n n' : Normalizer) (index : Nat) (lineage lineage' : Lineage) : Prop where
  schema : n'.schema = n.schema
  layout : n'.primaryKey = n.primaryKey
  origins : n'.originByKey = n.originByKey
  currents : n'.currentByKey = place (clear n.currentByKey lineage.currentKey) lineage'.currentKey index
  lineages : ∀ (position : Nat) other, n'.lineages[position]? = some other ↔
    (position ≠ index ∧ n.lineages[position]? = some other) ∨ (position = index ∧ other = lineage')
  sameOrigin : lineage'.originKey = lineage.originKey

def Free (n : Normalizer) (table : Key → Option Row) (lineage : Lineage) (key : Key) : Prop :=
  lineage.currentKey = some key ∨
    (n.currentByKey key = none ∧ (n.originByKey key = none ∨ lineage.originKey = some key) ∧ table key = none)

section Rewrite
variable {schema : TableSchema} {start table : Key → Option Row} {n n' : Normalizer} {index : Nat}
  {lineage lineage' : Lineage}

theorem currentOf (inv : Folded schema start table n) (found : n.lineages[index]? = some lineage) {key}
    (live : lineage.currentKey = some key) : n.currentByKey key = some index :=
  (inv.current key index).mpr ⟨lineage,found,live⟩

theorem otherKey (inv : Folded schema start table n) (found : n.lineages[index]? = some lineage) {position : Nat} {other key}
    (apart : position ≠ index) (member : n.lineages[position]? = some other) (live : other.currentKey = some key) :
    lineage.currentKey ≠ some key := by
  intro same
  have here := currentOf inv found same
  rw [currentOf inv member live] at here
  exact apart (Option.some.inj here)

theorem otherFree (inv : Folded schema start table n) (found : n.lineages[index]? = some lineage)
    (free : ∀ key, lineage'.currentKey = some key → Free n table lineage key) {position : Nat} {other key}
    (apart : position ≠ index) (member : n.lineages[position]? = some other) (live : other.currentKey = some key) :
    lineage'.currentKey ≠ some key := by
  intro same
  rcases free key same with here | ⟨absent,_⟩
  · exact otherKey inv found apart member live here
  · rw [currentOf inv member live] at absent
    contradiction

theorem rewriteCurrent (inv : Folded schema start table n) (found : n.lineages[index]? = some lineage)
    (rewrites : Rewrites n n' index lineage lineage')
    (free : ∀ key, lineage'.currentKey = some key → Free n table lineage key) (key : Key) (position : Nat) :
    n'.currentByKey key = some position ↔
      ∃ other, n'.lineages[position]? = some other ∧ other.currentKey = some key := by
  simp only [rewrites.lineages,rewrites.currents]
  constructor
  · intro live
    by_cases here : lineage'.currentKey = some key
    · rw [here,placeSelf] at live
      cases Option.some.inj live
      exact ⟨lineage',.inr ⟨rfl,rfl⟩,here⟩
    · rw [placeOther _ _ here] at live
      by_cases old : lineage.currentKey = some key
      · rw [old,clearSelf] at live; contradiction
      · rw [clearOther _ old] at live
        obtain ⟨other,member,current⟩ := (inv.current key position).mp live
        refine ⟨other,.inl ⟨?_,member⟩,current⟩
        rintro rfl
        cases Option.some.inj (found.symm.trans member)
        exact old current
  · rintro ⟨other,⟨apart,member⟩ | ⟨rfl,rfl⟩,current⟩
    · rw [placeOther _ _ (otherFree inv found free apart member current),
        clearOther _ (otherKey inv found apart member current)]
      exact currentOf inv member current
    · rw [current,placeSelf]

/-- Rewriting one lineage keeps the invariant, for the table in which its row moves with it. -/
theorem foldedRewrite (inv : Folded schema start table n) (found : n.lineages[index]? = some lineage)
    (rewrites : Rewrites n n' index lineage lineage')
    (free : ∀ key, lineage'.currentKey = some key → Free n table lineage key) (row : Row)
    (ok : LineageOk schema start (place (clear table lineage.currentKey) lineage'.currentKey row) lineage') :
    Folded schema start (place (clear table lineage.currentKey) lineage'.currentKey row) n' := by
  -- a key that is live after the step without being the rewritten one was live before it
  have gone : ∀ key, n'.currentByKey key = none → lineage'.currentKey ≠ some key ∧
      (lineage.currentKey = some key ∨ (lineage.currentKey ≠ some key ∧ n.currentByKey key = none)) := by
    intro key absent
    rw [rewrites.currents] at absent
    have new : lineage'.currentKey ≠ some key := by
      intro same
      rw [same,placeSelf] at absent
      contradiction
    refine ⟨new,?_⟩
    by_cases old : lineage.currentKey = some key
    · exact .inl old
    · rw [placeOther _ _ new,clearOther _ old] at absent
      exact .inr ⟨old,absent⟩
  refine ⟨rewrites.schema.trans inv.sameSchema,rewrites.layout.trans inv.sameLayout,
    rewriteCurrent inv found rewrites free,?_,?_,?_,?_,?_,?_⟩
  · intro key position
    simp only [rewrites.origins,inv.origin,rewrites.lineages]
    constructor
    · rintro ⟨other,member,origin⟩
      by_cases same : position = index
      · subst same
        cases Option.some.inj (found.symm.trans member)
        exact ⟨lineage',.inr ⟨rfl,rfl⟩,rewrites.sameOrigin.trans origin⟩
      · exact ⟨other,.inl ⟨same,member⟩,origin⟩
    · rintro ⟨other,⟨_,member⟩ | ⟨rfl,rfl⟩,origin⟩
      · exact ⟨other,member,origin⟩
      · exact ⟨lineage,found,rewrites.sameOrigin.symm.trans origin⟩
  · intro position other member
    rcases (rewrites.lineages position other).mp member with ⟨apart,member⟩ | ⟨rfl,rfl⟩
    · have before := inv.each position other member
      refine ⟨before.arity,before.plain,before.complete,before.born,before.named,fun key live => ?_⟩
      rw [placeOther _ _ (otherFree inv found free apart member live),
        clearOther _ (otherKey inv found apart member live)]
      exact before.value key live
    · exact ok
  · intro key absent present
    obtain ⟨new,old | ⟨old,before⟩⟩ := gone key absent
    · rw [placeOther _ _ new,old,clearSelf]
    · rw [placeOther _ _ new,clearOther _ old]
      exact inv.vacated key before (rewrites.origins ▸ present)
  · intro key absent unborn
    rw [rewrites.origins] at unborn
    obtain ⟨new,old | ⟨old,before⟩⟩ := gone key absent
    · rw [placeOther _ _ new,old,clearSelf]
      exact (inv.fresh key (by rw [currentOf inv found old]; rfl) unborn).symm
    · rw [placeOther _ _ new,clearOther _ old]
      exact inv.untouched key before unborn
  · intro key live unborn
    rw [rewrites.origins] at unborn
    by_cases before : n.currentByKey key = none
    · -- the key became live in this step
      have new : lineage'.currentKey = some key := by
        by_contra other
        rw [rewrites.currents,placeOther _ _ other] at live
        by_cases old : lineage.currentKey = some key
        · rw [old,clearSelf] at live; contradiction
        · rw [clearOther _ old,before] at live; contradiction
      rcases free key new with old | ⟨_,_,absent⟩
      · rw [currentOf inv found old] at before; contradiction
      · exact (inv.untouched key before unborn).symm.trans absent
    · exact inv.fresh key (Option.isSome_iff_ne_none.mpr before) unborn
  · intro position other origin current member born live apart
    rw [rewrites.origins]
    rcases (rewrites.lineages position other).mp member with ⟨_,member⟩ | ⟨rfl,rfl⟩
    · exact inv.moved position other origin current member born live apart
    · rw [rewrites.sameOrigin] at born
      rcases free current live with old | ⟨_,none' | same,_⟩
      · exact inv.moved position lineage origin current found born old apart
      · exact none'
      · exact absurd (Option.some.inj (born.symm.trans same)) apart

end Rewrite

structure Appends (n n' : Normalizer) (key : Key) (new : Lineage) : Prop where
  schema : n'.schema = n.schema
  layout : n'.primaryKey = n.primaryKey
  lineages : n'.lineages = n.lineages ++ [new]
  currents : n'.currentByKey = place n.currentByKey (some key) n.lineages.length
  origins : n'.originByKey = place n.originByKey new.originKey n.lineages.length
  live : new.currentKey = some key
  idle : n.currentByKey key = none
  ownOrigin : ∀ origin, new.originKey = some origin → origin = key ∧ n.originByKey key = none

section Append
variable {schema : TableSchema} {start table : Key → Option Row} {n n' : Normalizer} {key : Key} {new : Lineage}

theorem Appends.at (appends : Appends n n' key new) (index : Nat) (other : Lineage) :
    n'.lineages[index]? = some other ↔
      n.lineages[index]? = some other ∨ (index = n.lineages.length ∧ other = new) := by
  rw [appends.lineages,appendAt]

theorem Appends.apart (appends : Appends n n' key new) (inv : Folded schema start table n) {index : Nat} {other live}
    (member : n.lineages[index]? = some other) (current : other.currentKey = some live) : key ≠ live := by
  rintro rfl
  have present := currentOf inv member current
  rw [appends.idle] at present
  contradiction

theorem Appends.outside {index : Nat} {other : Lineage} (member : n.lineages[index]? = some other) :
    index ≠ n.lineages.length := by
  have bound := (List.getElem?_eq_some_iff.mp member).1
  omega

theorem appendCurrent (inv : Folded schema start table n) (appends : Appends n n' key new) (k : Key) (index : Nat) :
    n'.currentByKey k = some index ↔
      ∃ other, n'.lineages[index]? = some other ∧ other.currentKey = some k := by
  simp only [appends.at,appends.currents]
  by_cases same : k = key
  · subst same
    rw [placeSelf]
    constructor
    · rintro ⟨⟩
      exact ⟨new,.inr ⟨rfl,rfl⟩,appends.live⟩
    · rintro ⟨other,member | ⟨rfl,_⟩,current⟩
      · exact absurd rfl (appends.apart inv member current)
      · rfl
  · rw [placeOther _ _ (fun equal => same (Option.some.inj equal).symm),inv.current]
    constructor
    · rintro ⟨other,member,current⟩
      exact ⟨other,.inl member,current⟩
    · rintro ⟨other,member | ⟨_,rfl⟩,current⟩
      · exact ⟨other,member,current⟩
      · exact absurd (Option.some.inj (current.symm.trans appends.live)) same

theorem appendOrigin (inv : Folded schema start table n) (appends : Appends n n' key new) (k : Key) (index : Nat) :
    n'.originByKey k = some index ↔
      ∃ other, n'.lineages[index]? = some other ∧ other.originKey = some k := by
  simp only [appends.at,appends.origins]
  by_cases own : new.originKey = some k
  · obtain ⟨rfl,unborn⟩ := appends.ownOrigin k own
    rw [own,placeSelf]
    constructor
    · rintro ⟨⟩
      exact ⟨new,.inr ⟨rfl,rfl⟩,own⟩
    · rintro ⟨other,member | ⟨rfl,_⟩,origin⟩
      · have born := (inv.origin k index).mpr ⟨other,member,origin⟩
        rw [unborn] at born
        contradiction
      · rfl
  · rw [placeOther _ _ own,inv.origin]
    constructor
    · rintro ⟨other,member,origin⟩
      exact ⟨other,.inl member,origin⟩
    · rintro ⟨other,member | ⟨_,rfl⟩,origin⟩
      · exact ⟨other,member,origin⟩
      · exact absurd origin own

theorem foldedAppend (inv : Folded schema start table n) (appends : Appends n n' key new) (row : Row)
    (ok : LineageOk schema start (place table (some key) row) new)
    (unborn : new.originKey = none → n.originByKey key = none → start key = none) :
    Folded schema start (place table (some key) row) n' := by
  have idle : ∀ k, n'.currentByKey k = none → k ≠ key ∧ n.currentByKey k = none := by
    intro k absent
    have apart : k ≠ key := by
      rintro rfl
      rw [appends.currents,placeSelf] at absent
      contradiction
    rw [appends.currents,placeOther _ _ (fun equal => apart (Option.some.inj equal).symm)] at absent
    exact ⟨apart,absent⟩
  have origins : ∀ k, k ≠ key → n'.originByKey k = n.originByKey k := by
    intro k apart
    rw [appends.origins,placeOther]
    exact fun own => apart (appends.ownOrigin k own).1
  have rows : ∀ k, k ≠ key → place table (some key) row k = table k :=
    fun k apart => placeOther _ _ (fun equal => apart (Option.some.inj equal).symm)
  refine ⟨appends.schema.trans inv.sameSchema,appends.layout.trans inv.sameLayout,appendCurrent inv appends,
    appendOrigin inv appends,?_,?_,?_,?_,?_⟩
  · intro index other member
    rcases (appends.at index other).mp member with member | ⟨_,rfl⟩
    · have before := inv.each index other member
      refine ⟨before.arity,before.plain,before.complete,before.born,before.named,fun k live => ?_⟩
      rw [rows k (appends.apart inv member live).symm]
      exact before.value k live
    · exact ok
  · intro k absent present
    obtain ⟨apart,before⟩ := idle k absent
    rw [rows k apart]
    exact inv.vacated k before (origins k apart ▸ present)
  · intro k absent none'
    obtain ⟨apart,before⟩ := idle k absent
    rw [rows k apart]
    exact inv.untouched k before (origins k apart ▸ none')
  · intro k live none'
    by_cases same : k = key
    · subst same
      cases own : new.originKey with
      | some origin =>
        obtain ⟨rfl,_⟩ := appends.ownOrigin origin own
        rw [appends.origins,own,placeSelf] at none'
        contradiction
      | none =>
        rw [appends.origins,own] at none'
        exact unborn own none'
    · rw [origins k same] at none'
      rw [appends.currents,placeOther _ _ (fun equal => same (Option.some.inj equal).symm)] at live
      exact inv.fresh k live none'
  · intro index other origin current member born live apart
    rcases (appends.at index other).mp member with member | ⟨_,rfl⟩
    · rw [origins current (appends.apart inv member live).symm]
      exact inv.moved index other origin current member born live apart
    · obtain ⟨rfl,_⟩ := appends.ownOrigin origin born
      exact absurd (Option.some.inj (appends.live.symm.trans live)) apart

end Append

end CloudberryEtl.FoldInvariant
