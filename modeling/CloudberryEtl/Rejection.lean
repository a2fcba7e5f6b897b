import CloudberryEtl.RowDescent

/-! When the normalizer refuses a batch that the source could commit. On a history that replays every key it reads is
there, every row it looks up has a lineage and every insert is complete, so that one refusal is left: an update to a key
under which another row started that the batch has already touched. -/
namespace CloudberryEtl.Rejection
open Schema Change StagedApply KeyedTable Result Normalize KeyLayout Replay FoldInvariant FoldStep RowDescent

def reusedStartKey : NormalizeError := .ambiguousSequence "primary-key update reuses another batch-start key"

-- The new tuples hold no binary cell; replay reads one like a text cell.
def PlainTuples : RowChange → Prop
  | .insert new | .update _ new => ∀ octets, Cell.binary octets ∉ new.cells
  | .delete _ => True

instance : DecidablePred PlainTuples := fun change => by
  have each (cells : List Cell) : Decidable (∀ octets, Cell.binary octets ∉ cells) :=
    decidable_of_iff (cells.all (fun cell => !(cell matches .binary _)) = true) (by
      rw [List.all_eq_true]
      constructor
      · intro plain octets mem
        exact absurd (plain _ mem) (by simp)
      · intro plain cell mem
        cases cell with
        | binary octets => exact absurd mem (plain octets)
        | _ => rfl)
  cases change <;> unfold PlainTuples <;> infer_instance

def touchedKey? (schema : TableSchema) : RowChange → Option Key
  | .insert _ => none
  | .update old new => (explicitOldKey schema old).bind (fun oldKey =>
      (updateKey schema oldKey new.cells).map (fun newKey => oldKey.getD newKey))
  | .delete old => oldTupleKey schema old

def touchedKeys (schema : TableSchema) (changes : List TableChange) : List Key :=
  changes.filterMap (fun change => touchedKey? schema change.change)

def ReusesStartKey (schema : TableSchema) (rows : List Row) (past : List TableChange) : RowChange → Prop
  | .insert _ | .delete _ => False
  | .update old new => ∃ oldKey newKey, explicitOldKey schema old = some oldKey ∧
      updateKey schema oldKey new.cells = some newKey ∧ newKey ≠ oldKey.getD newKey ∧
      newKey ∈ startKeys schema rows ∧ newKey ∈ touchedKeys schema past ∧
      (oldKey.getD newKey,newKey) ∉ descent schema rows past

theorem touchedSnoc (schema : TableSchema) (past : List TableChange) (change : TableChange) :
    touchedKeys schema (past ++ [change]) = touchedKeys schema past ++ (touchedKey? schema change.change).toList := by
  rw [touchedKeys,List.filterMap_append]
  cases key : touchedKey? schema change.change <;> simp [touchedKeys,key]

def Conflict (schema : TableSchema) (rows : List Row) (changes : List TableChange) : Prop :=
  ∃ past change rest, changes = past ++ change :: rest ∧ ReusesStartKey schema rows past change.change

section Reads
variable {schema : TableSchema}

theorem keyCellsRead {positions ordinals : List Nat} {cells : List Cell} {kind : String} : ∀ {key : Key},
    positions.length = ordinals.length → positions.map (cellAt cells) = keyCells key →
      (positions.zip ordinals).mapM (fun (cellIndex,schemaIndex) =>
        keyCell schema (cellAt cells cellIndex) schemaIndex kind) = .ok key := by
  induction positions generalizing ordinals with
  | nil =>
    intro key _ same
    cases key with
    | nil => rfl
    | cons => contradiction
  | cons position positions ih =>
    intro key lengths same
    cases ordinals with
    | nil => contradiction
    | cons ordinal ordinals =>
      cases key with
      | nil => contradiction
      | cons value key =>
        obtain ⟨head,tail⟩ := List.cons.inj same
        have rest := ih (Nat.succ.inj lengths) tail
        have here : keyCell schema (cellAt cells position) ordinal kind = .ok value := by rw [head]; rfl
        rw [List.zip_cons_cons,List.mapM_cons]
        exact bindOk.mpr ⟨value,here,bindOk.mpr ⟨key,rest,rfl⟩⟩

theorem keyFromCellsRead {cells kind key} (full : fullKey schema cells = some key) :
    keyFromCells schema (.new schema) cells kind = .ok key := keyCellsRead rfl (fullKeyIff.mp full)

theorem keyFromOldTupleRead (distinct : AttnumsDistinct schema) {tuple key} (old : oldTupleKey schema tuple = some key) :
    keyFromOldTuple schema (.new schema) tuple = .ok key := by
  have lengths : (PrimaryKeyLayout.new schema).ordinalIndexes.length = schema.primaryKey.length :=
    keyPositionsLength schema
  unfold oldTupleKey at old
  unfold keyFromOldTuple
  split at old
  next full =>
    rw [if_pos full]
    exact keyCellsRead rfl (fullKeyIff.mp old)
  next notFull =>
    rw [if_neg notFull]
    split at old
    next keyOnly =>
      rw [if_pos (keyOnly.trans lengths.symm)]
      refine keyCellsRead (by simp [PrimaryKeyLayout.new]) ?_
      rw [keyTuplePositionsWiden distinct]
      exact fullKeyIff.mp old
    next => contradiction

theorem explicitRead (distinct : AttnumsDistinct schema) {old oldKey} (explicit : explicitOldKey schema old = some oldKey) :
    old.mapM (keyFromOldTuple schema (.new schema)) = .ok oldKey := by
  cases old with
  | none =>
    cases Option.some.inj explicit
    rfl
  | some tuple =>
    obtain ⟨key,read,rfl⟩ := Option.map_eq_some_iff.mp explicit
    exact bindOk.mpr ⟨key,keyFromOldTupleRead distinct read,rfl⟩

theorem keyFromUpdateTupleRead {tuple oldKey key} (updated : updateKey schema oldKey tuple.cells = some key) :
    keyFromUpdateTuple schema (.new schema) tuple oldKey = .ok key := by
  refine mapMOk.mpr ((mapMSome.mp updated).imp ?_)
  intro ⟨index,ordinal⟩ value found
  cases cell : cellAt tuple.cells index <;> simp only [updateKeyCell,cell] at found ⊢
  case unchangedToast => rw [found]
  case text => simpa [textValue,keyCell] using found
  all_goals cases found

theorem validateNewTupleRead {tuple kind} (arity : tuple.cells.length = schema.columns.length)
    (plain : ∀ octets, Cell.binary octets ∉ tuple.cells) : validateNewTuple schema tuple kind = .ok () := by
  unfold validateNewTuple
  rw [if_neg (not_not.mpr arity)]
  split
  next index found =>
    obtain ⟨bound,binary,_⟩ := List.findIdx?_eq_some_iff_getElem.mp found
    split at binary
    next octets here => exact absurd (here ▸ List.getElem_mem bound) (plain octets)
    next => contradiction
  next => rfl

theorem requireCompleteRead {cells} (complete : Cell.unchangedToast ∉ cells) : requireComplete schema cells = .ok () := by
  unfold requireComplete
  split
  next index found =>
    obtain ⟨bound,toast,_⟩ := List.findIdx?_eq_some_iff_getElem.mp found
    exact absurd (of_decide_eq_true toast ▸ List.getElem_mem bound) complete
  next => rfl

theorem patchedKey (distinct : AttnumsDistinct schema) {stored incoming : List Cell} {oldKey newKey}
    (storedArity : stored.length = schema.columns.length) (arity : incoming.length = schema.columns.length)
    (named : (keyPositions schema).map (cellAt stored) = keyCells (oldKey.getD newKey))
    (updated : updateKey schema oldKey incoming = some newKey) :
    fullKey schema (List.zipWith patchCell stored incoming) = some newKey := by
  have source := updateKeySource updated
  have lengths : (keyPositions schema).length = newKey.length := by simpa using source.length_eq
  refine fullKeyIff.mpr (List.ext_getElem? fun ordinal => ?_)
  cases place : (keyPositions schema)[ordinal]? with
  | none =>
    have past : newKey[ordinal]? = none := by
      rw [List.getElem?_eq_none_iff] at place ⊢
      omega
    simp [place,keyCells,past]
  | some index =>
    have position : (keyPositions schema).zipIdx[ordinal]? = some (index,ordinal) := by
      simp [List.getElem?_zipIdx,place]
    obtain ⟨value,atNew,⟨cell⟩⟩ := relatedAt source position
    have bound := keyPositionsLt distinct (List.mem_of_getElem? place)
    have patched : cellAt (List.zipWith patchCell stored incoming) index =
        patchCell (cellAt stored index) (cellAt incoming index) := by
      simp [cellAt,List.getD_eq_getElem?_getD,storedArity ▸ bound,arity ▸ bound]
    simp only [List.getElem?_map,place,Option.map_some,keyCells,atNew,patched,Option.some.injEq]
    rcases cell with text | ⟨toast,key,same,atOld⟩
    · simp [text,patchCell]
    · have before := congrArg (fun list => list[ordinal]?) named
      simp only [List.getElem?_map,place,Option.map_some,keyCells,same,Option.getD_some,atOld,Option.some.injEq] at before
      rw [toast,patchCell,if_pos rfl,before]

end Reads

def Touched (start : Key → Option Row) (n : Normalizer) (touched : List Key) : Prop :=
  ∀ key, (n.originByKey key).isSome ↔ (start key).isSome ∧ key ∈ touched

section Step
variable {schema : TableSchema} {start table : Key → Option Row} {n n' : Normalizer} {touched : List Key}
  (inv : Folded schema start table n)
include inv

theorem idleAbsent {key} (absent : table key = none) : n.currentByKey key = none := by
  cases live : n.currentByKey key with
  | none => rfl
  | some index =>
    obtain ⟨lineage,found,here⟩ := (inv.current key index).mp live
    obtain ⟨_,_,_,value⟩ := (inv.each index lineage found).value key here
    rw [absent] at value
    contradiction

theorem insertRead {new sequence key} (full : fullKey schema new.cells = some key)
    (arity : new.cells.length = schema.columns.length) (plain : ∀ octets, Cell.binary octets ∉ new.cells)
    (complete : Cell.unchangedToast ∉ new.cells) (absent : table key = none) : ∃ n', n.insert new sequence = .ok n' := by
  have read : keyFromFullTuple schema (.new schema) new "insert" = .ok key := keyFromCellsRead full
  unfold Normalizer.insert
  rw [inv.sameSchema,inv.sameLayout,validateNewTupleRead arity plain,requireCompleteRead complete,read]
  simp only [bind,Except.bind,idleAbsent inv absent,Option.isSome_none,Bool.false_eq_true,if_false]
  split
  · exact ⟨_,rfl⟩
  · exact ⟨_,rfl⟩

theorem locateRead {key row} (present : table key = some row) (sequence : Nat) (live : Bool) (verb : String) :
    ∃ m index, n.locate key sequence live verb = .ok (m,index) := by
  unfold Normalizer.locate
  cases current : n.currentByKey key with
  | some index => exact ⟨n,index,rfl⟩
  | none =>
    have unborn : n.originByKey key = none := by
      cases origin : n.originByKey key with
      | none => rfl
      | some index =>
        rw [inv.vacated key current (by simp [origin])] at present
        contradiction
    rw [unborn]
    exact ⟨_,_,rfl⟩

theorem deleteRead (distinct : AttnumsDistinct schema) {old key row sequence} (explicit : oldTupleKey schema old = some key)
    (present : table key = some row) : ∃ n', n.delete old sequence = .ok n' := by
  obtain ⟨m,index,located⟩ := locateRead inv present sequence false "delete"
  unfold Normalizer.delete
  rw [inv.sameSchema,inv.sameLayout,keyFromOldTupleRead distinct explicit]
  simp only [bind,Except.bind,located]
  exact ⟨_,rfl⟩

theorem rewriteExact (distinct : AttnumsDistinct schema) {index : Nat} {lineage incoming oldKey newKey}
    (found : n.lineages[index]? = some lineage) (live : lineage.currentKey = some (oldKey.getD newKey))
    (arity : incoming.length = schema.columns.length) (updated : updateKey schema oldKey incoming = some newKey)
    (free : newKey = oldKey.getD newKey ∨ table newKey = none) :
    (newKey ≠ oldKey.getD newKey ∧ (n.originByKey newKey).any (· ≠ index) = true →
      n.rewrite index incoming = .error reusedStartKey) ∧
    (¬ (newKey ≠ oldKey.getD newKey ∧ (n.originByKey newKey).any (· ≠ index) = true) →
      ∃ n', n.rewrite index incoming = .ok n') := by
  have before := inv.each index lineage found
  have read := @keyFromCellsRead schema _ "update" _
    (patchedKey distinct before.arity arity (before.named _ live) updated)
  have patchedAt : (n.patch index incoming).lineages[index]? =
      some {lineage with cells := List.zipWith patchCell lineage.cells incoming} := by
    simp [Normalizer.patch,found]
  unfold Normalizer.rewrite
  simp only [patchedAt]
  rw [show (n.patch index incoming).schema = schema from inv.sameSchema,
    show (n.patch index incoming).primaryKey = .new schema from inv.sameLayout,read]
  simp only [bind,Except.bind,live]
  by_cases same : newKey = oldKey.getD newKey
  · rw [if_pos same]
    exact ⟨fun reuse => absurd same reuse.1,fun _ => ⟨_,rfl⟩⟩
  · have idle := idleAbsent inv (free.resolve_left same)
    rw [if_neg same,if_neg (by simp [Normalizer.patch,idle])]
    constructor
    · intro reuse
      exact if_pos reuse.2
    · intro noReuse
      exact ⟨_,if_neg (fun reuse => noReuse ⟨same,reuse⟩)⟩

theorem locateOrigins {key sequence verb index} (ok : n.locate key sequence true verb = .ok (n',index)) {other : Key}
    (apart : other ≠ key) : n'.originByKey other = n.originByKey other := by
  rcases locateSource ok with ⟨rfl,_⟩ | ⟨_,_,rfl,_⟩
  · rfl
  · exact Function.update_of_ne apart _ _

theorem updateExact (distinct : AttnumsDistinct schema) (keyed : Keyed schema start) {pairs : Descent}
    {starts : List Key}
    (started : ∀ key, key ∈ starts ↔ (start key).isSome) (tracks : Tracks start n pairs)
    (touches : Touched start n touched) {old new sequence oldKey newKey row}
    (explicit : explicitOldKey schema old = some oldKey) (updated : updateKey schema oldKey new.cells = some newKey)
    (present : table (oldKey.getD newKey) = some row) (arity : new.cells.length = schema.columns.length)
    (plain : ∀ octets, Cell.binary octets ∉ new.cells) (free : newKey = oldKey.getD newKey ∨ table newKey = none) :
    (newKey ≠ oldKey.getD newKey ∧ newKey ∈ starts ∧ newKey ∈ touched ∧ (oldKey.getD newKey,newKey) ∉ pairs →
      n.update old new sequence = .error reusedStartKey) ∧
    (¬ (newKey ≠ oldKey.getD newKey ∧ newKey ∈ starts ∧ newKey ∈ touched ∧ (oldKey.getD newKey,newKey) ∉ pairs) →
      ∃ n', n.update old new sequence = .ok n') := by
  obtain ⟨m,index,located⟩ := locateRead inv present sequence true "update"
  obtain ⟨after,lineage,found,live⟩ := locateFolded distinct keyed inv present located
  have rewritten := rewriteExact after distinct found live arity updated free
  have reads : n.update old new sequence = m.rewrite index new.cells := by
    unfold Normalizer.update
    rw [inv.sameSchema,inv.sameLayout,validateNewTupleRead arity plain,explicitRead distinct explicit]
    simp only [bind,Except.bind,keyFromUpdateTupleRead updated,located]
  -- the lineage at the new key is another one than that of the updated row
  have same : (newKey ≠ oldKey.getD newKey ∧ (m.originByKey newKey).any (· ≠ index) = true) ↔
      (newKey ≠ oldKey.getD newKey ∧ newKey ∈ starts ∧ newKey ∈ touched ∧ (oldKey.getD newKey,newKey) ∉ pairs) := by
    refine and_congr_right fun moves => ?_
    rw [started,← and_assoc,← touches newKey,← locateOrigins inv located moves,tracks,← standsLocate inv present located,
      standsLive after found live]
    cases origin : m.originByKey newKey with
    | none => simp
    | some position =>
      simp only [Option.any_some,Option.isSome_some,true_and,decide_eq_true_eq]
      refine not_congr ?_
      constructor
      · intro here
        subst here
        obtain ⟨other,member,born⟩ := (after.origin newKey position).mp origin
        exact Option.some.inj (found.symm.trans member) ▸ born
      · intro born
        exact Option.some.inj (origin.symm.trans ((after.origin newKey index).mpr ⟨lineage,found,born⟩))
  rw [reads,← same]
  exact rewritten

theorem locateTouched (touches : Touched start n touched) {key row sequence verb index} (present : table key = some row)
    (ok : n.locate key sequence true verb = .ok (n',index)) : Touched start n' (touched ++ [key]) := by
  intro other
  rw [List.mem_append,List.mem_singleton]
  by_cases same : other = key
  · subst same
    simp only [or_true,and_true]
    rcases locateSource ok with ⟨rfl,live⟩ | ⟨idle,unborn,rfl,_⟩
    · cases origin : n'.originByKey other with
      | some position =>
        obtain ⟨lineage,found,born⟩ := (inv.origin other position).mp origin
        simp [(inv.each position lineage found).born other born]
      | none => simp [inv.fresh other (by simp [live]) origin]
    · simp [Normalizer.newBaseline,← inv.untouched other idle unborn,present]
  · rw [locateOrigins inv ok same,touches other]
    simp [same]

theorem pushTouched (distinct : AttnumsDistinct schema) (keyed : Keyed schema start) (touches : Touched start n touched)
    {change table'} (event : Event schema table change.change table') (ok : n.push change = .ok n') :
    Touched start n' (touched ++ (touchedKey? schema change.change).toList) := by
  obtain ⟨_,ok⟩ := iteOk.mp ok
  obtain ⟨_,ok⟩ := iteOk.mp ok
  have inv := foldedSequence inv (Normalizer.nextSequence n.sequence)
  have touches : Touched start {n with sequence := Normalizer.nextSequence n.sequence} touched := touches
  cases kind : change.change with
  | insert new =>
    rw [kind] at event ok
    obtain ⟨full,_,_,absent⟩ := event
    have origins : n'.originByKey = n.originByKey := by
      obtain ⟨_,_,⟨_,_,_,_,_,rewrites⟩ | ⟨_,appends⟩⟩ := insertSource inv full ok
      · exact rewrites.origins
      · exact appends.origins
    intro key
    rw [origins]
    simpa [touchedKey?] using touches key
  | update old new =>
    rw [kind] at event ok
    obtain _ | ⟨explicit,updated,present,arity,free⟩ := event
    obtain ⟨_,m,index,lineage,located,_,_,_,_,rewrites⟩ :=
      updateRewrites distinct inv keyed explicit updated present arity free ok
    intro key
    rw [rewrites.origins]
    simpa [touchedKey?,explicit,updated] using locateTouched inv touches present located key
  | delete old =>
    rw [kind] at event ok
    obtain _ | _ | ⟨explicit,present⟩ := event
    obtain ⟨key,m,index,read,located,rfl⟩ := deleteSource distinct inv ok
    cases Option.some.inj (explicit.symm.trans read)
    intro other
    simpa [touchedKey?,explicit,kill] using locateTouched inv touches present located other

end Step

section Run
variable {schema : TableSchema} (distinct : AttnumsDistinct schema) {start : List Row} (content : IsTable schema start)
include distinct content

theorem pushExact {past : List TableChange} {rows rows' : List Row} {n : Normalizer} {change : TableChange}
    (table : IsTable schema rows) (inv : Folded schema (find schema start) (find schema rows) n)
    (tracks : Tracks (find schema start) n (descent schema start past))
    (touches : Touched (find schema start) n (touchedKeys schema past))
    (replayed : replayChange schema rows change = some rows') (plain : PlainTuples change.change) :
    (ReusesStartKey schema start past change.change → n.push change = .error reusedStartKey) ∧
      (¬ ReusesStartKey schema start past change.change → ∃ n', n.push change = .ok n') := by
  obtain ⟨_,relation,generation,event⟩ := replayChangeSource distinct table replayed
  generalize find schema rows' = table' at event
  have sameSchema : n.schema = schema := inv.sameSchema
  have inv := foldedSequence inv (Normalizer.nextSequence n.sequence)
  have reads : n.push change = match change.change with
      | .insert new => Normalizer.insert {n with sequence := Normalizer.nextSequence n.sequence} new n.sequence
      | .update old new => Normalizer.update {n with sequence := Normalizer.nextSequence n.sequence} old new n.sequence
      | .delete old => Normalizer.delete {n with sequence := Normalizer.nextSequence n.sequence} old n.sequence := by
    have sameRelation : ¬ change.relationId ≠ n.schema.relationId := not_not.mpr (sameSchema ▸ relation)
    have sameGeneration : ¬ change.generation ≠ n.schema.generation := not_not.mpr (sameSchema ▸ generation)
    exact (if_neg sameRelation).trans (if_neg sameGeneration)
  rw [reads]
  cases kind : change.change with
  | insert new =>
    rw [kind] at event plain
    obtain ⟨full,arity,complete,absent⟩ := event
    exact ⟨False.elim,fun _ => insertRead inv full arity plain complete absent⟩
  | update old new =>
    rw [kind] at event plain
    obtain _ | ⟨explicit,updated,present,arity,free⟩ := event
    have decided := @updateExact _ _ _ _ _ inv distinct (keyedFind content) _ _ (fun key => memStartKeys content.unique)
      tracks touches _ _ n.sequence _ _ _ explicit updated present arity plain free
    have same : ReusesStartKey schema start past (.update old new) ↔ _ :=
      ⟨fun ⟨oldKey,newKey,explicit',updated',rest⟩ => by
        cases Option.some.inj (explicit.symm.trans explicit')
        cases Option.some.inj (updated.symm.trans updated')
        exact rest,fun rest => ⟨_,_,explicit,updated,rest⟩⟩
    rw [same]
    exact decided
  | delete old =>
    rw [kind] at event
    obtain _ | _ | ⟨explicit,present⟩ := event
    exact ⟨False.elim,fun _ => deleteRead inv distinct explicit present⟩

theorem foldExact (changes : List TableChange) : ∀ {past rows rows' n}, IsTable schema rows →
    Folded schema (find schema start) (find schema rows) n →
    Tracks (find schema start) n (descent schema start past) →
    Touched (find schema start) n (touchedKeys schema past) → replay schema rows changes = some rows' →
    (∀ change ∈ changes, PlainTuples change.change) → ∀ error, changes.foldlM Normalizer.push n = .error error ↔
      error = reusedStartKey ∧ ∃ middle change rest, changes = middle ++ change :: rest ∧
        ReusesStartKey schema start (past ++ middle) change.change := by
  induction changes with
  | nil =>
    intro past rows rows' n _ _ _ _ _ _ error
    simp [pure,Except.pure]
  | cons change changes ih =>
    intro past rows rows' n table inv tracks touches replayed plain error
    obtain ⟨middle,first,replayed⟩ := Option.bind_eq_some_iff.mp replayed
    obtain ⟨here,rest⟩ := List.forall_mem_cons.mp plain
    obtain ⟨refused,taken⟩ := pushExact distinct content table inv tracks touches first here
    rw [List.foldlM_cons]
    by_cases reuses : ReusesStartKey schema start past change.change
    · rw [refused reuses]
      constructor
      · intro failed
        exact ⟨(Except.error.inj failed).symm,[],change,changes,rfl,by simpa using reuses⟩
      · intro ⟨same,_⟩
        rw [same]
        rfl
    · obtain ⟨n',pushed⟩ := taken reuses
      obtain ⟨table',_,_,event⟩ := replayChangeSource distinct table first
      have started (key : Key) : key ∈ startKeys schema start ↔ (find schema start key).isSome :=
        memStartKeys content.unique
      have next := @ih (past ++ [change]) middle rows' n' table' (pushFolded distinct inv (keyedFind content) event pushed)
        (by simpa [descent] using pushTracks distinct inv (keyedFind content) started tracks event pushed)
        (touchedSnoc schema past change ▸ pushTouched inv distinct (keyedFind content) touches event pushed)
        replayed rest error
      rw [pushed]
      refine next.trans (and_congr_right fun _ => ?_)
      constructor
      · intro ⟨middle,other,rest,split,reuse⟩
        exact ⟨change :: middle,other,rest,by rw [split]; rfl,by simpa using reuse⟩
      · intro ⟨middle,other,rest,split,reuse⟩
        cases middle with
        | nil =>
          cases List.cons.inj split with
          | intro same _ =>
            subst same
            exact absurd (by simpa using reuse) reuses
        | cons head middle =>
          obtain ⟨same,tail⟩ := List.cons.inj split
          subst same
          exact ⟨middle,other,rest,tail,by simpa using reuse⟩

end Run

theorem finishRead {schema : TableSchema} {start table : Key → Option Row} {n : Normalizer}
    (inv : Folded schema start table n) : ∃ rows, n.finish = .ok rows := by
  have each (lineage : Lineage) (mem : lineage ∈ n.sortedLineages) : ∃ row, n.stagingRow lineage = .ok row := by
    obtain ⟨index,found⟩ := List.getElem?_of_mem ((List.mem_insertionSort _).mp mem)
    have ok := inv.each index lineage found
    unfold Normalizer.stagingRow
    split
    · exact ⟨_,rfl⟩
    next born _ =>
      unfold Normalizer.insertedStagingRow
      rw [requireCompleteRead (ok.complete born)]
      exact ⟨_,rfl⟩
    · split
      · exact ⟨_,rfl⟩
      · exact ⟨_,rfl⟩
    · split
      · exact ⟨_,rfl⟩
      · exact ⟨_,rfl⟩
  cases mapped : n.sortedLineages.mapM n.stagingRow with
  | ok rows => exact ⟨rows.filterMap id,bindOk.mpr ⟨rows,mapped,rfl⟩⟩
  | error error =>
    obtain ⟨lineage,mem,failed⟩ := mapMError mapped
    obtain ⟨row,given⟩ := each lineage mem
    rw [given] at failed
    contradiction

/-- On a history that replays from the batch start, with new tuples that hold no binary cell, the normalizer fails
exactly when an update reuses a start key that the batch has touched, and with no other error than that one. -/
theorem rejectedIffConflict {schema : TableSchema} (distinct : AttnumsDistinct schema)
    (supported : schema.validateSupported = .ok ()) (content : TableContent schema) {changes final}
    (replayed : replay schema content.rows changes = some final)
    (plain : ∀ change ∈ changes, PlainTuples change.change) (error : NormalizeError) :
    normalizeTableChanges schema changes = .error error ↔
      error = .ambiguousSequence "primary-key update reuses another batch-start key" ∧
        Conflict schema content.rows changes := by
  have fold := @foldExact schema distinct content.rows content.valid changes [] _ _ _ content.valid (foldedStart schema _)
    (startTracks content.valid) (by simp [Touched,Normalizer.new,touchedKeys]) replayed plain error
  simp only [List.nil_append] at fold
  refine Iff.trans ?_ fold
  unfold normalizeTableChanges
  rw [supported]
  simp only [Except.mapError,bind,Except.bind]
  cases folded : changes.foldlM Normalizer.push (.new schema) with
  | error => simp
  | ok n =>
    obtain ⟨_,inv⟩ := runFolded distinct (keyedFind content.valid) changes content.valid (foldedStart schema _) replayed
      folded
    obtain ⟨rows,finished⟩ := finishRead inv
    simp [finished]

def twoAccounts : TableContent FoldRefines.accounts :=
  ⟨[[some [49],some [97]],[some [50],some [98]]],by decide,by decide,by decide⟩

def takeLeftKey : List TableChange :=
  [⟨16385,1,.update (some ⟨[.text [49]]⟩) ⟨[.text [51],.unchangedToast]⟩⟩,
   ⟨16385,1,.update (some ⟨[.text [50]]⟩) ⟨[.text [49],.unchangedToast]⟩⟩]

theorem takeLeftKeyRejected : (replay FoldRefines.accounts twoAccounts.rows takeLeftKey).isSome ∧
    normalizeTableChanges FoldRefines.accounts takeLeftKey =
      .error (.ambiguousSequence "primary-key update reuses another batch-start key") := by
  obtain ⟨final,replayed⟩ : ∃ final, replay FoldRefines.accounts twoAccounts.rows takeLeftKey = some final :=
    Option.isSome_iff_exists.mp (by decide +kernel)
  refine ⟨Option.isSome_iff_exists.mpr ⟨final,replayed⟩,(rejectedIffConflict (by decide) (by decide) twoAccounts replayed
    (by decide) _).mpr ⟨rfl,[takeLeftKey[0]],takeLeftKey[1],[],rfl,some [[50]],[[49]],?_⟩⟩
  decide +kernel

end CloudberryEtl.Rejection
