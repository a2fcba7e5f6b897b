import CloudberryEtl.FoldInvariant

/-! One event keeps the invariant of the fold, and so does a whole batch: when the events replay on the batch-start
table and the normalizer accepts them, the lineages describe the replayed table. -/
namespace CloudberryEtl.FoldStep
open Schema Change StagedApply KeyedTable Result Normalize KeyLayout Replay FoldInvariant

def Keyed (schema : TableSchema) (table : Key → Option Row) : Prop :=
  ∀ key row, table key = some row → row.length = schema.columns.length ∧ rowKey schema row = key.map some

theorem keyedFind {schema rows} (table : IsTable schema rows) : Keyed schema (find schema rows) :=
  fun _ row found => ⟨table.width row (findRow found).1,(findRow found).2⟩

theorem patchCellMem {stored incoming : List Cell} {cell} (mem : cell ∈ List.zipWith patchCell stored incoming) :
    (cell ∈ incoming ∧ cell ≠ .unchangedToast) ∨ cell ∈ stored := by
  obtain ⟨index,found⟩ := List.getElem?_of_mem mem
  obtain ⟨s,i,hs,hi,rfl⟩ := List.getElem?_zipWith_eq_some.mp found
  unfold patchCell
  split
  · exact .inr (List.mem_of_getElem? hs)
  · rename_i present
    exact .inl ⟨List.mem_of_getElem? hi,present⟩

theorem validateNewTupleSource {schema tuple kind} (ok : validateNewTuple schema tuple kind = .ok ()) :
    tuple.cells.length = schema.columns.length ∧ ∀ octets, Cell.binary octets ∉ tuple.cells := by
  obtain ⟨arity,ok⟩ := iteOk.mp ok
  split at ok <;> try contradiction
  rename_i none'
  refine ⟨not_not.mp arity,fun octets mem => ?_⟩
  have absent := List.findIdx?_eq_none_iff.mp none' _ mem
  simp at absent

section Steps
variable {schema : TableSchema} {start table : Key → Option Row} {n n' : Normalizer}

theorem foldedSequence (inv : Folded schema start table n) (sequence : Nat) :
    Folded schema start table {n with sequence := sequence} :=
  ⟨inv.sameSchema,inv.sameLayout,inv.current,inv.origin,inv.each,inv.vacated,inv.untouched,inv.fresh,inv.moved⟩

theorem placePresent {α : Type} {map : Key → Option α} {key : Key} {value : α} (present : map key = some value) :
    place map (some key) value = map := by
  rw [place,← present,Function.update_eq_self]

theorem replacePresent {α : Type} {map : Key → Option α} {key : Key} {value : α} (present : map key = some value) :
    place (clear map (some key)) (some key) value = map := by
  rw [place,clear,Function.update_idem,← present,Function.update_eq_self]

theorem baselineAppends {key} (idle : n.currentByKey key = none) (unborn : n.originByKey key = none) (sequence : Nat) :
    Appends n (n.newBaseline key sequence true).1 key ⟨some key,some key,n.baselineCells key,sequence⟩ :=
  ⟨rfl,rfl,rfl,rfl,rfl,rfl,idle,fun _ same => ⟨(Option.some.inj same).symm,unborn⟩⟩

theorem newBaselineFolded (distinct : AttnumsDistinct schema) (keyed : Keyed schema start)
    (inv : Folded schema start table n) {key row} (idle : n.currentByKey key = none) (unborn : n.originByKey key = none)
    (present : table key = some row) (sequence : Nat) :
    Folded schema start table (n.newBaseline key sequence true).1 ∧
      ∃ lineage, (n.newBaseline key sequence true).1.lineages[n.lineages.length]? = some lineage ∧
        lineage.currentKey = some key := by
  have origin : start key = some row := (inv.untouched key idle unborn).symm.trans present
  obtain ⟨width,named⟩ := keyed key row origin
  have lengths : key.length = (keyPositions schema).length := by
    simpa [rowKey] using (congrArg List.length named).symm
  have cells : n.baselineCells key = baseline schema key := by
    rw [Normalizer.baselineCells,inv.sameSchema,inv.sameLayout,baseline]
  let new : Lineage := ⟨some key,some key,n.baselineCells key,sequence⟩
  have appends : Appends n (n.newBaseline key sequence true).1 key new := baselineAppends idle unborn sequence
  have ok : LineageOk schema start (place table (some key) row) new := by
    refine ⟨?_,?_,fun absent => by simp [new] at absent,?_,?_,?_⟩
    · simp only [new,cells,baselineLength]
    · simpa only [new,cells] using baselinePlain distinct lengths
    · rintro other ⟨⟩
      simp [origin]
    · rintro other ⟨⟩
      simpa only [new,cells] using baselineKey distinct lengths
    · rintro other ⟨⟩
      refine ⟨row,width,fun other same => Option.some.inj same ▸ origin,?_⟩
      rw [placeSelf]
      simp only [new,cells,patchBaseline distinct width named]
  have folded := foldedAppend inv appends row ok (fun absent => by simp [new] at absent)
  rw [placePresent present] at folded
  exact ⟨folded,new,by simp [Normalizer.newBaseline,new],rfl⟩

theorem locateSource {key sequence verb index} (ok : n.locate key sequence true verb = .ok (n',index)) :
    (n' = n ∧ n.currentByKey key = some index) ∨
      (n.currentByKey key = none ∧ n.originByKey key = none ∧ n' = (n.newBaseline key sequence true).1 ∧
        index = n.lineages.length) := by
  unfold Normalizer.locate at ok
  split at ok
  · rename_i position live
    cases Except.ok.inj ok
    exact .inl ⟨rfl,live⟩
  · rename_i idle
    obtain ⟨unborn,ok⟩ := iteOk.mp ok
    obtain ⟨sameState,sameIndex⟩ := Prod.ext_iff.mp (Except.ok.inj ok)
    exact .inr ⟨idle,by simpa using unborn,sameState.symm,sameIndex.symm⟩

theorem locateFolded (distinct : AttnumsDistinct schema) (keyed : Keyed schema start)
    (inv : Folded schema start table n) {key row sequence verb index} (present : table key = some row)
    (ok : n.locate key sequence true verb = .ok (n',index)) :
    Folded schema start table n' ∧ ∃ lineage, n'.lineages[index]? = some lineage ∧ lineage.currentKey = some key := by
  rcases locateSource ok with ⟨rfl,live⟩ | ⟨idle,unborn,rfl,rfl⟩
  · exact ⟨inv,(inv.current key index).mp live⟩
  · exact newBaselineFolded distinct keyed inv idle unborn present sequence

theorem explicitSource (distinct : AttnumsDistinct schema) {old oldKey}
    (ok : old.mapM (keyFromOldTuple schema (.new schema)) = .ok oldKey) : explicitOldKey schema old = some oldKey := by
  cases old with
  | none => cases Except.ok.inj ok; rfl
  | some tuple =>
    obtain ⟨key,read,ok⟩ := bindOk.mp ok
    cases Except.ok.inj ok
    simp [explicitOldKey,keyFromOldTupleSource distinct read]

theorem insertSource (inv : Folded schema start table n) {new sequence key}
    (full : fullKey schema new.cells = some key) (ok : n.insert new sequence = .ok n') :
    n.currentByKey key = none ∧ (∀ octets, Cell.binary octets ∉ new.cells) ∧
      ((∃ index lineage, n.lineages[index]? = some lineage ∧ lineage.originKey = some key ∧ lineage.currentKey = none ∧
          Rewrites n n' index lineage {lineage with currentKey := some key, cells := new.cells}) ∨
        (n.revivable key = none ∧ Appends n n' key ⟨none,some key,new.cells,sequence⟩)) := by
  obtain ⟨_,valid,ok⟩ := bindOk.mp ok
  obtain ⟨_,_,ok⟩ := bindOk.mp ok
  obtain ⟨other,read,ok⟩ := bindOk.mp ok
  obtain ⟨idle,ok⟩ := iteOk.mp ok
  rw [inv.sameSchema,inv.sameLayout] at read
  cases Option.some.inj (full.symm.trans (keyFromFullTupleSource read))
  have idle : n.currentByKey key = none := by simpa using idle
  refine ⟨idle,(validateNewTupleSource valid).2,?_⟩
  split at ok
  · rename_i index revivable
    obtain ⟨born,dead⟩ := Option.filter_eq_some_iff.mp revivable
    obtain ⟨lineage,found,origin⟩ := (inv.origin key index).mp born
    have dead : lineage.currentKey = none := by simpa [found] using dead
    cases Except.ok.inj ok
    refine .inl ⟨index,lineage,found,origin,dead,rfl,rfl,rfl,by rw [dead]; rfl,fun position other => ?_,rfl⟩
    simp [modifyAt,found]
  · rename_i revivable
    cases Except.ok.inj ok
    exact .inr ⟨revivable,rfl,rfl,rfl,rfl,rfl,rfl,idle,fun _ absurd => by simp at absurd⟩

theorem insertFolded (inv : Folded schema start table n) (keyed : Keyed schema start) {new sequence table'}
    (event : Event schema table (.insert new) table') (ok : n.insert new sequence = .ok n') :
    Folded schema start table' n' := by
  obtain ⟨full,arity,complete,absent⟩ := event
  rename_i key
  obtain ⟨idle,plain,⟨index,lineage,found,origin,dead,rewrites⟩ | ⟨_,appends⟩⟩ := insertSource inv full ok
  · have before := inv.each index lineage found
    obtain ⟨row,base⟩ := Option.isSome_iff_exists.mp (before.born key origin)
    have width := (keyed key row base).1
    have folded := foldedRewrite inv found rewrites (fun _ same => Option.some.inj same ▸ .inr ⟨idle,.inr origin,absent⟩)
      (newRow new.cells) (by
        refine ⟨arity,plain,fun _ => complete,before.born,?_,?_⟩
        · rintro k ⟨⟩
          exact fullKeyIff.mp full
        · rintro k ⟨⟩
          refine ⟨row,width,fun other same => ?_,?_⟩
          · cases Option.some.inj (origin.symm.trans same)
            exact base
          · rw [placeSelf]
            exact congrArg some (patchRowComplete complete (by simp [arity,width])))
    rwa [dead] at folded
  · refine foldedAppend inv appends (newRow new.cells) ?_ ?_
    · refine ⟨arity,plain,fun _ => complete,fun k absurd => by simp at absurd,?_,?_⟩
      · rintro k ⟨⟩
        exact fullKeyIff.mp full
      · rintro k ⟨⟩
        exact ⟨List.replicate new.cells.length none,by simpa using arity,
          fun k absurd => by simp at absurd,placeSelf ..⟩
    · intro _ unborn
      exact (inv.untouched key idle unborn).symm.trans absent

theorem rewriteSource {index incoming lineage key} (inv : Folded schema start table n)
    (found : n.lineages[index]? = some lineage) (live : lineage.currentKey = some key)
    (ok : n.rewrite index incoming = .ok n') : ∃ finalKey,
      fullKey schema (List.zipWith patchCell lineage.cells incoming) = some finalKey ∧
      ((finalKey = key ∧ n' = n.patch index incoming) ∨
        (finalKey ≠ key ∧ (n.currentByKey finalKey).any (· ≠ index) = false ∧
          (n.originByKey finalKey).any (· ≠ index) = false ∧
          n' = (n.patch index incoming).rekey index key finalKey)) := by
  have patchedAt : (n.patch index incoming).lineages[index]? =
      some {lineage with cells := List.zipWith patchCell lineage.cells incoming} := by
    simp [Normalizer.patch,found]
  unfold Normalizer.rewrite at ok
  simp only [patchedAt,live] at ok
  obtain ⟨finalKey,read,result⟩ := bindOk.mp ok
  rw [show (n.patch index incoming).schema = schema from inv.sameSchema,
    show (n.patch index incoming).primaryKey = .new schema from inv.sameLayout] at read
  refine ⟨finalKey,keyFromCellsSource read,?_⟩
  split at result
  · rename_i same
    exact .inl ⟨same,(Except.ok.inj result).symm⟩
  · rename_i moves
    obtain ⟨noLive,result⟩ := iteOk.mp result
    obtain ⟨noOrigin,result⟩ := iteOk.mp result
    exact .inr ⟨moves,by simpa [Normalizer.patch] using noLive,by simpa [Normalizer.patch] using noOrigin,
      (Except.ok.inj result).symm⟩

theorem updateSource (distinct : AttnumsDistinct schema) (inv : Folded schema start table n) {old new sequence}
    (ok : n.update old new sequence = .ok n') : (∀ octets, Cell.binary octets ∉ new.cells) ∧
      ∃ oldKey newKey m index, explicitOldKey schema old = some oldKey ∧
        updateKey schema oldKey new.cells = some newKey ∧
        n.locate (oldKey.getD newKey) sequence true "update" = .ok (m,index) ∧ m.rewrite index new.cells = .ok n' := by
  obtain ⟨_,valid,rest⟩ := bindOk.mp ok
  obtain ⟨oldKey,readOld,rest⟩ := bindOk.mp rest
  obtain ⟨newKey,readNew,rest⟩ := bindOk.mp rest
  obtain ⟨⟨m,index⟩,located,rest⟩ := bindOk.mp rest
  rw [inv.sameSchema,inv.sameLayout] at readOld readNew
  exact ⟨(validateNewTupleSource valid).2,oldKey,newKey,m,index,explicitSource distinct readOld,
    keyFromUpdateTupleSource readNew,located,rest⟩

theorem patchedOk {lineage rewritten : Lineage} {incoming base key table'} (before : LineageOk schema start table lineage)
    (arity : incoming.length = schema.columns.length) (plain : ∀ octets, Cell.binary octets ∉ incoming)
    (width : base.length = schema.columns.length)
    (origin : ∀ origin, lineage.originKey = some origin → start origin = some base)
    (cells : rewritten.cells = List.zipWith patchCell lineage.cells incoming)
    (sameOrigin : rewritten.originKey = lineage.originKey) (live : rewritten.currentKey = some key)
    (named : fullKey schema rewritten.cells = some key)
    (value : table' key = some (patchRow incoming (patchRow lineage.cells base))) :
    LineageOk schema start table' rewritten := by
  refine ⟨by simp [cells,before.arity,arity],fun octets mem => ?_,fun absent toast => ?_,?_,?_,?_⟩
  · rw [cells] at mem
    rcases patchCellMem mem with ⟨mem,_⟩ | mem
    · exact plain octets mem
    · exact before.plain octets mem
  · rw [cells] at toast
    rcases patchCellMem toast with ⟨_,absurd⟩ | mem
    · exact absurd rfl
    · exact before.complete (sameOrigin.symm.trans absent) mem
  · rw [sameOrigin]; exact before.born
  · intro other same
    cases Option.some.inj (live.symm.trans same)
    exact fullKeyIff.mp named
  · intro other same
    cases Option.some.inj (live.symm.trans same)
    exact ⟨base,width,by rw [sameOrigin]; exact origin,by rw [value,cells,patchRowPatch]⟩

theorem rekeyFree (inv : Folded schema start table n) {index lineage key finalKey}
    (found : n.lineages[index]? = some lineage) (live : lineage.currentKey = some key) (moves : finalKey ≠ key)
    (noLive : (n.currentByKey finalKey).any (· ≠ index) = false)
    (noOrigin : (n.originByKey finalKey).any (· ≠ index) = false) (absent : table finalKey = none) :
    Free n table lineage finalKey := by
  refine .inr ⟨?_,?_,absent⟩
  · cases other : n.currentByKey finalKey with
    | none => rfl
    | some position =>
      have same : position = index := by simpa [other] using noLive
      subst same
      obtain ⟨here,foundHere,liveHere⟩ := (inv.current finalKey position).mp other
      cases Option.some.inj (found.symm.trans foundHere)
      exact absurd (Option.some.inj (live.symm.trans liveHere)).symm moves
  · cases other : n.originByKey finalKey with
    | none => exact .inl rfl
    | some position =>
      have same : position = index := by simpa [other] using noOrigin
      subst same
      obtain ⟨here,foundHere,bornHere⟩ := (inv.origin finalKey position).mp other
      cases Option.some.inj (found.symm.trans foundHere)
      exact .inr bornHere

theorem updateRewrites (distinct : AttnumsDistinct schema) (inv : Folded schema start table n)
    (keyed : Keyed schema start) {old new sequence oldKey newKey row} (explicit : explicitOldKey schema old = some oldKey)
    (updated : updateKey schema oldKey new.cells = some newKey) (present : table (oldKey.getD newKey) = some row)
    (arity : new.cells.length = schema.columns.length) (free : newKey = oldKey.getD newKey ∨ table newKey = none)
    (ok : n.update old new sequence = .ok n') : (∀ octets, Cell.binary octets ∉ new.cells) ∧
      ∃ m index lineage, n.locate (oldKey.getD newKey) sequence true "update" = .ok (m,index) ∧
        m.lineages[index]? = some lineage ∧ lineage.currentKey = some (oldKey.getD newKey) ∧
        fullKey schema (List.zipWith patchCell lineage.cells new.cells) = some newKey ∧ Free m table lineage newKey ∧
        Rewrites m n' index lineage
          {lineage with currentKey := some newKey, cells := List.zipWith patchCell lineage.cells new.cells} := by
  obtain ⟨plain,oldKey',newKey',m,index,readOld,readNew,located,rewritten⟩ := updateSource distinct inv ok
  cases Option.some.inj (explicit.symm.trans readOld)
  cases Option.some.inj (updated.symm.trans readNew)
  obtain ⟨after,lineage,found,live⟩ := locateFolded distinct keyed inv present located
  have before := after.each index lineage found
  obtain ⟨base,width,origin,value⟩ := before.value _ live
  cases Option.some.inj (present.symm.trans value)
  obtain ⟨finalKey,final,result⟩ := rewriteSource after found live rewritten
  -- the key read back from the patched cells is the key the event announces
  have sameKey : finalKey = newKey := by
    have rowNamed := rowKeyPatch distinct before.arity width (before.named _ live)
    have newNamed := rowKeyUpdate distinct arity ((patchRowLength (before.arity.trans width.symm)).trans width)
      updated rowNamed
    have patchedArity : (List.zipWith patchCell lineage.cells new.cells).length = schema.columns.length := by
      simp [before.arity,arity]
    rw [← patchRowPatch,rowKeyPatch distinct patchedArity width (fullKeyIff.mp final)] at newNamed
    exact keySomeInjective newNamed
  subst sameKey
  refine ⟨plain,m,index,lineage,located,found,live,final,?_⟩
  rcases result with ⟨same,rfl⟩ | ⟨moves,noLive,noOrigin,rfl⟩
  · have stays : lineage.currentKey = some finalKey := live.trans (congrArg some same.symm)
    refine ⟨.inl stays,rfl,rfl,rfl,?_,fun position other => ?_,rfl⟩
    · rw [stays]
      exact (replacePresent (currentOf after found stays)).symm
    · simp [Normalizer.patch,modifyAt,found,stays]
  · refine ⟨rekeyFree after found live moves noLive noOrigin (free.resolve_left moves),rfl,rfl,rfl,by rw [live]; rfl,
      fun position other => ?_,rfl⟩
    by_cases here : position = index
    · simp [Normalizer.rekey,Normalizer.patch,found,here,eq_comm]
    · simp [Normalizer.rekey,Normalizer.patch,modifyAt,here]

theorem updateFolded (distinct : AttnumsDistinct schema) (inv : Folded schema start table n) (keyed : Keyed schema start)
    {old new sequence table'} (event : Event schema table (.update old new) table')
    (ok : n.update old new sequence = .ok n') : Folded schema start table' n' := by
  obtain _ | ⟨explicit,updated,present,arity,free⟩ := event
  rename_i oldKey newKey row
  obtain ⟨plain,m,index,lineage,located,found,live,final,available,rewrites⟩ :=
    updateRewrites distinct inv keyed explicit updated present arity free ok
  obtain ⟨after,_⟩ := locateFolded distinct keyed inv present located
  have before := after.each index lineage found
  obtain ⟨base,width,origin,value⟩ := before.value _ live
  cases Option.some.inj (present.symm.trans value)
  have folded := foldedRewrite after found rewrites (fun key here => Option.some.inj here ▸ available)
    (patchRow new.cells (patchRow lineage.cells base))
    (patchedOk before arity plain width origin rfl rfl rfl final (placeSelf ..))
  rwa [live] at folded

def kill (n : Normalizer) (index : Nat) (key : Key) : Normalizer :=
  {n with
    currentByKey := Function.update n.currentByKey key none
    lineages := n.lineages.modify index (fun lineage => {lineage with currentKey := none})}

theorem killBaseline (n : Normalizer) (key : Key) (sequence : Nat) :
    kill (n.newBaseline key sequence false).1 n.lineages.length key =
      kill (n.newBaseline key sequence true).1 n.lineages.length key := by
  simp [kill,Normalizer.newBaseline,Function.update_idem,List.modify_eq_take_drop]

theorem deleteSource (distinct : AttnumsDistinct schema) (inv : Folded schema start table n) {old sequence}
    (ok : n.delete old sequence = .ok n') : ∃ key m index, oldTupleKey schema old = some key ∧
      n.locate key sequence true "delete" = .ok (m,index) ∧ n' = kill m index key := by
  obtain ⟨key,read,rest⟩ := bindOk.mp ok
  obtain ⟨⟨m,index⟩,located,rest⟩ := bindOk.mp rest
  rw [inv.sameSchema,inv.sameLayout] at read
  have result : n' = kill m index key := (Except.ok.inj rest).symm
  have old := keyFromOldTupleSource distinct read
  unfold Normalizer.locate at located
  cases live : n.currentByKey key with
  | some position =>
    simp only [live] at located
    cases Except.ok.inj located
    exact ⟨key,n,index,old,by simp [Normalizer.locate,live],result⟩
  | none =>
    simp only [live] at located
    obtain ⟨unborn,located⟩ := iteOk.mp located
    obtain ⟨rfl,rfl⟩ := Prod.ext_iff.mp (Except.ok.inj located)
    refine ⟨key,(n.newBaseline key sequence true).1,n.lineages.length,old,?_,result.trans (killBaseline n key sequence)⟩
    simp only [Normalizer.locate,live,if_neg unborn]
    rfl

theorem killRewrites {index lineage key} (found : n.lineages[index]? = some lineage)
    (live : lineage.currentKey = some key) :
    Rewrites n (kill n index key) index lineage {lineage with currentKey := none} := by
  refine ⟨rfl,rfl,rfl,by rw [live]; rfl,fun position other => ?_,rfl⟩
  simp [kill,modifyAt,found]

theorem deleteFolded (distinct : AttnumsDistinct schema) (inv : Folded schema start table n) (keyed : Keyed schema start)
    {old sequence table'} (event : Event schema table (.delete old) table')
    (ok : n.delete old sequence = .ok n') : Folded schema start table' n' := by
  obtain _ | _ | ⟨explicit,present⟩ := event
  rename_i key row
  obtain ⟨other,m,index,read,located,rfl⟩ := deleteSource distinct inv ok
  cases Option.some.inj (explicit.symm.trans read)
  obtain ⟨after,lineage,found,live⟩ := locateFolded distinct keyed inv present located
  have before := after.each index lineage found
  have folded := foldedRewrite after found (killRewrites found live) (fun _ absurd => by simp at absurd) []
    ⟨before.arity,before.plain,before.complete,before.born,fun _ absurd => by simp at absurd,
      fun _ absurd => by simp at absurd⟩
  rwa [live] at folded

theorem pushFolded (distinct : AttnumsDistinct schema) (inv : Folded schema start table n) (keyed : Keyed schema start)
    {change table'} (event : Event schema table change.change table') (ok : n.push change = .ok n') :
    Folded schema start table' n' := by
  obtain ⟨_,ok⟩ := iteOk.mp ok
  obtain ⟨_,ok⟩ := iteOk.mp ok
  have inv := foldedSequence inv (Normalizer.nextSequence n.sequence)
  cases kind : change.change with
  | insert new => rw [kind] at event ok; exact insertFolded inv keyed event ok
  | update old new => rw [kind] at event ok; exact updateFolded distinct inv keyed event ok
  | delete old => rw [kind] at event ok; exact deleteFolded distinct inv keyed event ok

end Steps

/-- A batch that replays and that the normalizer accepts leaves lineages that describe the replayed table. -/
theorem runFolded {schema : TableSchema} (distinct : AttnumsDistinct schema) {start : Key → Option Row}
    (keyed : Keyed schema start) (changes : List TableChange) : ∀ {rows rows' n n'}, IsTable schema rows →
      Folded schema start (find schema rows) n → replay schema rows changes = some rows' →
      changes.foldlM Normalizer.push n = .ok n' →
      IsTable schema rows' ∧ Folded schema start (find schema rows') n' := by
  induction changes with
  | nil =>
    intro rows rows' n n' table inv replayed folded
    cases Option.some.inj replayed
    cases Except.ok.inj folded
    exact ⟨table,inv⟩
  | cons change changes ih =>
    intro rows rows' n n' table inv replayed folded
    obtain ⟨middle,first,replayed⟩ := Option.bind_eq_some_iff.mp replayed
    obtain ⟨m,pushed,folded⟩ := bindOk.mp folded
    obtain ⟨table',_,_,event⟩ := replayChangeSource distinct table first
    exact ih table' (pushFolded distinct inv keyed event pushed) replayed folded

end CloudberryEtl.FoldStep
