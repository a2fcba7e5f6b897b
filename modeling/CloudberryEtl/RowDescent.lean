import CloudberryEtl.FoldRefines

/-! Which row of the batch-start table each row stands for while the changes run, and how the normalizer's lineages
record it. -/
namespace CloudberryEtl.RowDescent
open Schema Change TablePlan CopyText StagedApply SqlLogic KeyedTable Result Normalize KeyLayout Replay StagedSteps
open SetStatements BatchValidation FoldedBatch FoldInvariant FoldStep FoldRefines

/- Which row of the batch-start table each row stands for, as pairs of its current and its batch-start key. A row
inserted under the key of a batch-start row that is gone stands for that row. -/
abbrev Descent := List (Key × Key)

def startKeys (schema : TableSchema) (rows : List Row) : List Key :=
  rows.filterMap (fun row => (rowKey schema row).mapM id)

def insertDescent (starts : List Key) (pairs : Descent) (key : Key) : Descent :=
  if key ∈ starts ∧ ∀ pair ∈ pairs, pair.2 ≠ key then (key,key) :: pairs else pairs

def updateDescent (pairs : Descent) (oldKey newKey : Key) : Descent :=
  pairs.map (fun pair => if pair.1 = oldKey then (newKey,pair.2) else pair)

def deleteDescent (pairs : Descent) (key : Key) : Descent := pairs.filter (fun pair => pair.1 ≠ key)

def descend (schema : TableSchema) (starts : List Key) (pairs : Descent) : RowChange → Descent
  | .insert new => ((fullKey schema new.cells).map (insertDescent starts pairs)).getD pairs
  | .update old new => ((explicitOldKey schema old).bind (fun oldKey =>
      (updateKey schema oldKey new.cells).map (fun newKey => updateDescent pairs (oldKey.getD newKey) newKey))).getD pairs
  | .delete old => ((oldTupleKey schema old).map (deleteDescent pairs)).getD pairs

def descent (schema : TableSchema) (rows : List Row) (changes : List TableChange) : Descent :=
  changes.foldl (fun pairs change => descend schema (startKeys schema rows) pairs change.change)
    ((startKeys schema rows).map (fun key => (key,key)))

def Stands (start : Key → Option Row) (n : Normalizer) (current origin : Key) : Prop :=
  (∃ (index : Nat) (lineage : Lineage), n.lineages[index]? = some lineage ∧ lineage.currentKey = some current ∧
      lineage.originKey = some origin) ∨
    (current = origin ∧ (start origin).isSome ∧ n.currentByKey origin = none ∧ n.originByKey origin = none)

def Tracks (start : Key → Option Row) (n : Normalizer) (pairs : Descent) : Prop :=
  ∀ current origin, (current,origin) ∈ pairs ↔ Stands start n current origin

section Stands
variable {schema : TableSchema} {start table : Key → Option Row} {n n' : Normalizer}

theorem standsRewrite {index : Nat} {lineage lineage'} (inv : Folded schema start table n)
    (found : n.lineages[index]? = some lineage) (rewrites : Rewrites n n' index lineage lineage')
    (free : ∀ key, lineage'.currentKey = some key → Free n table lineage key) (current origin : Key) :
    Stands start n' current origin ↔ (Stands start n current origin ∧ lineage.currentKey ≠ some current) ∨
      (lineage'.currentKey = some current ∧ lineage.originKey = some origin) := by
  constructor
  · rintro (⟨position,other,member,live,born⟩ | ⟨rfl,started,idle,unborn⟩)
    · rcases (rewrites.lineages position other).mp member with ⟨apart,member⟩ | ⟨_,rfl⟩
      · exact .inl ⟨.inl ⟨position,other,member,live,born⟩,otherKey inv found apart member live⟩
      · exact .inr ⟨live,rewrites.sameOrigin ▸ born⟩
    · rw [rewrites.origins] at unborn
      have old : lineage.currentKey ≠ some current := by
        intro live
        rw [inv.fresh current (by rw [currentOf inv found live]; rfl) unborn] at started
        contradiction
      rw [rewrites.currents] at idle
      have new : lineage'.currentKey ≠ some current := by
        intro same
        rw [same,placeSelf] at idle
        contradiction
      rw [placeOther _ _ new,clearOther _ old] at idle
      exact .inl ⟨.inr ⟨rfl,started,idle,unborn⟩,old⟩
  · rintro (⟨⟨position,other,member,live,born⟩ | ⟨rfl,started,idle,unborn⟩,old⟩ | ⟨live,born⟩)
    · refine .inl ⟨position,other,(rewrites.lineages position other).mpr (.inl ⟨?_,member⟩),live,born⟩
      rintro rfl
      exact old (Option.some.inj (found.symm.trans member) ▸ live)
    · have new : lineage'.currentKey ≠ some current := by
        intro same
        rcases free current same with here | ⟨_,_,absent⟩
        · exact old here
        · rw [← inv.untouched current idle unborn,absent] at started
          contradiction
      refine .inr ⟨rfl,started,?_,rewrites.origins ▸ unborn⟩
      rw [rewrites.currents,placeOther _ _ new,clearOther _ old,idle]
    · exact .inl ⟨index,lineage',(rewrites.lineages index lineage').mpr (.inr ⟨rfl,rfl⟩),live,
        rewrites.sameOrigin.trans born⟩

theorem standsAppend {key : Key} {new : Lineage} (appends : Appends n n' key new)
    (started : ∀ origin, new.originKey = some origin → (start origin).isSome)
    (unborn : new.originKey = none → n.originByKey key = none → start key = none) (current origin : Key) :
    Stands start n' current origin ↔ Stands start n current origin := by
  constructor
  · rintro (⟨position,other,member,live,born⟩ | ⟨rfl,present,idle,none'⟩)
    · rcases (appends.at position other).mp member with member | ⟨_,rfl⟩
      · exact .inl ⟨position,other,member,live,born⟩
      · obtain ⟨rfl,none'⟩ := appends.ownOrigin origin born
        exact .inr ⟨Option.some.inj (live.symm.trans appends.live),started origin born,appends.idle,none'⟩
    · have apart : key ≠ current := by
        rintro rfl
        rw [appends.currents,placeSelf] at idle
        contradiction
      have own : new.originKey ≠ some current := fun born => apart (appends.ownOrigin current born).1.symm
      rw [appends.currents,placeOther _ _ (fun same => apart (Option.some.inj same))] at idle
      rw [appends.origins,placeOther _ _ own] at none'
      exact .inr ⟨rfl,present,idle,none'⟩
  · rintro (⟨position,other,member,live,born⟩ | ⟨rfl,present,idle,none'⟩)
    · exact .inl ⟨position,other,(appends.at position other).mpr (.inl member),live,born⟩
    · by_cases same : key = current
      · subst same
        cases born : new.originKey with
        | none =>
          rw [unborn born none'] at present
          contradiction
        | some origin =>
          obtain ⟨rfl,_⟩ := appends.ownOrigin origin born
          exact .inl ⟨n.lineages.length,new,(appends.at _ new).mpr (.inr ⟨rfl,rfl⟩),appends.live,born⟩
      · have own : new.originKey ≠ some current := fun born => same (appends.ownOrigin current born).1.symm
        refine .inr ⟨rfl,present,?_,?_⟩
        · rw [appends.currents,placeOther _ _ (fun equal => same (Option.some.inj equal)),idle]
        · rw [appends.origins,placeOther _ _ own,none']

theorem standsLocate {key row sequence verb index} (inv : Folded schema start table n) (present : table key = some row)
    (ok : n.locate key sequence true verb = .ok (n',index)) (current origin : Key) :
    Stands start n' current origin ↔ Stands start n current origin := by
  rcases locateSource ok with ⟨rfl,_⟩ | ⟨idle,unborn,rfl,_⟩
  · exact Iff.rfl
  · refine standsAppend (baselineAppends idle unborn sequence) ?_ (fun absent => by simp at absent) current origin
    rintro origin ⟨⟩
    rw [← inv.untouched key idle unborn,present]
    rfl

theorem standsLive {index : Nat} {lineage key} (inv : Folded schema start table n)
    (found : n.lineages[index]? = some lineage) (live : lineage.currentKey = some key) (origin : Key) :
    Stands start n key origin ↔ lineage.originKey = some origin := by
  have here := currentOf inv found live
  constructor
  · rintro (⟨position,other,member,current,born⟩ | ⟨rfl,_,idle,_⟩)
    · cases Option.some.inj (here.symm.trans (currentOf inv member current))
      exact Option.some.inj (found.symm.trans member) ▸ born
    · rw [here] at idle
      contradiction
  · exact fun born => .inl ⟨index,lineage,found,live,born⟩

end Stands

theorem memStartKeys {schema rows key} (unique : UniqueKeys (rowKey schema) rows) :
    key ∈ startKeys schema rows ↔ (find schema rows key).isSome := by
  have named : ∀ row, (rowKey schema row).mapM id = some key ↔ rowKey schema row = key.map some := by
    intro row
    rw [mapMSome]
    generalize rowKey schema row = values
    constructor
    · intro each
      induction each with
      | nil => rfl
      | cons head _ ih => simpa using ⟨head,ih⟩
    · rintro rfl
      simp [List.forall₂_same]
  rw [startKeys,List.mem_filterMap,Option.isSome_iff_exists]
  exact exists_congr fun row => by rw [named,find,lookupIff unique]

section Tracks
variable {schema : TableSchema} {start table : Key → Option Row} {n n' : Normalizer} {pairs : Descent}
  {starts : List Key}

theorem insertTracks (inv : Folded schema start table n) (started : ∀ key, key ∈ starts ↔ (start key).isSome)
    (tracks : Tracks start n pairs) {new sequence key} (full : fullKey schema new.cells = some key)
    (absent : table key = none) (ok : n.insert new sequence = .ok n') :
    Tracks start n' (insertDescent starts pairs key) := by
  obtain ⟨idle,_,⟨index,lineage,found,born,dead,rewrites⟩ | ⟨revivable,appends⟩⟩ := insertSource inv full ok
  · -- no row stands for the key, since its only lineage is dead
    have unpaired : ∀ pair ∈ pairs, pair.2 ≠ key := by
      rintro ⟨current,origin⟩ mem rfl
      have here := (inv.origin origin index).mpr ⟨lineage,found,born⟩
      rcases (tracks current origin).mp mem with ⟨position,other,member,live,same⟩ | ⟨_,_,_,unborn⟩
      · cases Option.some.inj (here.symm.trans ((inv.origin origin position).mpr ⟨other,member,same⟩))
        cases Option.some.inj (found.symm.trans member)
        rw [dead] at live
        contradiction
      · rw [here] at unborn
        contradiction
    have held : key ∈ starts := (started key).mpr ((inv.each index lineage found).born key born)
    intro current origin
    rw [insertDescent,if_pos ⟨held,unpaired⟩,List.mem_cons,tracks,
      standsRewrite inv found rewrites (fun _ same => Option.some.inj same ▸ .inr ⟨idle,.inr born,absent⟩)]
    simp only [dead,born,Prod.mk.injEq,Option.some.injEq,ne_eq,reduceCtorEq,not_false_eq_true,and_true]
    rw [or_comm,eq_comm (a := current),eq_comm (a := origin)]
  · have kept : insertDescent starts pairs key = pairs := by
      rw [insertDescent,if_neg]
      rintro ⟨held,unpaired⟩
      cases born : n.originByKey key with
      | none =>
        rw [started,← inv.untouched key idle born,absent] at held
        contradiction
      | some index =>
        obtain ⟨lineage,found,origin⟩ := (inv.origin key index).mp born
        cases live : lineage.currentKey with
        | none => simp [Normalizer.revivable,born,found,live] at revivable
        | some current =>
          exact unpaired _ ((tracks current key).mpr (.inl ⟨index,lineage,found,live,origin⟩)) rfl
    intro current origin
    rw [kept,tracks]
    refine (standsAppend appends (fun _ absurd => by simp at absurd) (fun _ unborn => ?_) current origin).symm
    rw [← inv.untouched key idle unborn,absent]

theorem updateTracks (distinct : AttnumsDistinct schema) (inv : Folded schema start table n)
    (keyed : Keyed schema start) (tracks : Tracks start n pairs) {old new sequence oldKey newKey row}
    (explicit : explicitOldKey schema old = some oldKey) (updated : updateKey schema oldKey new.cells = some newKey)
    (present : table (oldKey.getD newKey) = some row) (arity : new.cells.length = schema.columns.length)
    (free : newKey = oldKey.getD newKey ∨ table newKey = none) (ok : n.update old new sequence = .ok n') :
    Tracks start n' (updateDescent pairs (oldKey.getD newKey) newKey) := by
  obtain ⟨_,m,index,lineage,located,found,live,_,available,rewrites⟩ :=
    updateRewrites distinct inv keyed explicit updated present arity free ok
  obtain ⟨after,_⟩ := locateFolded distinct keyed inv present located
  intro current origin
  rw [standsRewrite after found rewrites (fun _ here => Option.some.inj here ▸ available),
    standsLocate inv present located,← tracks,← standsLive after found live,standsLocate inv present located,← tracks,
    live,updateDescent,List.mem_map]
  constructor
  · rintro ⟨⟨c,o⟩,mem,same⟩
    split at same
    · rename_i here
      obtain ⟨rfl,rfl⟩ := Prod.mk.inj same
      exact .inr ⟨rfl,here ▸ mem⟩
    · rename_i apart
      obtain ⟨rfl,rfl⟩ := Prod.mk.inj same
      exact .inl ⟨mem,fun equal => apart (Option.some.inj equal).symm⟩
  · rintro (⟨mem,apart⟩ | ⟨same,mem⟩)
    · exact ⟨_,mem,if_neg (fun equal => apart (congrArg some equal.symm))⟩
    · exact ⟨_,mem,by rw [if_pos rfl,Option.some.inj same]⟩

theorem deleteTracks (distinct : AttnumsDistinct schema) (inv : Folded schema start table n)
    (keyed : Keyed schema start) (tracks : Tracks start n pairs) {old sequence key row}
    (explicit : oldTupleKey schema old = some key) (present : table key = some row)
    (ok : n.delete old sequence = .ok n') : Tracks start n' (deleteDescent pairs key) := by
  obtain ⟨other,m,index,read,located,rfl⟩ := deleteSource distinct inv ok
  cases Option.some.inj (explicit.symm.trans read)
  obtain ⟨after,lineage,found,live⟩ := locateFolded distinct keyed inv present located
  intro current origin
  rw [standsRewrite after found (killRewrites found live) (fun _ absurd => by simp at absurd),
    standsLocate inv present located,← tracks,live,deleteDescent,List.mem_filter]
  simp [eq_comm (a := current)]

theorem pushTracks (distinct : AttnumsDistinct schema) (inv : Folded schema start table n) (keyed : Keyed schema start)
    (started : ∀ key, key ∈ starts ↔ (start key).isSome) (tracks : Tracks start n pairs) {change table'}
    (event : Event schema table change.change table') (ok : n.push change = .ok n') :
    Tracks start n' (descend schema starts pairs change.change) := by
  obtain ⟨_,ok⟩ := iteOk.mp ok
  obtain ⟨_,ok⟩ := iteOk.mp ok
  have inv := foldedSequence inv (Normalizer.nextSequence n.sequence)
  have tracks : Tracks start {n with sequence := Normalizer.nextSequence n.sequence} pairs := tracks
  cases kind : change.change with
  | insert new =>
    rw [kind] at event ok
    obtain ⟨full,_,_,absent⟩ := event
    simpa [descend,full] using insertTracks inv started tracks full absent ok
  | update old new =>
    rw [kind] at event ok
    obtain _ | ⟨explicit,updated,present,arity,free⟩ := event
    simpa [descend,explicit,updated] using updateTracks distinct inv keyed tracks explicit updated present arity free ok
  | delete old =>
    rw [kind] at event ok
    obtain _ | _ | ⟨explicit,present⟩ := event
    simpa [descend,explicit] using deleteTracks distinct inv keyed tracks explicit present ok

theorem runTracks (distinct : AttnumsDistinct schema) (keyed : Keyed schema start)
    (started : ∀ key, key ∈ starts ↔ (start key).isSome) (changes : List TableChange) : ∀ {rows rows' n n' pairs},
      IsTable schema rows → Folded schema start (find schema rows) n → Tracks start n pairs →
      replay schema rows changes = some rows' → changes.foldlM Normalizer.push n = .ok n' →
      Tracks start n' (changes.foldl (fun pairs change => descend schema starts pairs change.change) pairs) := by
  induction changes with
  | nil =>
    intro rows rows' n n' pairs _ _ tracks _ folded
    cases Except.ok.inj folded
    exact tracks
  | cons change changes ih =>
    intro rows rows' n n' pairs table inv tracks replayed folded
    obtain ⟨middle,first,replayed⟩ := Option.bind_eq_some_iff.mp replayed
    obtain ⟨m,pushed,folded⟩ := bindOk.mp folded
    obtain ⟨table',_,_,event⟩ := replayChangeSource distinct table first
    exact ih table' (pushFolded distinct inv keyed event pushed) (pushTracks distinct inv keyed started tracks event pushed)
      replayed folded

end Tracks

theorem startTracks {schema : TableSchema} {rows : List Row} (table : IsTable schema rows) :
    Tracks (find schema rows) (.new schema) ((startKeys schema rows).map (fun key => (key,key))) := by
  intro current origin
  simp only [List.mem_map,Prod.mk.injEq,Stands,Normalizer.new,List.getElem?_nil,reduceCtorEq,false_and,exists_false,
    false_or,and_true,memStartKeys table.unique]
  constructor
  · rintro ⟨key,present,rfl,rfl⟩
    exact ⟨rfl,present⟩
  · rintro ⟨rfl,present⟩
    exact ⟨current,present,rfl,rfl⟩

end CloudberryEtl.RowDescent
