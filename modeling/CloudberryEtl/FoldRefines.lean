import CloudberryEtl.FoldStep
import CloudberryEtl.FoldedBatch

/-! The fold refines the replay: the rows that the normalizer emits describe the passage from the batch-start table to
the replayed one, so one staged apply has the effect of the events one by one. -/
namespace CloudberryEtl.FoldRefines
open Schema Change TablePlan CopyText StagedApply SqlLogic KeyedTable Result Normalize KeyLayout Replay StagedSteps
open SetStatements BatchValidation FoldedBatch FoldInvariant FoldStep

def lineageOp (n : Normalizer) (lineage : Lineage) : Option Op :=
  match lineage.originKey,lineage.currentKey with
  | none,none => none
  | none,some key => some ⟨.upsert,[],key,lineage.cells⟩
  | some origin,some current =>
      if origin = current then some ⟨.upsert,[],current,lineage.cells⟩
      else some ⟨.move,origin,current,lineage.cells⟩
  | some origin,none =>
      if (n.currentByKey origin).isSome then none else some ⟨.delete,[],origin,n.baselineCells origin⟩

def foldedOps (n : Normalizer) : List Op := n.sortedLineages.filterMap (lineageOp n)

theorem stagingRowSource {n lineage row} (ok : n.stagingRow lineage = .ok row) :
    row = (lineageOp n lineage).map Op.row := by
  unfold Normalizer.stagingRow at ok
  unfold lineageOp
  cases origin : lineage.originKey with
  | none =>
    cases current : lineage.currentKey with
    | none => simp only [origin,current] at ok; exact (Except.ok.inj ok).symm
    | some key =>
      simp only [origin,current,Normalizer.insertedStagingRow] at ok
      cases complete : requireComplete n.schema lineage.cells with
      | error error => rw [complete] at ok; contradiction
      | ok _ =>
        rw [complete] at ok
        exact (Except.ok.inj ok).symm
  | some key =>
    cases current : lineage.currentKey with
    | none =>
      simp only [origin,current] at ok ⊢
      split at ok
      · rename_i live
        rw [if_pos live]; exact (Except.ok.inj ok).symm
      · rename_i dead
        rw [if_neg dead]; exact (Except.ok.inj ok).symm
    | some other =>
      simp only [origin,current] at ok ⊢
      split at ok
      · rename_i same
        rw [if_pos same]; exact (Except.ok.inj ok).symm
      · rename_i apart
        rw [if_neg apart]; exact (Except.ok.inj ok).symm

theorem stagingRowsOps {n : Normalizer} {lineages : List Lineage} {rows : List (Option StagingRow)}
    (related : List.Forall₂ (fun lineage row => n.stagingRow lineage = .ok row) lineages rows) :
    rows.filterMap id = (lineages.filterMap (lineageOp n)).map Op.row := by
  induction related with
  | nil => rfl
  | @cons lineage _ _ _ head tail ih =>
    rw [stagingRowSource head]
    cases op : lineageOp n lineage <;> simpa [List.filterMap_cons,op] using ih

theorem finishSource {n rows} (ok : n.finish = .ok rows) : rows = (foldedOps n).map Op.row := by
  obtain ⟨optional,mapped,ok⟩ := bindOk.mp ok
  cases Except.ok.inj ok
  exact stagingRowsOps (mapMOk.mp mapped)

theorem memFoldedOps {n op} : op ∈ foldedOps n ↔
    ∃ (index : Nat) (lineage : Lineage), n.lineages[index]? = some lineage ∧ lineageOp n lineage = some op := by
  have perm : n.sortedLineages.Perm n.lineages := List.perm_insertionSort _ _
  rw [foldedOps,List.mem_filterMap]
  constructor
  · rintro ⟨lineage,mem,op⟩
    obtain ⟨index,found⟩ := List.getElem?_of_mem (perm.mem_iff.mp mem)
    exact ⟨index,lineage,found,op⟩
  · rintro ⟨index,lineage,found,op⟩
    exact ⟨lineage,perm.mem_iff.mpr (List.mem_of_getElem? found),op⟩

inductive OpSource (n : Normalizer) (lineage : Lineage) : Op → Prop where
  | upsert {key} (live : lineage.currentKey = some key)
      (origin : lineage.originKey = none ∨ lineage.originKey = some key) :
      OpSource n lineage ⟨.upsert,[],key,lineage.cells⟩
  | move {origin key} (born : lineage.originKey = some origin) (live : lineage.currentKey = some key)
      (apart : origin ≠ key) : OpSource n lineage ⟨.move,origin,key,lineage.cells⟩
  | delete {origin} (born : lineage.originKey = some origin) (dead : lineage.currentKey = none)
      (idle : n.currentByKey origin = none) : OpSource n lineage ⟨.delete,[],origin,n.baselineCells origin⟩

theorem opSource {n lineage op} : lineageOp n lineage = some op ↔ OpSource n lineage op := by
  unfold lineageOp
  constructor
  · intro ok
    split at ok
    · contradiction
    · rename_i born live
      cases Option.some.inj ok
      exact .upsert live (.inl born)
    · rename_i born live
      split at ok
      · rename_i same
        subst same
        cases Option.some.inj ok
        exact .upsert live (.inr born)
      · rename_i apart
        cases Option.some.inj ok
        exact .move born live apart
    · rename_i born dead
      split at ok <;> try contradiction
      rename_i idle
      cases Option.some.inj ok
      exact .delete born dead (by simpa using idle)
  · rintro (⟨live,none' | born⟩ | ⟨born,live,apart⟩ | ⟨born,dead,idle⟩)
    · simp [live,none']
    · simp [live,born]
    · simp [live,born,apart]
    · simp [dead,born,idle]

theorem opSourceMove {n lineage op} (source : OpSource n lineage op) (move : op.isMove) :
    lineage.originKey = some op.old ∧ lineage.currentKey = some op.key ∧ op.old ≠ op.key ∧ op.cells = lineage.cells := by
  cases source with
  | upsert live origin => exact absurd move (by simp [Op.isMove])
  | move born live apart => exact ⟨born,live,apart,rfl⟩
  | delete born dead idle => exact absurd move (by simp [Op.isMove])

theorem nodupByPosition {lineages : List Lineage} {f : Lineage → Option Key} (tag : Key → Nat → Prop)
    (tagged : ∀ (index : Nat) lineage key, lineages[index]? = some lineage → f lineage = some key → tag key index)
    (single : ∀ key i j, tag key i → tag key j → i = j) : (lineages.filterMap f).Nodup := by
  rw [List.Nodup,List.pairwise_filterMap,List.pairwise_iff_getElem]
  intro i j hi hj less a fa b fb same
  subst same
  have first := tagged i _ a (List.getElem?_eq_getElem hi) fa
  have second := tagged j _ a (List.getElem?_eq_getElem hj) fb
  have equal := single a i j first second
  omega

section Describe
variable {schema : TableSchema} {start table : Key → Option Row} {n : Normalizer}

theorem opKeyTag (inv : Folded schema start table n) {index : Nat} {lineage op}
    (found : n.lineages[index]? = some lineage) (source : OpSource n lineage op) :
    n.currentByKey op.key = some index ∨ (n.currentByKey op.key = none ∧ n.originByKey op.key = some index) := by
  cases source with
  | upsert live origin => exact .inl (currentOf inv found live)
  | move born live apart => exact .inl (currentOf inv found live)
  | delete born dead idle => exact .inr ⟨idle,(inv.origin _ index).mpr ⟨lineage,found,born⟩⟩

theorem foldedKeys (inv : Folded schema start table n) : ((foldedOps n).map Op.key).Nodup := by
  have perm : (n.sortedLineages.filterMap (lineageOp n)).Perm (n.lineages.filterMap (lineageOp n)) :=
    (List.perm_insertionSort _ _).filterMap _
  rw [foldedOps,(perm.map Op.key).nodup_iff,List.map_filterMap]
  refine nodupByPosition (fun key index => n.currentByKey key = some index ∨
    (n.currentByKey key = none ∧ n.originByKey key = some index)) ?_ ?_
  · intro index lineage key found mapped
    obtain ⟨op,source,rfl⟩ := Option.map_eq_some_iff.mp mapped
    exact opKeyTag inv found (opSource.mp source)
  · rintro key i j (hi | ⟨ni,hi⟩) (hj | ⟨nj,hj⟩) <;> simp_all

theorem foldedOlds (inv : Folded schema start table n) :
    (((foldedOps n).filter Op.isMove).map Op.old).Nodup := by
  have perm : (n.sortedLineages.filterMap (lineageOp n)).Perm (n.lineages.filterMap (lineageOp n)) :=
    (List.perm_insertionSort _ _).filterMap _
  rw [foldedOps,((perm.filter _).map Op.old).nodup_iff,List.filter_filterMap,List.map_filterMap]
  refine nodupByPosition (fun key index => n.originByKey key = some index) ?_ ?_
  · intro index lineage key found mapped
    obtain ⟨op,filtered,rfl⟩ := Option.map_eq_some_iff.mp mapped
    obtain ⟨source,move⟩ := Option.filter_eq_some_iff.mp filtered
    exact (inv.origin _ index).mpr ⟨lineage,found,(opSourceMove (opSource.mp source) move).1⟩
  · intro key i j hi hj
    rw [hi] at hj
    exact Option.some.inj hj

theorem foldedOpOk (distinct : AttnumsDistinct schema) (keyed : Keyed schema start)
    (inv : Folded schema start table n) {index : Nat} {lineage op} (found : n.lineages[index]? = some lineage)
    (source : OpSource n lineage op) : OpOk schema op := by
  have ok := inv.each index lineage found
  have keyLength : ∀ origin, lineage.originKey = some origin → origin.length = (keyPositions schema).length := by
    intro origin born
    obtain ⟨row,present⟩ := Option.isSome_iff_exists.mp (ok.born origin born)
    simpa [rowKey] using (congrArg List.length (keyed origin row present).2).symm
  cases source with
  | upsert live origin => exact ⟨ok.arity,ok.plain,ok.named _ live,fun move => absurd move (by simp [Op.isMove])⟩
  | move born live apart => exact ⟨ok.arity,ok.plain,ok.named _ live,fun _ => keyLength _ born⟩
  | @delete origin born dead idle =>
    have cells : n.baselineCells origin = baseline schema origin := by
      rw [Normalizer.baselineCells,inv.sameSchema,inv.sameLayout,baseline]
    have length := keyLength origin born
    exact ⟨cells ▸ baselineLength origin,cells ▸ baselinePlain distinct length,cells ▸ baselineKey distinct length,
      fun move => absurd move (by simp [Op.isMove])⟩

theorem sameLineage (inv : Folded schema start table n) {i j : Nat} {a b : Lineage} {origin : Key}
    (foundA : n.lineages[i]? = some a) (foundB : n.lineages[j]? = some b)
    (bornA : a.originKey = some origin) (bornB : b.originKey = some origin) : a = b := by
  have first := (inv.origin origin i).mpr ⟨a,foundA,bornA⟩
  have second := (inv.origin origin j).mpr ⟨b,foundB,bornB⟩
  cases Option.some.inj (first.symm.trans second)
  exact Option.some.inj (foundA.symm.trans foundB)

theorem foldedUpsert (inv : Folded schema start table n) {op : Op} (mem : op ∈ foldedOps n)
    (upsert : op.operation = .upsert) : ∃ base : Row, base.length = schema.columns.length ∧
    table op.key = some (patchRow op.cells base) ∧
    ((start op.key = some base ∧ ∀ other ∈ foldedOps n, other.isMove → other.old ≠ op.key) ∨
      Cell.unchangedToast ∉ op.cells) := by
  obtain ⟨index,lineage,found,source⟩ := memFoldedOps.mp mem
  cases opSource.mp source with
  | @upsert key live origin =>
    have ok := inv.each index lineage found
    obtain ⟨base,width,start',value⟩ := ok.value key live
    refine ⟨base,width,value,?_⟩
    rcases origin with none' | born
    · exact .inr (ok.complete none')
    · refine .inl ⟨start' key born,fun other memOther move same => ?_⟩
      obtain ⟨_,lineage',found',source'⟩ := memFoldedOps.mp memOther
      obtain ⟨born',live',apart,_⟩ := opSourceMove (opSource.mp source') move
      have equal := sameLineage inv found found' born (born'.trans (congrArg some same))
      subst equal
      exact apart (same.trans (Option.some.inj (live.symm.trans live')))
  | move => simp at upsert
  | delete => simp at upsert

theorem foldedMove (inv : Folded schema start table n) {op : Op} (mem : op ∈ foldedOps n) (move : op.isMove) :
    ∃ base, start op.old = some base ∧ table op.key = some (patchRow op.cells base) ∧ start op.key = none ∧
      ∀ other ∈ foldedOps n, other.operation = .delete → other.key ≠ op.old := by
  obtain ⟨index,lineage,found,source⟩ := memFoldedOps.mp mem
  obtain ⟨born,live,apart,cells⟩ := opSourceMove (opSource.mp source) move
  have ok := inv.each index lineage found
  obtain ⟨base,_,start',value⟩ := ok.value op.key live
  have unborn := inv.moved index lineage op.old op.key found born live apart
  refine ⟨base,start' op.old born,cells ▸ value,?_,fun other memOther delete same => ?_⟩
  · exact inv.fresh op.key (by rw [currentOf inv found live]; rfl) unborn
  · obtain ⟨_,lineage',found',source'⟩ := memFoldedOps.mp memOther
    cases opSource.mp source' with
    | delete born' dead idle =>
      have equal := sameLineage inv found found' born (same ▸ born')
      subst equal
      rw [live] at dead
      contradiction
    | upsert => simp at delete
    | move => simp at delete

theorem foldedDelete (inv : Folded schema start table n) {op : Op} (mem : op ∈ foldedOps n)
    (delete : op.operation = .delete) : table op.key = none := by
  obtain ⟨index,lineage,found,source⟩ := memFoldedOps.mp mem
  cases opSource.mp source with
  | @delete origin born dead idle =>
    exact inv.vacated origin idle (by rw [(inv.origin origin index).mpr ⟨lineage,found,born⟩]; rfl)
  | upsert => simp at delete
  | move => simp at delete

section Unnamed
variable {key : Key} (unnamed : ∀ op ∈ foldedOps n, op.key ≠ key)
include unnamed

theorem unnamedIdle (inv : Folded schema start table n) : n.currentByKey key = none := by
  cases live : n.currentByKey key with
  | none => rfl
  | some index =>
    obtain ⟨lineage,found,current⟩ := (inv.current key index).mp live
    cases born : lineage.originKey with
    | none =>
      exact absurd rfl (unnamed _ (memFoldedOps.mpr ⟨index,lineage,found,opSource.mpr (.upsert current (.inl born))⟩))
    | some origin =>
      by_cases same : origin = key
      · exact absurd rfl (unnamed _ (memFoldedOps.mpr
          ⟨index,lineage,found,opSource.mpr (.upsert current (.inr (same ▸ born)))⟩))
      · exact absurd rfl (unnamed _ (memFoldedOps.mpr ⟨index,lineage,found,opSource.mpr (.move born current same)⟩))

theorem foldedRest (inv : Folded schema start table n) :
    ((∃ op ∈ foldedOps n, op.isMove ∧ op.old = key) ∧ table key = none) ∨
      ((∀ op ∈ foldedOps n, op.isMove → op.old ≠ key) ∧ table key = start key) := by
  have idle := unnamedIdle unnamed inv
  cases born : n.originByKey key with
  | some index =>
    obtain ⟨lineage,found,origin⟩ := (inv.origin key index).mp born
    refine .inl ⟨?_,inv.vacated key idle (by rw [born]; rfl)⟩
    cases current : lineage.currentKey with
    | none =>
      exact absurd rfl (unnamed _ (memFoldedOps.mpr ⟨index,lineage,found,opSource.mpr (.delete origin current idle)⟩))
    | some other =>
      have apart : key ≠ other := by
        rintro rfl
        rw [currentOf inv found current] at idle
        contradiction
      exact ⟨_,memFoldedOps.mpr ⟨index,lineage,found,opSource.mpr (.move origin current apart)⟩,rfl,rfl⟩
  | none =>
    refine .inr ⟨fun op mem move same => ?_,inv.untouched key idle born⟩
    obtain ⟨index,lineage,found,source⟩ := memFoldedOps.mp mem
    have origin := (opSourceMove (opSource.mp source) move).1
    rw [(inv.origin key index).mpr ⟨lineage,found,same ▸ origin⟩] at born
    contradiction

end Unnamed

/-- The operations read off the lineages describe the passage from the batch-start table to the current one. -/
theorem foldedDescribes (distinct : AttnumsDistinct schema) (keyed : Keyed schema start)
    (inv : Folded schema start table n) : Describes schema start table (foldedOps n) where
  shape := by
    intro op mem
    obtain ⟨index,lineage,found,source⟩ := memFoldedOps.mp mem
    exact foldedOpOk distinct keyed inv found (opSource.mp source)
  keys := foldedKeys inv
  olds := foldedOlds inv
  upsert := fun _ mem upsert => foldedUpsert inv mem upsert
  move := fun _ mem move => foldedMove inv mem move
  delete := fun _ mem delete => foldedDelete inv mem delete
  rest := fun _ unnamed => foldedRest unnamed inv

end Describe

theorem normalizeSource {schema changes rows} (ok : normalizeTableChanges schema changes = .ok rows) :
    ∃ n, changes.foldlM Normalizer.push (.new schema) = .ok n ∧ rows = (foldedOps n).map Op.row := by
  obtain ⟨_,_,ok⟩ := bindOk.mp ok
  obtain ⟨n,folded,ok⟩ := bindOk.mp ok
  exact ⟨n,folded,finishSource ok⟩

/-- Folding refines sequential application: a batch that replays on the table and that the normalizer accepts passes
validation on it, and the staged statements produce the replayed table. -/
theorem foldRefinesReplay {schema : TableSchema} {target staging plan} (distinct : AttnumsDistinct schema)
    (planned : planApply schema target staging = .ok plan) (content : TableContent schema)
    {changes rows final} (replayed : replay schema content.rows changes = some final)
    (folded : normalizeTableChanges schema changes = .ok rows) :
    (∃ stage, copyIn plan rows = .ok stage ∧ invalidBatch textEqual plan stage content.rows = false ∧
      ∃ out, applySteps textEqual plan stage content.rows = .ok out ∧ out.Perm final) ∧
    ∃ out, executeTable textEqual plan rows content.rows = .ok out ∧ out.Perm final := by
  obtain ⟨n,run,rfl⟩ := normalizeSource folded
  obtain ⟨plans,_,_⟩ := planApplySource planned
  have keyed := keyedFind content.valid
  obtain ⟨result,inv⟩ := runFolded distinct keyed changes content.valid (foldedStart schema _) replayed run
  have describes := foldedDescribes distinct keyed inv
  refine ⟨⟨_,copyInOps distinct plans describes.shape,describes.accepted distinct plans content.valid rfl,?_⟩,?_⟩
  · exact appliedSteps distinct plans content.valid result describes
  · exact executedTable distinct plans content.valid result describes

def accounts : TableSchema :=
  ⟨16385,1,⟨"public","accounts",publicValid,accountsValid⟩,.ordinary,.default,
    [⟨1,"id",⟨20,⟨"pg_catalog","int8",pgCatalogValid,int8Valid⟩,.int8⟩,false,some 1,.none,.none,none⟩,
     ⟨2,"note",⟨25,⟨"pg_catalog","text",pgCatalogValid,textValid⟩,.text⟩,true,none,.none,.none,none⟩],[],[]⟩

def oneAccount : TableContent accounts := ⟨[[some [49],some [97]]],by decide,by decide,by decide⟩

def moveAndReuse : List TableChange :=
  [⟨16385,1,.update (some ⟨[.text [49]]⟩) ⟨[.text [50],.unchangedToast]⟩⟩,
   ⟨16385,1,.insert ⟨[.text [49],.text [98]]⟩⟩]

theorem foldRefinesMoveAndReuse : ∃ plan rows out, planApply accounts accounts.name "pg2cb_stage" = .ok plan ∧
    normalizeTableChanges accounts moveAndReuse = .ok rows ∧
    executeTable textEqual plan rows oneAccount.rows = .ok out ∧
    out.Perm [[some [50],some [97]],[some [49],some [98]]] := by
  obtain ⟨plan,planned⟩ : ∃ plan, planApply accounts accounts.name "pg2cb_stage" = .ok plan :=
    okOfToOption (by decide +kernel)
  obtain ⟨rows,folded⟩ : ∃ rows, normalizeTableChanges accounts moveAndReuse = .ok rows :=
    okOfToOption (by decide +kernel)
  have replayed : replay accounts oneAccount.rows moveAndReuse = some [[some [50],some [97]],[some [49],some [98]]] := by
    decide +kernel
  obtain ⟨_,out,executed,perm⟩ := foldRefinesReplay (by decide) planned oneAccount replayed folded
  exact ⟨plan,rows,out,planned,folded,executed,perm⟩

end CloudberryEtl.FoldRefines
