import CloudberryEtl.RowDescent
import CloudberryEtl.KeyEquality

/-! Batches on a table whose key equality is coarser than equality of the text. The fold tells rows apart by the text of
their keys; the batch is accepted unless a key that is held at the end is spelled unlike an equal key that was held at
the start, by any row but one inserted while the earlier holder lives on under another key. -/
namespace CloudberryEtl.Respelling
open Schema Change TablePlan CopyText StagedApply SqlLogic KeyedTable Result Normalize KeyLayout Replay StagedSteps
open SetStatements BatchValidation FoldedBatch FoldInvariant FoldStep FoldRefines RowDescent KeyEquality

/- An event names its row by the text of its key as it is stored: the old tuple carries it, or the new one of an update
that leaves the key as it is. The unique index of the source compares by the operator of the key. -/
def sqlReplayChange (equal : Nat → Bytes → Bytes → Bool) (schema : TableSchema) (rows : List Row) (change : TableChange) :
    Option (List Row) :=
  (replayChange schema rows change).filter (fun after => SqlDistinct equal schema after)

def sqlReplay (equal : Nat → Bytes → Bytes → Bool) (schema : TableSchema) (rows : List Row) (changes : List TableChange) :
    Option (List Row) := changes.foldlM (sqlReplayChange equal schema) rows

def stagingKey (schema : TableSchema) (row : StagingRow) : List (Option Bytes) :=
  (keyPositions schema).map (fun index => cellValue (cellAt row.cells index))

structure RespectsEquality (equal : Nat → Bytes → Bytes → Bool) (schema : TableSchema) (plan : ApplyPlan)
    (target : List Row) (rows : List StagingRow) : Prop where
  keys : rows.Pairwise (fun a b => ¬ sameKeys equal (keyPositions schema) (stagingKey schema a) (stagingKey schema b))
  moves : ∀ row ∈ rows, row.operation = .move → ∀ old, row.oldKey = some old →
    ¬ sameKeys equal (keyPositions schema) (stagingKey schema row) (old.map cellValue)
  accepted : ∃ stage, copyIn plan rows = .ok stage ∧ invalidBatch equal plan stage target = false

/- A key that is live at the end and equal to a batch-start key without having its text belongs to an inserted row, and
the row that stands for the batch-start row is still there. -/
def SpellingsKept (equal : Nat → Bytes → Bytes → Bool) (schema : TableSchema) (rows : List Row)
    (changes : List TableChange) (final : List Row) : Prop :=
  ∀ current ∈ startKeys schema final, ∀ origin ∈ startKeys schema rows, SameKey equal schema current origin →
    current ≠ origin → (∀ pair ∈ descent schema rows changes, pair.1 ≠ current) ∧
      ∃ pair ∈ descent schema rows changes, pair.2 = origin

instance (equal schema rows changes final) : Decidable (SpellingsKept equal schema rows changes final) := by
  unfold SpellingsKept
  infer_instance

section Validity
variable {equal : Nat → Bytes → Bytes → Bool} {schema : TableSchema}

theorem sqlReplaySource {rows changes final} (replayed : sqlReplay equal schema rows changes = some final)
    (apart : SqlDistinct equal schema rows) :
    replay schema rows changes = some final ∧ SqlDistinct equal schema final := by
  induction changes generalizing rows with
  | nil =>
    cases Option.some.inj replayed
    exact ⟨rfl,apart⟩
  | cons change changes ih =>
    obtain ⟨middle,first,rest⟩ := Option.bind_eq_some_iff.mp replayed
    obtain ⟨first,distinct⟩ := Option.filter_eq_some_iff.mp first
    obtain ⟨rest,last⟩ := ih rest (of_decide_eq_true distinct)
    exact ⟨Option.bind_eq_some_iff.mpr ⟨middle,first,rest⟩,last⟩

theorem sameKeyText (equality : SqlEquality equal) {rows : List Row} (apart : SqlDistinct equal schema rows)
    {left right : Key} (foundLeft : (find schema rows left).isSome) (foundRight : (find schema rows right).isSome)
    (same : SameKey equal schema left right) : left = right := by
  obtain ⟨l,foundLeft⟩ := Option.isSome_iff_exists.mp foundLeft
  obtain ⟨r,foundRight⟩ := Option.isSome_iff_exists.mp foundRight
  obtain ⟨memLeft,namedLeft⟩ := findRow foundLeft
  obtain ⟨memRight,namedRight⟩ := findRow foundRight
  have alike : SameRow equal schema l r := by
    rw [SameRow,namedLeft,namedRight]
    exact same
  have symmetric : Std.Symm (fun left right => ¬ SameRow equal schema left right) := by
    constructor
    intro a b differ back
    exact differ (sameKeysSymm equality _ back)
  have one : l = r := by
    by_contra differ
    exact apart.forall memLeft memRight differ alike
  exact keySomeInjective (namedLeft.symm.trans (one ▸ namedRight))

theorem stagingKeyRow {op : Op} (ok : OpOk schema op) : stagingKey schema op.row = op.key.map some := by
  calc stagingKey schema op.row
      = ((keyPositions schema).map (cellAt op.cells)).map cellValue := by rw [List.map_map]; rfl
    _ = op.key.map some := by rw [ok.named,keyCells,List.map_map]; rfl

theorem respectsIff (equality : SqlEquality equal) {plan : ApplyPlan} (distinct : AttnumsDistinct schema)
    (plans : Plans schema plan) {rows : List Row} (table : IsTable schema rows) (apart : SqlDistinct equal schema rows)
    {ops : List Op} (each : ∀ op ∈ ops, OpOk schema op) :
    RespectsEquality equal schema plan rows (ops.map Op.row) ↔ invalidBatch equal plan (ops.map (staged plan)) rows = false := by
  have copied := copyInOps distinct plans each
  constructor
  · intro respects
    obtain ⟨stage,copy,accepted⟩ := respects.accepted
    cases Except.ok.inj (copied.symm.trans copy)
    exact accepted
  · intro accepted
    obtain ⟨flags,keys,_⟩ := (acceptedIff equality distinct plans table apart each).mp accepted
    refine ⟨?_,?_,_,copied,accepted⟩
    · refine List.pairwise_map.mpr (keys.imp_of_mem ?_)
      intro a b memA memB differ
      rw [stagingKeyRow (each a memA),stagingKeyRow (each b memB)]
      exact differ
    · intro row mem operation old has
      obtain ⟨op,held,rfl⟩ := List.mem_map.mp mem
      have move : op.isMove := decide_eq_true operation
      have same : old.map cellValue = op.old.map some := by
        have old' : keyCells op.old = old := by simpa [Op.row,move] using has
        rw [← old',keyCells,List.map_map]
        rfl
      rw [same,stagingKeyRow (each op held)]
      exact fun alike => flags op held (.inl ⟨move,.inl alike⟩)

end Validity

section Fold
variable {equal : Nat → Bytes → Bytes → Bool} (equality : SqlEquality equal) {schema : TableSchema} {rows final : List Row}
  (apart : SqlDistinct equal schema rows) {n : Normalizer}

include equality in
theorem heldStart {key : Key} (found : (find schema rows key).isSome) : holdsKey equal schema rows key = true := by
  obtain ⟨row,found⟩ := Option.isSome_iff_exists.mp found
  obtain ⟨mem,named⟩ := findRow found
  refine List.any_eq_true.mpr ⟨row,mem,?_⟩
  rw [named]
  exact sameKeysRefl equality _ _

theorem heldSource (distinct : AttnumsDistinct schema) (table : IsTable schema rows) {key : Key}
    (held : holdsKey equal schema rows key = true) :
    ∃ origin, (find schema rows origin).isSome ∧ SameKey equal schema origin key := by
  obtain ⟨row,mem,same⟩ := List.any_eq_true.mp held
  obtain ⟨origin,named⟩ := rowKeyText distinct (table.width row mem) (table.admitted row mem)
  have found : find schema rows origin = some row := by
    rw [find,← named]
    exact lookupOfMem table.unique mem
  exact ⟨origin,by rw [found]; rfl,by rw [SameKey,← named]; exact same⟩

theorem heldSame {origin key : Key} (found : (find schema rows origin).isSome) (same : SameKey equal schema origin key) :
    holdsKey equal schema rows key = true := by
  obtain ⟨row,found⟩ := Option.isSome_iff_exists.mp found
  obtain ⟨mem,named⟩ := findRow found
  exact List.any_eq_true.mpr ⟨row,mem,by rw [named]; exact same⟩

structure Quiet (equal : Nat → Bytes → Bytes → Bool) (schema : TableSchema) (rows : List Row) (n : Normalizer) : Prop where
  moves : ∀ op ∈ foldedOps n, op.isMove → ∀ origin, (find schema rows origin).isSome → ¬ SameKey equal schema op.key origin
  deletes : ∀ op ∈ foldedOps n, op.operation ≠ .delete → ∀ gone ∈ foldedOps n, gone.operation = .delete →
    ¬ SameKey equal schema op.key gone.key

section Described
variable (distinct : AttnumsDistinct schema) (table : IsTable schema rows)
  (inv : Folded schema (find schema rows) (find schema final) n)
include distinct table inv

theorem oldStarts {op : Op} (mem : op ∈ foldedOps n) (move : op.isMove) : (find schema rows op.old).isSome := by
  obtain ⟨base,found,_⟩ := (foldedDescribes distinct (keyedFind table) inv).move op mem move
  rw [found]
  rfl

theorem liveAtEnd {op : Op} (mem : op ∈ foldedOps n) (live : op.operation ≠ .delete) :
    (find schema final op.key).isSome := by
  have describes := foldedDescribes distinct (keyedFind table) inv
  rcases operationCases op with upsert | dead | move
  · obtain ⟨base,_,found,_⟩ := describes.upsert op mem upsert
    rw [found]
    rfl
  · exact absurd dead live
  · obtain ⟨base,_,found,_⟩ := describes.move op mem move
    rw [found]
    rfl

omit distinct table in
theorem deadAtStart {op : Op} (mem : op ∈ foldedOps n) (dead : op.operation = .delete) :
    (find schema rows op.key).isSome := by
  obtain ⟨index,lineage,found,source⟩ := memFoldedOps.mp mem
  cases opSource.mp source with
  | delete born _ _ => exact (inv.each index lineage found).born _ born
  | upsert _ _ => contradiction
  | move _ _ _ => contradiction

include equality

theorem acceptedQuiet
    (flags : ∀ op ∈ foldedOps n, ¬ OpFlagged equal schema rows op)
    (keys : (foldedOps n).Pairwise fun a b => ¬ SameKey equal schema a.key b.key) : Quiet equal schema rows n where
  moves := by
    intro op mem move origin found same
    have here := heldSame found (sameKeySymm equality same)
    have there := heldStart equality (oldStarts distinct table inv mem move)
    exact flags op mem (.inl ⟨move,.inr (here.trans there.symm)⟩)
  deletes := by
    intro op mem live gone memGone dead
    have symmetric : Std.Symm (fun a b : Op => ¬ SameKey equal schema a.key b.key) := by
      constructor
      intro a b differ back
      exact differ (sameKeySymm equality back)
    have differ : op ≠ gone := by
      intro same
      exact live (same ▸ dead)
    exact keys.forall mem memGone differ

theorem quietUnflagged (quiet : Quiet equal schema rows n) :
    ∀ op ∈ foldedOps n, ¬ OpFlagged equal schema rows op := by
  intro op mem flagged
  rcases flagged with ⟨move,alike | both⟩ | ⟨upsert,absent,toast⟩
  · exact quiet.moves op mem move op.old (oldStarts distinct table inv mem move) alike
  · rw [heldStart equality (oldStarts distinct table inv mem move)] at both
    obtain ⟨origin,found,same⟩ := heldSource distinct table both
    exact quiet.moves op mem move origin found (sameKeySymm equality same)
  · obtain ⟨base,_,_,⟨found,_⟩ | complete⟩ :=
      (foldedDescribes distinct (keyedFind table) inv).upsert op mem upsert
    · rw [heldStart equality (by rw [found]; rfl)] at absent
      contradiction
    · exact complete toast

include apart in
theorem quietKeys (lastApart : SqlDistinct equal schema final) (quiet : Quiet equal schema rows n) :
    (foldedOps n).Pairwise fun a b => ¬ SameKey equal schema a.key b.key := by
  have describes := foldedDescribes distinct (keyedFind table) inv
  refine (List.Nodup.of_map _ describes.keys).pairwise_of_forall_ne ?_
  intro a memA b memB differ same
  by_cases deadA : a.operation = .delete
  · by_cases deadB : b.operation = .delete
    · exact differ (describes.sameOp memA memB
        (sameKeyText equality apart (deadAtStart inv memA deadA) (deadAtStart inv memB deadB) same))
    · exact quiet.deletes b memB deadB a memA deadA (sameKeySymm equality same)
  · by_cases deadB : b.operation = .delete
    · exact quiet.deletes a memA deadA b memB deadB same
    · exact differ (describes.sameOp memA memB (sameKeyText equality lastApart (liveAtEnd distinct table inv memA deadA)
        (liveAtEnd distinct table inv memB deadB) same))

include apart in
theorem movesApart : ((foldedOps n).filter Op.isMove).Pairwise fun a b => ¬ SameKey equal schema a.old b.old := by
  have describes := foldedDescribes distinct (keyedFind table) inv
  refine ((List.Nodup.of_map _ describes.keys).filter _).pairwise_of_forall_ne ?_
  intro a memA b memB differ same
  obtain ⟨inA,moveA⟩ := List.mem_filter.mp memA
  obtain ⟨inB,moveB⟩ := List.mem_filter.mp memB
  have olds := sameKeyText equality apart (oldStarts distinct table inv inA moveA)
    (oldStarts distinct table inv inB moveB) same
  exact differ (List.inj_on_of_nodup_map describes.olds memA memB olds)

end Described

include equality apart

theorem foldedAccepted (distinct : AttnumsDistinct schema) {plan : ApplyPlan} (plans : Plans schema plan)
    (table : IsTable schema rows) (inv : Folded schema (find schema rows) (find schema final) n)
    (lastApart : SqlDistinct equal schema final) :
    invalidBatch equal plan ((foldedOps n).map (staged plan)) rows = false ↔ Quiet equal schema rows n := by
  have describes := foldedDescribes distinct (keyedFind table) inv
  rw [acceptedIff equality distinct plans table apart describes.shape]
  constructor
  · intro accepted
    obtain ⟨flags,keys,_⟩ := accepted
    exact acceptedQuiet equality distinct table inv flags keys
  · intro quiet
    exact ⟨quietUnflagged equality distinct table inv quiet,quietKeys equality apart distinct table inv lastApart quiet,
      movesApart equality apart distinct table inv⟩

omit equality apart in
theorem liveKey (result : IsTable schema final) (inv : Folded schema (find schema rows) (find schema final) n)
    {index : Nat} {lineage key} (found : n.lineages[index]? = some lineage) (live : lineage.currentKey = some key) :
    key ∈ startKeys schema final := by
  obtain ⟨row,_,_,value⟩ := (inv.each index lineage found).value key live
  exact (memStartKeys result.unique).mpr (by rw [value]; rfl)

section Spellings
variable (table : IsTable schema rows) (result : IsTable schema final)
  (inv : Folded schema (find schema rows) (find schema final) n)
  {changes : List TableChange} (tracks : Tracks (find schema rows) n (descent schema rows changes))
  {current origin : Key}

include inv tracks table result in
omit equality apart in
theorem keptQuiet (kept : SpellingsKept equal schema rows changes final) : Quiet equal schema rows n where
  moves := by
    intro op mem move origin started same
    obtain ⟨index,lineage,found,source⟩ := memFoldedOps.mp mem
    obtain ⟨born,live,differ,_⟩ := opSourceMove (opSource.mp source) move
    have absent : find schema rows op.key = none :=
      inv.fresh op.key (by rw [currentOf inv found live]; rfl) (inv.moved index lineage op.old op.key found born live differ)
    have respelt : op.key ≠ origin := by
      intro equal
      rw [← equal,absent] at started
      contradiction
    have stands : (op.key,op.old) ∈ descent schema rows changes := (tracks _ _).mpr (.inl ⟨index,lineage,found,live,born⟩)
    exact (kept op.key (liveKey result inv found live) origin ((memStartKeys table.unique).mpr started) same respelt).1 _
      stands rfl
  deletes := by
    intro op mem alive gone memGone dead same
    obtain ⟨index,lineage,found,source⟩ := memFoldedOps.mp mem
    obtain ⟨position,other,foundGone,sourceGone⟩ := memFoldedOps.mp memGone
    have live : lineage.currentKey = some op.key := by
      cases opSource.mp source with
      | upsert live _ => exact live
      | move _ live _ => exact live
      | delete _ _ _ => exact absurd rfl alive
    cases opSource.mp sourceGone with
    | upsert _ _ => contradiction
    | move _ _ _ => contradiction
    | @delete origin born buried idle =>
      have respelt : op.key ≠ origin := by
        intro equal
        rw [← equal,currentOf inv found live] at idle
        contradiction
      have started := (inv.each position other foundGone).born origin born
      obtain ⟨_,⟨holder,from'⟩,inside,rfl⟩ :=
        kept op.key (liveKey result inv found live) origin ((memStartKeys table.unique).mpr started) same respelt
      have here := (inv.origin _ position).mpr ⟨other,foundGone,born⟩
      rcases (tracks holder from').mp inside with ⟨place,another,member,lives,birth⟩ | ⟨_,_,_,unborn⟩
      · cases Option.some.inj (here.symm.trans ((inv.origin _ place).mpr ⟨another,member,birth⟩))
        cases Option.some.inj (foundGone.symm.trans member)
        rw [buried] at lives
        contradiction
      · rw [here] at unborn
        contradiction

include inv in
omit equality apart in
theorem liveHolder (alive : (find schema final current).isSome) (notStarted : ¬ (find schema rows current).isSome) :
    ∃ (index : Nat) (lineage : Lineage), n.lineages[index]? = some lineage ∧ lineage.currentKey = some current := by
  cases holder : n.currentByKey current with
  | some index =>
    obtain ⟨lineage,found,live⟩ := (inv.current current index).mp holder
    exact ⟨index,lineage,found,live⟩
  | none =>
    cases born : n.originByKey current with
    | none => exact absurd (inv.untouched current holder born ▸ alive) notStarted
    | some index =>
      rw [inv.vacated current holder (by rw [born]; rfl)] at alive
      contradiction

include inv result tracks in
omit equality apart in
theorem lostOrigin (started : (find schema rows origin).isSome) (notLive : ¬ (find schema final origin).isSome) :
    (∃ pair ∈ descent schema rows changes, pair.2 = origin) ∨ ∃ (place : Nat) (lineage : Lineage), n.lineages[place]? = some lineage ∧
      lineage.originKey = some origin ∧ lineage.currentKey = none ∧ n.currentByKey origin = none := by
  cases idle : n.currentByKey origin with
  | some place =>
    obtain ⟨another,member,lives⟩ := (inv.current origin place).mp idle
    exact absurd ((memStartKeys result.unique).mp (liveKey result inv member lives)) notLive
  | none =>
    cases born : n.originByKey origin with
    | none => exact absurd (inv.untouched origin idle born ▸ started) notLive
    | some place =>
      obtain ⟨another,member,birth⟩ := (inv.origin origin place).mp born
      cases lives : another.currentKey with
      | some key => exact .inl ⟨(key,origin),(tracks _ _).mpr (.inl ⟨place,another,member,lives,birth⟩),rfl⟩
      | none => exact .inr ⟨place,another,member,birth,lives,rfl⟩

include table result inv tracks in
theorem quietKept (lastApart : SqlDistinct equal schema final) (quiet : Quiet equal schema rows n) :
    SpellingsKept equal schema rows changes final := by
  intro current memCurrent origin memOrigin same respelt
  have alive := (memStartKeys result.unique).mp memCurrent
  have started := (memStartKeys table.unique).mp memOrigin
  -- the two keys are not both keys of one table
  have notStarted : ¬ (find schema rows current).isSome := fun both =>
    respelt (sameKeyText equality apart both started same)
  have notLive : ¬ (find schema final origin).isSome := fun both =>
    respelt (sameKeyText equality lastApart alive both same)
  obtain ⟨index,lineage,found,live⟩ := liveHolder inv alive notStarted
  have inserted : lineage.originKey = none := by
    cases born : lineage.originKey with
    | none => rfl
    | some first =>
      have differ : first ≠ current := by
        intro equal
        exact notStarted (equal ▸ (inv.each index lineage found).born first born)
      exact absurd same (quiet.moves _ (memFoldedOps.mpr ⟨index,lineage,found,opSource.mpr (.move born live differ)⟩) rfl
        origin started)
  refine ⟨?_,?_⟩
  · intro pair inside equal
    rcases (tracks pair.1 pair.2).mp inside with ⟨place,another,member,lives,birth⟩ | ⟨same',begun,_,_⟩
    · have here := currentOf inv found live
      rw [← equal,currentOf inv member lives] at here
      cases Option.some.inj here
      cases Option.some.inj (found.symm.trans member)
      rw [inserted] at birth
      contradiction
    · rw [← same',equal] at begun
      exact notStarted begun
  · rcases lostOrigin result inv tracks started notLive with descended | ⟨place,another,member,birth,lives,idle⟩
    · exact descended
    · have upsert := memFoldedOps.mpr ⟨index,lineage,found,opSource.mpr (.upsert live (.inl inserted))⟩
      have gone := memFoldedOps.mpr ⟨place,another,member,opSource.mpr (.delete birth lives idle)⟩
      exact absurd same (quiet.deletes _ upsert (by simp) _ gone rfl)

end Spellings

end Fold

/-- On a table whose keys the server compares by any equality, the rows of an accepted batch respect that equality exactly
when the batch keeps the spellings of the keys that are held throughout. -/
theorem respectsIffSpellingsKept {equal : Nat → Bytes → Bytes → Bool} (equality : SqlEquality equal)
    {schema : TableSchema} {target staging plan} (distinct : AttnumsDistinct schema)
    (planned : planApply schema target staging = .ok plan) (content : TableContent schema)
    (apart : SqlDistinct equal schema content.rows) {changes rows final}
    (replayed : sqlReplay equal schema content.rows changes = some final)
    (folded : normalizeTableChanges schema changes = .ok rows) :
    RespectsEquality equal schema plan content.rows rows ↔ SpellingsKept equal schema content.rows changes final := by
  obtain ⟨n,run,rfl⟩ := normalizeSource folded
  obtain ⟨plans,_,_⟩ := planApplySource planned
  obtain ⟨replayed,lastApart⟩ := sqlReplaySource replayed apart
  have keyed := keyedFind content.valid
  obtain ⟨result,inv⟩ := runFolded distinct keyed changes content.valid (foldedStart schema _) replayed run
  have tracks := runTracks distinct keyed (fun key => memStartKeys content.valid.unique) changes content.valid
    (foldedStart schema _) (startTracks content.valid) replayed run
  have each := (foldedDescribes distinct keyed inv).shape
  rw [respectsIff equality distinct plans content.valid apart each,
    foldedAccepted equality apart distinct plans content.valid inv lastApart]
  constructor
  · intro quiet
    exact quietKept equality apart content.valid result inv tracks lastApart quiet
  · intro kept
    exact keptQuiet content.valid result inv tracks kept

/- Two numerics as the server prints them are equal when they differ only in zeros at the end behind the point. -/
def trimmed (text : Bytes) : Bytes :=
  if 46 ∈ text then ((text.reverse.dropWhile (· == 48)).dropWhile (· == 46)).reverse else text

def numericEqual (index : Nat) (left right : Bytes) : Bool :=
  if index = 0 then trimmed left == trimmed right else left == right

theorem numericEquality : SqlEquality numericEqual := by
  refine ⟨?_,?_,?_⟩
  · intro index value
    unfold numericEqual
    split <;> simp
  · intro index left right same
    unfold numericEqual at same ⊢
    split at same <;> simp_all
  · intro index left middle right first second
    unfold numericEqual at first second ⊢
    split at first <;> simp_all

theorem numericValid : IdentifierValid "numeric" := by decide

def prices : TableSchema :=
  ⟨16386,1,⟨"public","accounts",publicValid,accountsValid⟩,.ordinary,.default,
    [⟨1,"id",⟨1700,⟨"pg_catalog","numeric",pgCatalogValid,numericValid⟩,.numeric none none⟩,false,some 1,.none,.none,none⟩,
     ⟨2,"note",⟨25,⟨"pg_catalog","text",pgCatalogValid,textValid⟩,.text⟩,true,none,.none,.none,none⟩],[],[]⟩

theorem onePriceValid : IsTable prices [[some [49,46,48],some [97]]] := ⟨by decide,by decide,by decide⟩

def onePrice : TableContent prices := ⟨_,onePriceValid⟩

def movedPrice : List TableChange := [⟨16386,1,.update (some ⟨[.text [49,46,48]]⟩) ⟨[.text [50,46,48],.text [97]]⟩⟩]

theorem movedPriceRespects : ∃ plan rows, planApply prices prices.name "pg2cb_stage" = .ok plan ∧
    normalizeTableChanges prices movedPrice = .ok rows ∧
    RespectsEquality numericEqual prices plan onePrice.rows rows := by
  obtain ⟨plan,planned⟩ : ∃ plan, planApply prices prices.name "pg2cb_stage" = .ok plan :=
    okOfToOption (by decide +kernel)
  obtain ⟨rows,folded⟩ : ∃ rows, normalizeTableChanges prices movedPrice = .ok rows :=
    okOfToOption (by decide +kernel)
  have replayed : sqlReplay numericEqual prices onePrice.rows movedPrice = some [[some [50,46,48],some [97]]] := by
    decide +kernel
  exact ⟨plan,rows,planned,folded,(respectsIffSpellingsKept numericEquality (by decide) planned onePrice (by decide) replayed
    folded).mpr (by decide +kernel)⟩

-- The key is written as 1.00: the server sends the old key, because its bytes change.
def respeltPrice : List TableChange := [⟨16386,1,.update (some ⟨[.text [49,46,48]]⟩) ⟨[.text [49,46,48,48],.text [97]]⟩⟩]

theorem respeltPriceRejected : ∃ plan stage, planApply prices prices.name "pg2cb_stage" = .ok plan ∧
    SqlEquality numericEqual ∧ SqlDistinct numericEqual prices onePrice.rows ∧
    sqlReplay numericEqual prices onePrice.rows respeltPrice = some [[some [49,46,48,48],some [97]]] ∧
    normalizeTableChanges prices respeltPrice =
      .ok [⟨.move,[.text [49,46,48,48],.text [97]],some [.text [49,46,48]]⟩] ∧
    SameKey numericEqual prices [[49,46,48,48]] [[49,46,48]] ∧
    copyIn plan [⟨.move,[.text [49,46,48,48],.text [97]],some [.text [49,46,48]]⟩] = .ok stage ∧
    invalidBatch numericEqual plan stage onePrice.rows = true ∧
    ¬ RespectsEquality numericEqual prices plan onePrice.rows
      [⟨.move,[.text [49,46,48,48],.text [97]],some [.text [49,46,48]]⟩] := by
  have run : (do
      let plan ← (planApply prices prices.name "pg2cb_stage").toOption
      let stage ← (copyIn plan [⟨.move,[.text [49,46,48,48],.text [97]],some [.text [49,46,48]]⟩]).toOption
      some (invalidBatch numericEqual plan stage onePrice.rows)) = some true := by decide +kernel
  simp only [bind,Option.bind_eq_some_iff,toOptionSome,Option.some.injEq] at run
  obtain ⟨plan,planned,stage,copied,flagged⟩ := run
  refine ⟨plan,stage,planned,numericEquality,by decide,by decide +kernel,?_,by decide +kernel,copied,flagged,?_⟩
  · exact toOptionSome.mp (by decide +kernel)
  · intro respects
    obtain ⟨other,again,accepted⟩ := respects.accepted
    cases Except.ok.inj (copied.symm.trans again)
    rw [flagged] at accepted
    contradiction

end CloudberryEtl.Respelling
