import CloudberryEtl.Respelling

/-! The five statements under the equality operators of the server. On the tables that an accepted batch meets, every
join finds the rows that equality of the text finds, so the statements have the effect they have there. -/
namespace CloudberryEtl.SpelledSteps
open Schema Change TablePlan CopyText StagedApply SqlLogic KeyedTable Result Normalize KeyLayout Replay StagedSteps
open SetStatements BatchValidation FoldedBatch FoldInvariant FoldStep FoldRefines KeyEquality Respelling

/-- Whatever row has a key equal to this one has its text. -/
def Textual (equal : Nat → Bytes → Bytes → Bool) (schema : TableSchema) (rows : List Row) (key : Key) : Prop :=
  ∀ row ∈ rows, sameKeys equal (keyPositions schema) (rowKey schema row) (key.map some) → rowKey schema row = key.map some

section Textual
variable {equal : Nat → Bytes → Bytes → Bool} {schema : TableSchema} {rows : List Row} {key : Key}

theorem textualOfHeld (equality : SqlEquality equal) (apart : SqlDistinct equal schema rows)
    (found : (find schema rows key).isSome) : Textual equal schema rows key := by
  obtain ⟨held,found⟩ := Option.isSome_iff_exists.mp found
  obtain ⟨mem,named⟩ := findRow found
  intro row inRows same
  have symmetric : Std.Symm (fun left right => ¬ SameRow equal schema left right) := by
    constructor
    intro a b differ back
    exact differ (sameKeysSymm equality _ back)
  have one : row = held := by
    by_contra differ
    refine apart.forall inRows mem differ ?_
    rw [SameRow,named]
    exact same
  exact one ▸ named

theorem textualOfFree (free : holdsKey equal schema rows key = false) : Textual equal schema rows key := by
  intro row inRows same
  exact absurd same (List.any_eq_false.mp free row inRows)

theorem textualKeys {others : List Row} (sources : ∀ row ∈ others, ∃ source ∈ rows, rowKey schema row = rowKey schema source)
    (textual : Textual equal schema rows key) : Textual equal schema others key := by
  intro row mem same
  obtain ⟨source,inRows,named⟩ := sources row mem
  rw [named] at same ⊢
  exact textual source inRows same

theorem freeFind (equality : SqlEquality equal) (free : holdsKey equal schema rows key = false) :
    find schema rows key = none := by
  cases found : find schema rows key with
  | none => rfl
  | some row =>
    rw [heldStart equality (by rw [found]; rfl)] at free
    contradiction

end Textual

section Joins
variable {equal : Nat → Bytes → Bytes → Bool} (equality : SqlEquality equal) {schema : TableSchema} {plan : ApplyPlan}
  (distinct : AttnumsDistinct schema) (plans : Plans schema plan) {rows : List Row} {ops : List Op}
  (each : ∀ op ∈ ops, OpOk schema op)
include equality distinct plans

theorem joinAgrees {key : Key} (textual : Textual equal schema rows key) {row : Row} (mem : row ∈ rows) :
    holds (keysEqual equal plan (keyColumns plan row) (key.map some)) = decide (rowKey schema row = key.map some) := by
  rw [holdsKeysEqual,planKeyIndexes distinct plans,keyColumnsRow distinct plans,Bool.eq_iff_iff,decide_eq_true_iff]
  constructor
  · exact textual row mem
  · intro named
    rw [named]
    exact sameKeysRefl equality _ _

theorem keyJoinAgrees {op : Op} (ok : OpOk schema op) (textual : Textual equal schema rows op.key) {row : Row}
    (mem : row ∈ rows) :
    holds (keyJoin equal plan row (staged plan op)) = holds (keyJoin textEqual plan row (staged plan op)) := by
  rw [keyJoinStaged distinct plans row ok,keyJoin,stagedKey distinct plans ok]
  exact joinAgrees equality distinct plans textual mem

theorem oldKeyJoinAgrees {op : Op} (ok : OpOk schema op) (move : op.isMove) (textual : Textual equal schema rows op.old)
    {row : Row} (mem : row ∈ rows) :
    holds (oldKeyJoin equal plan row (staged plan op)) = holds (oldKeyJoin textEqual plan row (staged plan op)) := by
  rw [oldKeyJoinStaged distinct plans row ok move,oldKeyJoin,show (staged plan op).oldKey = op.old.map some from if_pos move]
  exact joinAgrees equality distinct plans textual mem

include each

theorem deleteAgrees (textual : ∀ op ∈ ops, op.operation = .delete → Textual equal schema rows op.key) :
    deleteStep equal plan (ops.map (staged plan)) rows = deleteStep textEqual plan (ops.map (staged plan)) rows := by
  refine List.filter_congr ?_
  intro row inRows
  congr 1
  refine anyAgrees ?_
  intro s mem
  obtain ⟨op,inOps,rfl⟩ := List.mem_map.mp mem
  simp only [isOperationStaged]
  by_cases dead : op.operation = .delete
  · rw [keyJoinAgrees equality distinct plans (each op inOps) (textual op inOps dead) inRows]
  · simp [dead]

theorem deleteMovedAgrees (textual : ∀ op ∈ ops, op.isMove → Textual equal schema rows op.old) :
    deleteMovedStep equal plan (ops.map (staged plan)) rows = deleteMovedStep textEqual plan (ops.map (staged plan)) rows := by
  refine List.filter_congr ?_
  intro row inRows
  congr 1
  refine anyAgrees ?_
  intro s mem
  obtain ⟨op,inOps,rfl⟩ := List.mem_map.mp mem
  simp only [isOperationStaged]
  by_cases move : op.isMove
  · rw [oldKeyJoinAgrees equality distinct plans (each op inOps) move (textual op inOps move) inRows]
  · have notMove : decide (op.operation = .move) = false := by simpa [Op.isMove] using move
    rw [notMove,Bool.false_and,Bool.false_and]

theorem movedAgrees (keys : ∀ op ∈ ops, op.isMove → Textual equal schema rows op.key)
    (olds : ∀ op ∈ ops, op.isMove → Textual equal schema rows op.old) :
    ((ops.map (staged plan)).filter (isOperation · .move)).flatMap (fun s =>
      if rows.any (fun row => holds (keyJoin equal plan row s)) then []
      else (rows.filter (fun row => holds (oldKeyJoin equal plan row s))).map (movedRow plan s)) =
    ((ops.map (staged plan)).filter (isOperation · .move)).flatMap (fun s =>
      if rows.any (fun row => holds (keyJoin textEqual plan row s)) then []
      else (rows.filter (fun row => holds (oldKeyJoin textEqual plan row s))).map (movedRow plan s)) := by
  refine List.flatMap_congr ?_
  intro s mem
  obtain ⟨inStage,moves⟩ := List.mem_filter.mp mem
  obtain ⟨op,inOps,rfl⟩ := List.mem_map.mp inStage
  have move : op.isMove := by rwa [isOperationStaged] at moves
  have ok := each op inOps
  have occupied : rows.any (fun row => holds (keyJoin equal plan row (staged plan op))) =
      rows.any (fun row => holds (keyJoin textEqual plan row (staged plan op))) :=
    anyAgrees (fun row mem => keyJoinAgrees equality distinct plans ok (keys op inOps move) mem)
  have leaving : rows.filter (fun row => holds (oldKeyJoin equal plan row (staged plan op))) =
      rows.filter (fun row => holds (oldKeyJoin textEqual plan row (staged plan op))) :=
    List.filter_congr (fun row mem => oldKeyJoinAgrees equality distinct plans ok move (olds op inOps move) mem)
  rw [occupied,leaving]

theorem updateAgrees (textual : ∀ op ∈ ops, op.operation = .upsert → Textual equal schema rows op.key) :
    updateStep equal plan (ops.map (staged plan)) rows = updateStep textEqual plan (ops.map (staged plan)) rows := by
  have joins : ∀ row ∈ rows, ∀ s ∈ ops.map (staged plan),
      (isOperation s .upsert && holds (keyJoin equal plan row s)) =
        (isOperation s .upsert && holds (keyJoin textEqual plan row s)) := by
    intro row inRows s mem
    obtain ⟨op,inOps,rfl⟩ := List.mem_map.mp mem
    rw [isOperationStaged]
    by_cases upsert : op.operation = .upsert
    · rw [keyJoinAgrees equality distinct plans (each op inOps) (textual op inOps upsert) inRows]
    · simp [upsert]
  have updates : ∀ some' ⊆ rows, updateFrom (fun (s : StagedRow) row => isOperation s .upsert && holds (keyJoin equal plan row s))
      (updatedRow plan) (ops.map (staged plan)) some' =
      updateFrom (fun (s : StagedRow) row => isOperation s .upsert && holds (keyJoin textEqual plan row s))
        (updatedRow plan) (ops.map (staged plan)) some' := by
    intro some' within
    refine List.map_congr_left ?_
    intro row inRows
    rw [List.find?_congr (joins row (within inRows))]
  have written : rows.filter (fun row => (ops.map (staged plan)).any (fun s =>
      isOperation s .upsert && holds (keyJoin equal plan row s))) =
      rows.filter (fun row => (ops.map (staged plan)).any (fun s =>
        isOperation s .upsert && holds (keyJoin textEqual plan row s))) :=
    List.filter_congr (fun row inRows => anyAgrees (joins row inRows))
  have rewrote := updates (rows.filter (fun row => (ops.map (staged plan)).any (fun s =>
    isOperation s .upsert && holds (keyJoin textEqual plan row s)))) (List.filter_subset_self rows)
  unfold updateStep
  simp only [written,rewrote,updates rows (List.Subset.refl rows)]

theorem insertedAgrees (textual : ∀ op ∈ ops, op.operation = .upsert → Textual equal schema rows op.key) :
    ((ops.map (staged plan)).filter (fun s => isOperation s .upsert &&
      !rows.any (fun row => holds (keyJoin equal plan row s)))).map StagedRow.data =
    ((ops.map (staged plan)).filter (fun s => isOperation s .upsert &&
      !rows.any (fun row => holds (keyJoin textEqual plan row s)))).map StagedRow.data := by
  congr 1
  refine List.filter_congr ?_
  intro s mem
  obtain ⟨op,inOps,rfl⟩ := List.mem_map.mp mem
  rw [isOperationStaged]
  by_cases upsert : op.operation = .upsert
  · congr 2
    exact anyAgrees
      (fun row mem => keyJoinAgrees equality distinct plans (each op inOps) (textual op inOps upsert) mem)
  · simp [upsert]

end Joins

section Inserts
variable {equal : Nat → Bytes → Bytes → Bool} (equality : SqlEquality equal) {schema : TableSchema} {plan : ApplyPlan}
  (distinct : AttnumsDistinct schema) (plans : Plans schema plan)
include equality distinct plans

theorem conflictsText (rows : List Row) (clash : conflicts textEqual plan rows) : conflicts equal plan rows := by
  induction rows with
  | nil => contradiction
  | cons row rows ih =>
    have coarser : ∀ other, sameKey textEqual plan row other → sameKey equal plan row other := by
      intro other same
      obtain ⟨key,left,right⟩ := (keysEqualIff distinct plans
        (keyColumnsRow distinct plans row ▸ rowKeyLength row)
        (keyColumnsRow distinct plans other ▸ rowKeyLength other)).mp same
      rw [sameKey,left,right,holdsKeysEqual]
      exact sameKeysRefl equality _ _
    rcases Bool.or_eq_true_iff.mp clash with here | later
    · obtain ⟨other,mem,same⟩ := List.any_eq_true.mp here
      exact Bool.or_eq_true_iff.mpr (.inl (List.any_eq_true.mpr ⟨other,mem,coarser other same⟩))
    · exact Bool.or_eq_true_iff.mpr (.inr (ih later))

omit equality in
theorem conflictsDistinct {rows : List Row} (keyed : ∀ row ∈ rows, ∃ key : Key, rowKey schema row = key.map some) :
    conflicts equal plan rows = false ↔ SqlDistinct equal schema rows := by
  induction rows with
  | nil => simp [conflicts,SqlDistinct]
  | cons row rows ih =>
    have rest := ih (fun row mem => keyed row (List.mem_cons_of_mem _ mem))
    have here : rows.any (sameKey equal plan row) = false ↔ ∀ other ∈ rows, ¬ SameRow equal schema row other := by
      rw [List.any_eq_false]
      refine forall₂_congr ?_
      intro other mem
      obtain ⟨key,named⟩ := keyed other (List.mem_cons_of_mem _ mem)
      rw [sameKey,keyColumnsRow distinct plans,keyColumnsRow distinct plans,named,holdsKeysEqual,
        planKeyIndexes distinct plans,SameRow,named]
    rw [conflicts,Bool.or_eq_false_iff,here,rest,SqlDistinct,SqlDistinct,List.pairwise_cons]

omit equality in
theorem insertSpelled {new rows out : List Row} (keyed : ∀ row ∈ out, ∃ key : Key, rowKey schema row = key.map some)
    (apart : SqlDistinct equal schema out) (ok : insertRows textEqual plan new rows = .ok out) :
    insertRows equal plan new rows = .ok out := by
  obtain ⟨fine,ok⟩ := iteOk.mp ok
  obtain ⟨_,ok⟩ := iteOk.mp ok
  cases Except.ok.inj ok
  have free := (conflictsDistinct distinct plans keyed).mpr apart
  exact iteOk.mpr ⟨fine,iteOk.mpr ⟨by simp [free],rfl⟩⟩

end Inserts

theorem updatedKeys {schema : TableSchema} {plan : ApplyPlan} (distinct : AttnumsDistinct schema) (plans : Plans schema plan)
    {rows out : List Row} (table : IsTable schema rows) {ops : List Op} (each : ∀ op ∈ ops, OpOk schema op)
    (ok : updateStep textEqual plan (ops.map (staged plan)) rows = .ok out) :
    ∀ row ∈ out, ∃ source ∈ rows, rowKey schema row = rowKey schema source := by
  intro row mem
  unfold updateStep at ok
  split at ok
  · cases Except.ok.inj ok
    exact ⟨row,mem,rfl⟩
  · obtain ⟨_,ok⟩ := iteOk.mp ok
    cases Except.ok.inj ok
    obtain ⟨source,inRows,rfl⟩ := List.mem_map.mp mem
    rw [updatedRows distinct plans table each source inRows]
    exact ⟨source,inRows,(updatedShape distinct table each inRows).2⟩

section Applied
variable {equal : Nat → Bytes → Bytes → Bool} (equality : SqlEquality equal) {schema : TableSchema} {plan : ApplyPlan}
  (distinct : AttnumsDistinct schema) (plans : Plans schema plan) {rows final : List Row}
  (table : IsTable schema rows) (result : IsTable schema final) (apart : SqlDistinct equal schema rows)
  (lastApart : SqlDistinct equal schema final) {ops : List Op}
  (describes : Describes schema (find schema rows) (find schema final) ops)
  (started : ∀ op ∈ ops, op.operation = .delete → (find schema rows op.key).isSome)
include equality distinct plans describes

include table apart in
theorem moveFree (accepted : invalidBatch equal plan (ops.map (staged plan)) rows = false) {op : Op} (mem : op ∈ ops)
    (move : op.isMove) : holdsKey equal schema rows op.key = false := by
  obtain ⟨flags,_,_⟩ := (acceptedIff equality distinct plans table apart describes.shape).mp accepted
  obtain ⟨base,present,_⟩ := describes.move op mem move
  have old : holdsKey equal schema rows op.old = true := heldStart equality (by rw [present]; rfl)
  cases held : holdsKey equal schema rows op.key with
  | false => rfl
  | true => exact absurd (.inl ⟨move,.inr (held.trans old.symm)⟩) (flags op mem)

omit equality plans distinct in
theorem oldStarted {op : Op} (mem : op ∈ ops) (move : op.isMove) : (find schema rows op.old).isSome := by
  obtain ⟨base,present,_⟩ := describes.move op mem move
  rw [present]
  rfl

omit equality plans distinct in
theorem upsertEnds {op : Op} (mem : op ∈ ops) (upsert : op.operation = .upsert) : (find schema final op.key).isSome := by
  obtain ⟨base,_,value,_⟩ := describes.upsert op mem upsert
  rw [value]
  rfl

omit plans in
include lastApart in
theorem upsertTextual {after : List Row} (moves : AfterMoves schema rows final ops after) {op : Op} (mem : op ∈ ops)
    (upsert : op.operation = .upsert) : Textual equal schema after op.key := by
  intro row inRows same
  obtain ⟨key,named⟩ := rowKeyText distinct (moves.content.width row inRows) (moves.content.admitted row inRows)
  have lives : (find schema final key).isSome := by
    by_cases written : ∃ other ∈ ops, other.operation = .upsert ∧ other.key = key
    · obtain ⟨other,inOps,upserts,rfl⟩ := written
      exact upsertEnds describes inOps upserts
    · push Not at written
      have found : find schema after key = some row := (lookupIff moves.content.unique).mpr ⟨inRows,named⟩
      rw [← moves.settled key written,found]
      rfl
  rw [named] at same ⊢
  rw [sameKeyText equality lastApart lives (upsertEnds describes mem upsert) same]

include table in
omit equality in
theorem movedNamed {op : Op} (mem : op ∈ ops) {row : Row}
    (writes : movedOf schema (deleteStep textEqual plan (ops.map (staged plan)) rows) op = some row) :
    op.isMove ∧ (find schema final op.key).isSome ∧ rowKey schema row = op.key.map some := by
  have move : op.isMove := by
    by_contra still
    simp [movedOf,still] at writes
  obtain ⟨_,base,present,value,written⟩ := movedOfMove distinct plans table describes mem move
  cases Option.some.inj (written.symm.trans writes)
  have ok := describes.shape op mem
  exact ⟨move,by rw [value]; rfl,rowKeyPatch distinct ok.arity (table.width base (findRow present).1) ok.named⟩

include table apart lastApart in
theorem movedApart (accepted : invalidBatch equal plan (ops.map (staged plan)) rows = false) :
    SqlDistinct equal schema (deleteStep textEqual plan (ops.map (staged plan)) rows ++
      ops.filterMap (movedOf schema (deleteStep textEqual plan (ops.map (staged plan)) rows))) := by
  refine List.pairwise_append.mpr ⟨apart.sublist List.filter_sublist,?_,?_⟩
  · refine List.pairwise_filterMap.mpr ((List.Nodup.of_map _ describes.keys).pairwise_of_forall_ne ?_)
    intro a memA b memB differ left writesA right writesB same
    obtain ⟨_,liveA,namedA⟩ := movedNamed distinct plans table describes memA writesA
    obtain ⟨_,liveB,namedB⟩ := movedNamed distinct plans table describes memB writesB
    rw [SameRow,namedA,namedB] at same
    exact differ (List.inj_on_of_nodup_map describes.keys memA memB (sameKeyText equality lastApart liveA liveB same))
  · intro row inRows new isNew same
    obtain ⟨op,inOps,writes⟩ := List.mem_filterMap.mp isNew
    obtain ⟨move,_,named⟩ := movedNamed distinct plans table describes inOps writes
    have free := moveFree equality distinct plans table apart describes accepted inOps move
    rw [SameRow,named] at same
    exact List.any_eq_false.mp free row (List.mem_of_mem_filter inRows) same

include table apart in
theorem leavingTextual (accepted : invalidBatch equal plan (ops.map (staged plan)) rows = false) {op : Op} (mem : op ∈ ops)
    (move : op.isMove) : Textual equal schema (deleteStep textEqual plan (ops.map (staged plan)) rows ++
      ops.filterMap (movedOf schema (deleteStep textEqual plan (ops.map (staged plan)) rows))) op.old := by
  intro row inRows same
  have started := oldStarted describes mem move
  rcases List.mem_append.mp inRows with before | new
  · exact textualOfHeld equality apart started row (List.mem_of_mem_filter before) same
  · -- a moved row has a key that no row of the table had
    obtain ⟨other,inOps,writes⟩ := List.mem_filterMap.mp new
    obtain ⟨otherMove,_,named⟩ := movedNamed distinct plans table describes inOps writes
    rw [named] at same
    have held : holdsKey equal schema rows other.key = true := heldSame started (sameKeySymm equality same)
    rw [moveFree equality distinct plans table apart describes accepted inOps otherMove] at held
    contradiction

omit equality in
include table in
theorem movedGrown {moved : List Row} (moving : moveStep textEqual plan (ops.map (staged plan))
      (deleteStep textEqual plan (ops.map (staged plan)) rows) = .ok moved) :
    moved = deleteStep textEqual plan (ops.map (staged plan)) rows ++
      ops.filterMap (movedOf schema (deleteStep textEqual plan (ops.map (staged plan)) rows)) := by
  have deletedTable : IsTable schema (deleteStep textEqual plan (ops.map (staged plan)) rows) := deleteTable table _
  unfold moveStep at moving
  rw [movedRows distinct plans deletedTable describes.shape] at moving
  exact (Except.ok.inj (iteOk.mp (iteOk.mp moving).2).2).symm

include table apart lastApart in
theorem moveAgrees (accepted : invalidBatch equal plan (ops.map (staged plan)) rows = false) {moved : List Row}
    (moving : moveStep textEqual plan (ops.map (staged plan))
      (deleteStep textEqual plan (ops.map (staged plan)) rows) = .ok moved) :
    moveStep equal plan (ops.map (staged plan)) (deleteStep textEqual plan (ops.map (staged plan)) rows) = .ok moved := by
  have grown := movedGrown distinct plans table describes moving
  have deletedTable : IsTable schema (deleteStep textEqual plan (ops.map (staged plan)) rows) := deleteTable table _
  have fewer : ∀ row ∈ deleteStep textEqual plan (ops.map (staged plan)) rows, ∃ source ∈ rows,
      rowKey schema row = rowKey schema source := fun row mem => ⟨row,List.mem_of_mem_filter mem,rfl⟩
  have movedKeyed : ∀ row ∈ moved, ∃ key : Key, rowKey schema row = key.map some := by
    intro row mem
    rw [grown] at mem
    rcases List.mem_append.mp mem with before | new
    · exact rowKeyText distinct (deletedTable.width row before) (deletedTable.admitted row before)
    · obtain ⟨op,inOps,writes⟩ := List.mem_filterMap.mp new
      exact ⟨op.key,(movedNamed distinct plans table describes inOps writes).2.2⟩
  unfold moveStep at moving ⊢
  rw [movedAgrees equality distinct plans describes.shape
    (fun op mem move => textualKeys fewer
      (textualOfFree (moveFree equality distinct plans table apart describes accepted mem move)))
    (fun op mem move => textualKeys fewer (textualOfHeld equality apart (oldStarted describes mem move)))]
  have apart' := movedApart equality distinct plans table apart lastApart describes accepted
  exact insertSpelled distinct plans movedKeyed (grown ▸ apart') moving

include table result apart lastApart started in
/-- An accepted batch is applied, and its statements do what they do under equality of the text. -/
theorem appliedAgrees (accepted : invalidBatch equal plan (ops.map (staged plan)) rows = false) :
    applySteps equal plan (ops.map (staged plan)) rows = applySteps textEqual plan (ops.map (staged plan)) rows := by
  have each := describes.shape
  have deleted := deleteAgrees equality distinct plans each
    (fun op mem dead => textualOfHeld equality apart (started op mem dead))
  have keyed {rows : List Row} (table : IsTable schema rows) {row : Row} (mem : row ∈ rows) :=
    rowKeyText distinct (table.width row mem) (table.admitted row mem)
  obtain ⟨out,applied,perm⟩ := appliedSteps distinct plans table result describes
  rw [applied]
  unfold applySteps at applied ⊢
  obtain ⟨moved,moving,applied⟩ := bindOk.mp applied
  obtain ⟨moved',first,moves⟩ := afterMoves distinct plans table result describes
  cases Except.ok.inj (first.symm.trans moving)
  have grown := movedGrown distinct plans table describes moving
  have spelled := moveAgrees equality distinct plans table apart lastApart describes accepted moving
  obtain ⟨updated,updating,inserting⟩ := bindOk.mp applied
  rw [deleted]
  refine bindOk.mpr ⟨moved,spelled,?_⟩
  dsimp only
  rw [deleteMovedAgrees equality distinct plans each fun op mem move =>
    grown ▸ leavingTextual equality distinct plans table apart describes accepted mem move]
  refine bindOk.mpr ⟨updated,?_,?_⟩
  · rw [updateAgrees equality distinct plans each
      (fun op mem upsert => upsertTextual equality distinct lastApart describes moves mem upsert)]
    exact updating
  · unfold insertStep at inserting ⊢
    rw [insertedAgrees equality distinct plans each (fun op mem upsert => textualKeys
      (updatedKeys distinct plans moves.content each updating)
      (upsertTextual equality distinct lastApart describes moves mem upsert))]
    have outApart : SqlDistinct equal schema out := (perm.pairwise_iff fun differ back =>
      differ (sameKeysSymm equality _ back)).mpr lastApart
    exact insertSpelled distinct plans (fun row mem => keyed result (perm.subset mem)) outApart inserting

end Applied

theorem executedSource {equal : Nat → Bytes → Bytes → Bool} {schema : TableSchema} {plan : ApplyPlan}
    (distinct : AttnumsDistinct schema) (plans : Plans schema plan) {rows out : List Row} {ops : List Op}
    (each : ∀ op ∈ ops, OpOk schema op) (executed : executeTable equal plan (ops.map Op.row) rows = .ok out) :
    (ops = [] ∧ out = rows ∨ applySteps equal plan (ops.map (staged plan)) rows = .ok out) ∧
      invalidBatch equal plan (ops.map (staged plan)) rows = false := by
  unfold executeTable at executed
  split at executed
  next empty =>
    cases Except.ok.inj executed
    have none' : ops = [] := by simpa using empty
    subst none'
    exact ⟨.inl ⟨rfl,rfl⟩,rfl⟩
  next =>
    obtain ⟨stage,copied,executed⟩ := bindOk.mp executed
    cases Except.ok.inj ((copyInOps distinct plans each).symm.trans copied)
    obtain ⟨accepted,applied⟩ := iteOk.mp executed
    exact ⟨.inr applied,Bool.eq_false_iff.mpr accepted⟩

/-- Under any equality of the server, a folded batch that is applied gives the table that the changes give one by one. -/
theorem executedReplays {equal : Nat → Bytes → Bytes → Bool} (equality : SqlEquality equal) {schema : TableSchema}
    {target staging plan} (distinct : AttnumsDistinct schema) (planned : planApply schema target staging = .ok plan)
    (content : TableContent schema) (apart : SqlDistinct equal schema content.rows) {changes rows final out}
    (replayed : sqlReplay equal schema content.rows changes = some final)
    (folded : normalizeTableChanges schema changes = .ok rows)
    (executed : executeTable equal plan rows content.rows = .ok out) : out.Perm final := by
  obtain ⟨n,run,rfl⟩ := normalizeSource folded
  obtain ⟨plans,_,_⟩ := planApplySource planned
  obtain ⟨replayed,lastApart⟩ := sqlReplaySource replayed apart
  have keyed := keyedFind content.valid
  obtain ⟨result,inv⟩ := runFolded distinct keyed changes content.valid (foldedStart schema _) replayed run
  have describes := foldedDescribes distinct keyed inv
  obtain ⟨effect,accepted⟩ := executedSource distinct plans describes.shape executed
  obtain ⟨again,applied,perm⟩ := appliedSteps distinct plans content.valid result describes
  rcases effect with ⟨none',rfl⟩ | effect
  · rw [none'] at applied
    exact applyNothing applied ▸ perm
  · rw [appliedAgrees equality distinct plans content.valid result apart lastApart describes
      (fun op mem dead => deadAtStart inv mem dead) accepted,applied] at effect
    cases Except.ok.inj effect
    exact perm

/-- Under any equality of the server, a folded batch that respells no key is applied. -/
theorem executedQuiet {equal : Nat → Bytes → Bytes → Bool} (equality : SqlEquality equal) {schema : TableSchema}
    {plan : ApplyPlan} (distinct : AttnumsDistinct schema) (plans : Plans schema plan) {rows final : List Row}
    (table : IsTable schema rows) (result : IsTable schema final) (apart : SqlDistinct equal schema rows)
    (lastApart : SqlDistinct equal schema final) {n : Normalizer}
    (inv : Folded schema (find schema rows) (find schema final) n) (quiet : Quiet equal schema rows n) :
    ∃ out, executeTable equal plan ((foldedOps n).map Op.row) rows = .ok out ∧ out.Perm final := by
  have describes := foldedDescribes distinct (keyedFind table) inv
  have accepted := (foldedAccepted equality apart distinct plans table inv lastApart).mpr quiet
  obtain ⟨out,applied,perm⟩ := appliedSteps distinct plans table result describes
  unfold executeTable
  split
  next empty =>
    have none' : foldedOps n = [] := by simpa using empty
    rw [none'] at applied
    exact ⟨rows,rfl,applyNothing applied ▸ perm⟩
  next =>
    refine ⟨out,bindOk.mpr ⟨_,copyInOps distinct plans describes.shape,?_⟩,perm⟩
    rw [if_neg (by simp [accepted]),appliedAgrees equality distinct plans table result apart lastApart describes
      (fun op mem dead => deadAtStart inv mem dead) accepted]
    exact applied

end CloudberryEtl.SpelledSteps
