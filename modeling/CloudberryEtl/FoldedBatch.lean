import CloudberryEtl.BatchValidation

/-! A collapsed batch that describes the passage from one table to another. The five statements, in the order in which
they are executed, turn the first table into the second; validation accepts the batch on the first. -/
namespace CloudberryEtl.FoldedBatch
open Schema Change TablePlan CopyText StagedApply SqlLogic KeyedTable Result Normalize KeyLayout Replay StagedSteps
open SetStatements BatchValidation

structure Describes (schema : TableSchema) (start table : Key → Option Row) (ops : List Op) : Prop where
  shape : ∀ op ∈ ops, OpOk schema op
  keys : (ops.map Op.key).Nodup
  olds : ((ops.filter Op.isMove).map Op.old).Nodup
  upsert : ∀ op ∈ ops, op.operation = .upsert → ∃ base : Row, base.length = schema.columns.length ∧
    table op.key = some (patchRow op.cells base) ∧
    ((start op.key = some base ∧ ∀ other ∈ ops, other.isMove → other.old ≠ op.key) ∨ Cell.unchangedToast ∉ op.cells)
  move : ∀ op ∈ ops, op.isMove → ∃ base, start op.old = some base ∧ table op.key = some (patchRow op.cells base) ∧
    start op.key = none ∧ ∀ other ∈ ops, other.operation = .delete → other.key ≠ op.old
  delete : ∀ op ∈ ops, op.operation = .delete → table op.key = none
  rest : ∀ key, (∀ op ∈ ops, op.key ≠ key) →
    ((∃ op ∈ ops, op.isMove ∧ op.old = key) ∧ table key = none) ∨
      ((∀ op ∈ ops, op.isMove → op.old ≠ key) ∧ table key = start key)

theorem operationCases (op : Op) : op.operation = .upsert ∨ op.operation = .delete ∨ op.isMove := by
  cases h : op.operation <;> simp [Op.isMove,h]

theorem moveNot {op : Op} (move : op.isMove) : op.operation ≠ .upsert ∧ op.operation ≠ .delete := by
  have operation : op.operation = .move := by simpa [Op.isMove] using move
  simp [operation]

section Batch
variable {schema : TableSchema} {start table : Key → Option Row} {ops : List Op}

theorem Describes.sameOp (describes : Describes schema start table ops) {a b : Op} (memA : a ∈ ops) (memB : b ∈ ops)
    (same : a.key = b.key) : a = b := List.inj_on_of_nodup_map describes.keys memA memB same

theorem Describes.notOld (describes : Describes schema start table ops) {op : Op} (mem : op ∈ ops) (move : op.isMove) :
    ∀ other ∈ ops, other.isMove → other.old ≠ op.key := by
  intro other memOther moveOther same
  obtain ⟨_,present,_⟩ := describes.move other memOther moveOther
  obtain ⟨_,_,_,absent,_⟩ := describes.move op mem move
  rw [same,absent] at present
  contradiction

/-- Validation accepts the batch on the table it starts from. -/
theorem Describes.accepted (describes : Describes schema start table ops) {plan : ApplyPlan}
    (distinct : AttnumsDistinct schema) (plans : Plans schema plan) {rows : List Row} (content : IsTable schema rows)
    (same : start = find schema rows) : invalidBatch textEqual plan (ops.map (staged plan)) rows = false := by
  rw [Bool.eq_false_iff,ne_eq,invalidBatchOps distinct plans content describes.shape describes.keys describes.olds]
  rintro ⟨op,mem,⟨move,flagged⟩ | ⟨upsert,absent,toast⟩⟩
  · obtain ⟨base,present,_,absent,_⟩ := describes.move op mem move
    rw [same] at present absent
    rcases flagged with equal | both
    · rw [equal,present] at absent
      contradiction
    · rw [present,absent] at both
      contradiction
  · obtain ⟨base,_,_,⟨present,_⟩ | complete⟩ := describes.upsert op mem upsert
    · rw [same,absent] at present
      contradiction
    · exact complete toast

end Batch

section Steps
variable {schema : TableSchema} {plan : ApplyPlan} (distinct : AttnumsDistinct schema) (plans : Plans schema plan)
  {rows final : List Row} (content : IsTable schema rows) (result : IsTable schema final) {ops : List Op}
  (describes : Describes schema (find schema rows) (find schema final) ops)
include distinct plans content result describes

structure AfterMoves (schema : TableSchema) (rows final : List Row) (ops : List Op) (after : List Row) : Prop where
  content : IsTable schema after
  stable : ∀ op ∈ ops, op.operation = .upsert → (∀ other ∈ ops, other.isMove → other.old ≠ op.key) →
    find schema after op.key = find schema rows op.key
  settled : ∀ key, (∀ op ∈ ops, op.operation = .upsert → op.key ≠ key) → find schema after key = find schema final key

omit result in
theorem deleteFind (key : Key) : find schema (deleteStep textEqual plan (ops.map (staged plan)) rows) key =
    if ∃ op ∈ ops, op.operation = .delete ∧ op.key = key then none else find schema rows key := by
  refine (findDelete content (fun op => decide (op.operation = .delete)) Op.key ?_ key).trans (by simp)
  exact deleteJoined distinct plans describes.shape

omit result in
theorem deleteFindOther {op : Op} (mem : op ∈ ops) (other : op.operation ≠ .delete) :
    find schema (deleteStep textEqual plan (ops.map (staged plan)) rows) op.key = find schema rows op.key := by
  rw [deleteFind distinct plans content describes,if_neg]
  rintro ⟨deleted,memDeleted,delete,same⟩
  exact other (describes.sameOp memDeleted mem same ▸ delete)

omit result in
theorem movedOfMove {op : Op} (mem : op ∈ ops) (move : op.isMove) :
    find schema (deleteStep textEqual plan (ops.map (staged plan)) rows) op.key = none ∧
      ∃ base, find schema rows op.old = some base ∧ find schema final op.key = some (patchRow op.cells base) ∧
        movedOf schema (deleteStep textEqual plan (ops.map (staged plan)) rows) op = some (patchRow op.cells base) := by
  obtain ⟨base,present,value,absent,kept⟩ := describes.move op mem move
  have absent' : find schema (deleteStep textEqual plan (ops.map (staged plan)) rows) op.key = none := by
    rw [deleteFind distinct plans content describes,absent,ite_self]
  have present' : find schema (deleteStep textEqual plan (ops.map (staged plan)) rows) op.old = some base := by
    rw [deleteFind distinct plans content describes,if_neg,present]
    rintro ⟨other,memOther,delete,same⟩
    exact kept other memOther delete same
  refine ⟨absent',base,present,value,?_⟩
  rw [movedOf,if_pos ⟨move,absent'⟩,present',Option.map_some]

theorem afterMoves : ∃ moved,
    moveStep textEqual plan (ops.map (staged plan)) (deleteStep textEqual plan (ops.map (staged plan)) rows) = .ok moved ∧
      AfterMoves schema rows final ops (deleteMovedStep textEqual plan (ops.map (staged plan)) moved) := by
  let deleted := deleteStep textEqual plan (ops.map (staged plan)) rows
  have deletedTable : IsTable schema deleted := deleteTable content _
  have source : ∀ op ∈ ops, ∀ row, movedOf schema deleted op = some row → op.isMove ∧
      find schema deleted op.key = none ∧ ∃ base, find schema rows op.old = some base ∧
        find schema final op.key = some (patchRow op.cells base) ∧ row = patchRow op.cells base := by
    intro op mem row writes
    have move : op.isMove := by
      by_contra other
      simp [movedOf,other] at writes
    obtain ⟨absent,base,present,value,moved⟩ := movedOfMove distinct plans content describes mem move
    exact ⟨move,absent,base,present,value,(Option.some.inj (moved.symm.trans writes)).symm⟩
  have names : Names schema ops (movedOf schema deleted) := by
    intro op mem row writes
    obtain ⟨_,_,base,_,value,rfl⟩ := source op mem row writes
    exact (findRow value).2
  obtain ⟨inserted,movedTable⟩ := insertWritten distinct plans deletedTable names describes.keys
    (fun op mem row writes => (source op mem row writes).2.1)
    (fun op mem row writes => by
      obtain ⟨_,_,base,_,value,rfl⟩ := source op mem row writes
      exact ⟨result.width _ (findRow value).1,result.admitted _ (findRow value).1⟩)
  refine ⟨deleted ++ ops.filterMap (movedOf schema deleted),?_,?_⟩
  · rw [moveStep,movedRows distinct plans deletedTable describes.shape]
    exact inserted
  have moved : ∀ key, find schema (deleteMovedStep textEqual plan (ops.map (staged plan))
      (deleted ++ ops.filterMap (movedOf schema deleted))) key =
      if ∃ op ∈ ops, op.isMove ∧ op.old = key then none
      else (find schema deleted key).or (find schema (ops.filterMap (movedOf schema deleted)) key) := by
    intro key
    rw [← findAppendOr]
    refine findDelete movedTable Op.isMove Op.old ?_ key
    exact deleteMovedJoined distinct plans describes.shape
  refine ⟨deleteTable movedTable _,fun op mem upsert kept => ?_,fun key other => ?_⟩
  · have notMove : ¬ op.isMove := fun move => (moveNot move).1 upsert
    rw [moved,if_neg,findWritten names describes.keys mem,deleteFindOther distinct plans content describes mem (by simp [upsert])]
    · simp [movedOf,notMove]
    · rintro ⟨moving,memMoving,move,same⟩
      exact kept moving memMoving move same
  · by_cases named : ∃ op ∈ ops, op.key = key
    · obtain ⟨op,mem,rfl⟩ := named
      rcases operationCases op with upsert | delete | move
      · exact absurd rfl (other op mem upsert)
      · have absent : find schema deleted op.key = none := by
          rw [show find schema deleted op.key = _ from deleteFind distinct plans content describes op.key,
            if_pos ⟨op,mem,delete,rfl⟩]
        have notMove : ¬ op.isMove := fun move => (moveNot move).2 delete
        rw [moved,findWritten names describes.keys mem,absent,describes.delete op mem delete]
        simp [movedOf,notMove]
      · obtain ⟨absent,base,_,value,writes⟩ := movedOfMove distinct plans content describes mem move
        rw [moved,if_neg,findWritten names describes.keys mem,show find schema deleted op.key = none from absent,
          show movedOf schema deleted op = _ from writes,value,Option.none_or]
        rintro ⟨moving,memMoving,moves,same⟩
        exact describes.notOld mem move moving memMoving moves same
    · push Not at named
      have kept : find schema deleted key = find schema rows key := by
        rw [show find schema deleted key = _ from deleteFind distinct plans content describes key,if_neg]
        rintro ⟨op,mem,_,same⟩
        exact named op mem same
      have unwritten := findWrittenNone names (fun op mem same => absurd same (named op mem))
      rw [moved,kept,unwritten]
      rcases describes.rest key named with ⟨old,gone⟩ | ⟨notOld,same⟩
      · rw [if_pos old,gone]
      · rw [if_neg,same,Option.or_none]
        rintro ⟨op,mem,move,equal⟩
        exact notOld op mem move equal

omit distinct plans content result in
theorem upsertRow {after : List Row} (moves : AfterMoves schema rows final ops after) {op : Op} (mem : op ∈ ops)
    (upsert : op.operation = .upsert) {row} (present : find schema after op.key = some row) :
    find schema final op.key = some (patchRow op.cells row) := by
  obtain ⟨base,width,value,⟨stable,kept⟩ | complete⟩ := describes.upsert op mem upsert
  · rw [moves.stable op mem upsert kept,stable] at present
    cases Option.some.inj present
    exact value
  · rw [value,patchRowComplete complete (width.trans (moves.content.width row (findRow present).1).symm)]

omit distinct plans content result in
theorem insertedRow {after : List Row} (moves : AfterMoves schema rows final ops after) {op : Op} (mem : op ∈ ops)
    (upsert : op.operation = .upsert) (absent : find schema after op.key = none) :
    find schema final op.key = some (op.cells.map cellValue) := by
  obtain ⟨base,width,value,⟨stable,kept⟩ | complete⟩ := describes.upsert op mem upsert
  · rw [moves.stable op mem upsert kept,stable] at absent
    contradiction
  · rw [value]
    congr 1
    have ok := describes.shape op mem
    have shape := (patchRowLength (ok.arity.trans width.symm)).trans width
    have dataShape : (op.cells.map cellValue).length = schema.columns.length := by simpa using ok.arity
    rw [← rowByColumns shape,← rowByColumns dataShape]
    refine List.map_congr_left fun index inRange => ?_
    have bound := List.mem_range.mp inRange
    rw [columnPatch (ok.arity.trans width.symm) (width ▸ bound)]
    have present : cellAt op.cells index ≠ .unchangedToast := by
      intro toast
      have inside : index < op.cells.length := ok.arity ▸ bound
      simp only [cellAt,List.getD_eq_getElem?_getD,List.getElem?_eq_getElem inside,Option.getD_some] at toast
      exact complete (toast ▸ List.getElem_mem inside)
    exact (dataPatch ok bound present _).symm

/-- The five statements turn the first table into the second. -/
theorem appliedSteps : ∃ out, applySteps textEqual plan (ops.map (staged plan)) rows = .ok out ∧ out.Perm final := by
  obtain ⟨moved,movedOk,moves⟩ := afterMoves distinct plans content result describes
  let after := deleteMovedStep textEqual plan (ops.map (staged plan)) moved
  have each := describes.shape
  obtain ⟨updatedOk,updatedTable⟩ := updateStepOk distinct plans moves.content each
    (fun op mem upsert row present =>
      result.admitted _ (findRow (upsertRow describes moves mem upsert present)).1)
  let updated := after.map (updatedOf schema ops)
  have source : ∀ op ∈ ops, ∀ row, insertedOf schema updated op = some row →
      find schema updated op.key = none ∧ find schema final op.key = some row := by
    intro op mem row writes
    unfold insertedOf at writes
    split at writes <;> try contradiction
    rename_i condition
    cases Option.some.inj writes
    refine ⟨condition.2,insertedRow describes moves mem condition.1 ?_⟩
    cases present : find schema after op.key with
    | none => rfl
    | some row =>
      have hit := updateHit distinct moves.content each describes.keys mem condition.1 present
      exact absurd (condition.2.symm.trans hit) (by simp)
  have names : Names schema ops (insertedOf schema updated) :=
    fun op mem row writes => (findRow (source op mem row writes).2).2
  obtain ⟨insertedOk,outTable⟩ := insertWritten distinct plans updatedTable names describes.keys
    (fun op mem row writes => (source op mem row writes).1)
    (fun op mem row writes => ⟨result.width _ (findRow (source op mem row writes).2).1,
      result.admitted _ (findRow (source op mem row writes).2).1⟩)
  refine ⟨updated ++ ops.filterMap (insertedOf schema updated),?_,?_⟩
  · refine bindOk.mpr ⟨moved,movedOk,bindOk.mpr ⟨updated,updatedOk,?_⟩⟩
    rw [insertStep,insertedRows distinct plans each]
    exact insertedOk
  -- both tables are determined by their lookups
  have same : ∀ key, find schema (updated ++ ops.filterMap (insertedOf schema updated)) key = find schema final key := by
    intro key
    rw [findAppendOr]
    by_cases named : ∃ op ∈ ops, op.operation = .upsert ∧ op.key = key
    · obtain ⟨op,mem,upsert,rfl⟩ := named
      rw [findWritten names describes.keys mem]
      cases present : find schema after op.key with
      | some row =>
        rw [show find schema updated op.key = _ from
          updateHit distinct moves.content each describes.keys mem upsert present,Option.some_or,
          upsertRow describes moves mem upsert present]
      | none =>
        have absent : find schema updated op.key = none := by
          rw [show find schema updated op.key = (find schema after op.key).map (updatedOf schema ops) from
            lookupMapSameKey (fun row mem => (updatedShape distinct moves.content each mem).2) _,present]
          rfl
        rw [absent,Option.none_or,insertedOf,if_pos ⟨upsert,absent⟩,
          insertedRow describes moves mem upsert present]
    · push Not at named
      have missed : find schema updated key = find schema after key := updateMiss distinct moves.content each named
      have unwritten := findWrittenNone names (fun op mem (same : op.key = key) => by
        rw [insertedOf,if_neg]
        exact fun condition => named op mem condition.1 same)
      rw [missed,unwritten,Option.or_none,moves.settled key named]
  refine permOfLookup outTable.unique result.unique fun key => ?_
  by_cases text : ∃ k : Key, key = k.map some
  · obtain ⟨k,rfl⟩ := text
    exact same k
  · push Not at text
    have none' : ∀ {list : List Row}, IsTable schema list → lookup (rowKey schema) list key = none := by
      intro list table
      refine lookupNone.mpr fun row mem equal => ?_
      obtain ⟨k,named⟩ := rowKeyText distinct (table.width row mem) (table.admitted row mem)
      exact text k (equal.symm.trans named)
    rw [none' outTable,none' result]

end Steps

theorem insertNothing {plan : ApplyPlan} {rows out : List Row} (ok : insertRows textEqual plan [] rows = .ok out) :
    out = rows := by
  unfold insertRows at ok
  obtain ⟨_,ok⟩ := iteOk.mp ok
  obtain ⟨_,ok⟩ := iteOk.mp ok
  simpa using (Except.ok.inj ok).symm

theorem applyNothing {plan : ApplyPlan} {rows out : List Row} (ok : applySteps textEqual plan [] rows = .ok out) :
    out = rows := by
  have kept : ∀ joins : StagedRow → Row → Bool, ∀ rows, deleteUsing joins [] rows = rows := by simp [deleteUsing]
  have same : ∀ joins : StagedRow → Row → Bool, ∀ set rows, updateFrom joins set [] rows = rows := by simp [updateFrom]
  obtain ⟨moved,first,ok⟩ := bindOk.mp ok
  obtain ⟨updated,second,ok⟩ := bindOk.mp ok
  have movedSame : moved = rows := (insertNothing first).trans (kept _ rows)
  have updatedSame : updated = moved := by
    unfold updateStep deleteMovedStep at second
    rw [kept] at second
    split at second
    · exact (Except.ok.inj second).symm
    · obtain ⟨_,second⟩ := iteOk.mp second
      simpa [same] using (Except.ok.inj second).symm
  rw [insertNothing ok,updatedSame,movedSame]

/-- The loop body of `execute_apply` accepts the batch and turns the first table into the second. -/
theorem executedTable {schema : TableSchema} {plan : ApplyPlan} (distinct : AttnumsDistinct schema)
    (plans : Plans schema plan) {rows final : List Row} (content : IsTable schema rows) (result : IsTable schema final)
    {ops : List Op} (describes : Describes schema (find schema rows) (find schema final) ops) :
    ∃ out, executeTable textEqual plan (ops.map Op.row) rows = .ok out ∧ out.Perm final := by
  obtain ⟨out,applied,perm⟩ := appliedSteps distinct plans content result describes
  unfold executeTable
  split
  · rename_i empty
    have nothing : ops = [] := by simpa using empty
    subst nothing
    exact ⟨rows,rfl,applyNothing applied ▸ perm⟩
  · refine ⟨out,bindOk.mpr ⟨_,copyInOps distinct plans describes.shape,?_⟩,perm⟩
    rw [if_neg (by simp [describes.accepted distinct plans content rfl])]
    exact applied

end CloudberryEtl.FoldedBatch
