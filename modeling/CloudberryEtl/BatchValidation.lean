import CloudberryEtl.SetStatements

/-! When `validation_sql` flags a batch of well formed operations with distinct keys: at a move whose old and new key
are the same or are both present or both absent, and at an incomplete upsert of an absent key. -/
namespace CloudberryEtl.BatchValidation
open Schema Change TablePlan CopyText StagedApply SqlLogic KeyedTable Result Normalize KeyLayout Replay StagedSteps
open SetStatements

def OpInvalid (schema : TableSchema) (rows : List Row) (op : Op) : Prop :=
  (op.isMove ∧ (op.key = op.old ∨ (find schema rows op.key).isNone = (find schema rows op.old).isNone)) ∨
    (op.operation = .upsert ∧ find schema rows op.key = none ∧ Cell.unchangedToast ∈ op.cells)

instance (schema rows op) : Decidable (OpInvalid schema rows op) := by unfold OpInvalid; infer_instance

theorem anyLeftJoin {on : Row → Option Bool} {rows : List Row} {p : Option Row → Bool} {found : Option Row}
    (joined : rows.filter (fun row => holds (on row)) = found.toList) : (leftJoin on rows).any p = p found := by
  unfold leftJoin
  rw [joined]
  cases found <;> simp

theorem anyConstant {on : Row → Option Bool} {rows : List Row} {p : Option Row → Bool} {value : Bool}
    (constant : ∀ target, p target = value) : (leftJoin on rows).any p = value := by
  have filled : leftJoin on rows ≠ [] := by
    unfold leftJoin
    split
    · simp
    · rename_i matched some'
      cases h : rows.filter (fun row => holds (on row)) <;> simp_all
  cases h : leftJoin on rows with
  | nil => exact absurd h filled
  | cons head tail => cases value <;> simp [constant]

theorem hasDuplicateMap {ops : List Op} {plan : ApplyPlan} {same : StagedRow → StagedRow → Bool} {f : Op → Key}
    (compares : ∀ a ∈ ops, ∀ b ∈ ops, same (staged plan a) (staged plan b) = decide (f a = f b))
    (nodup : (ops.map f).Nodup) : hasDuplicate same (ops.map (staged plan)) = false := by
  induction ops with
  | nil => rfl
  | cons op ops ih =>
    obtain ⟨fresh,nodup⟩ := List.nodup_cons.mp nodup
    have rest := ih (fun a memA b memB => compares a (List.mem_cons_of_mem _ memA) b (List.mem_cons_of_mem _ memB)) nodup
    have none' : (ops.map (staged plan)).any (same (staged plan op)) = false := by
      rw [List.any_map,List.any_eq_false]
      intro other mem
      rw [Function.comp,compares op List.mem_cons_self other (List.mem_cons_of_mem _ mem)]
      have apart : f op ≠ f other := fun equal => fresh (equal ▸ List.mem_map_of_mem mem)
      simpa using apart
    rw [List.map_cons,hasDuplicate,none',rest]
    rfl

section Validation
variable {schema : TableSchema} {plan : ApplyPlan} (distinct : AttnumsDistinct schema) (plans : Plans schema plan)
include distinct plans

theorem groupedTexts {left right : Key} (hl : left.length = (keyPositions schema).length)
    (hr : right.length = (keyPositions schema).length) :
    grouped textEqual plan (left.map some) (right.map some) = decide (left = right) := by
  rw [grouped,planKeyIndexes distinct plans]
  generalize keyPositions schema = positions at hl hr
  induction positions generalizing left right with
  | nil => cases left <;> cases right <;> simp_all
  | cons index positions ih =>
    cases left with
    | nil => simp at hl
    | cons l left =>
      cases right with
      | nil => simp at hr
      | cons r right =>
        have tail := ih (by simpa using hl) (by simpa using hr)
        rw [List.map_cons,List.map_cons,List.zip_cons_cons,List.zipWith_cons_cons,List.all_cons,tail]
        by_cases same : l = r <;> simp [sameGroup,textEqual,same]

omit distinct in
theorem keyPositionsNeNil : keyPositions schema ≠ [] := by
  intro empty
  have lengths := keyPositionsLength schema
  rw [empty] at lengths
  exact primaryKeyNeNil plans.table.supported (List.length_eq_zero_iff.mp lengths.symm)

theorem targetMissingRow (rows : List Row) (key : Key) :
    targetMissing plan (find schema rows key) = (find schema rows key).isNone := by
  unfold targetMissing
  rw [planKeyIndexes distinct plans]
  cases positions : keyPositions schema with
  | nil => exact absurd positions (keyPositionsNeNil plans)
  | cons first rest =>
    cases found : find schema rows key with
    | none => rfl
    | some row =>
      have named := (findRow found).2
      rw [rowKey,positions,List.map_cons] at named
      cases key with
      | nil => simp at named
      | cons value key =>
        simp only [List.map_cons,List.cons.injEq] at named
        simp [named.1]

theorem allPresentStaged {op : Op} (ok : OpOk schema op) :
    allPresent (staged plan op) = some (decide (Cell.unchangedToast ∉ op.cells)) := by
  rw [allPresent,all3Known]
  congr 1
  rw [Bool.eq_iff_iff,decide_eq_true_iff,List.all_eq_true]
  constructor
  · intro all toast
    obtain ⟨index,found⟩ := List.getElem?_of_mem toast
    have bound : index < schema.columns.length := ok.arity ▸ (List.getElem?_eq_some_iff.mp found).1
    have cell := cellAtFound found
    have apart : index ∉ keyPositions schema := by
      intro mem
      obtain ⟨value,text⟩ := keyCellText ok mem
      rw [cell] at text
      contradiction
    have absent := presenceData distinct plans ok apart bound
    rw [presenceOfStaged,cell] at absent
    obtain ⟨presence,search,value⟩ := Option.map_eq_some_iff.mp absent
    have present := all (isPresent op.cells presence)
      (List.mem_map.mpr ⟨presence,List.mem_of_find?_eq_some search,rfl⟩)
    rw [value] at present
    exact absurd present (by decide)
  · intro complete value mem
    obtain ⟨presence,_,rfl⟩ := List.mem_map.mp mem
    have differs : op.cells[presence.sourceColumnIndex]? ≠ some .unchangedToast :=
      fun same => complete (List.mem_of_getElem? same)
    simpa [isPresent] using differs

theorem invalidRowAt (equal : Nat → Bytes → Bytes → Bool) {op : Op} (ok : OpOk schema op) (target oldTarget : Option Row) :
    holds (invalidRow equal plan (staged plan op) target oldTarget) =
      ((op.isMove && (holds (sameMoveKey equal plan (staged plan op)) ||
          targetMissing plan target == targetMissing plan oldTarget)) ||
        (decide (op.operation = .upsert) && targetMissing plan target && decide (Cell.unchangedToast ∈ op.cells))) := by
  have keyPresent : ((keyColumns plan (staged plan op).data).map isNull).any holds = false := by
    rw [stagedKey distinct plans ok]
    simp [isNull,holds]
  have notAll : holds (not3 (allPresent (staged plan op))) = decide (Cell.unchangedToast ∈ op.cells) := by
    rw [allPresentStaged distinct plans ok,holdsNotSome]
    simp
  by_cases move : op.isMove
  · have operation : op.operation = .move := by simpa [Op.isMove] using move
    have old : (staged plan op).oldKey = op.old.map some := if_pos move
    have oldPresent : (((staged plan op).oldKey).map isNull).any holds = false := by
      rw [old]; simp [isNull,holds]
    have known : (staged plan op).oldKeyPresent = true := move
    simp [invalidRow,isOperationStaged,operation,keyPresent,oldPresent,known,move]
  · have operation : op.operation ≠ .move := by simpa [Op.isMove] using move
    have old : (staged plan op).oldKey = plan.copyLayout.oldKeyColumns.map (fun _ => none) := if_neg move
    have oldAbsent : (((staged plan op).oldKey).map isNotNull).any holds = false := by
      rw [old]; simp [isNotNull,holds]
    have known : (staged plan op).oldKeyPresent = false := by simpa [staged] using move
    have stable : op.operation = .upsert ∨ op.operation = .delete := by
      cases h : op.operation <;> simp_all
    rcases stable with stable | stable <;>
      simp [invalidRow,isOperationStaged,stable,keyPresent,oldAbsent,known,move,notAll]

theorem invalidRowStaged {op : Op} (ok : OpOk schema op) (target oldTarget : Option Row) :
    holds (invalidRow textEqual plan (staged plan op) target oldTarget) =
      ((op.isMove && (decide (op.key = op.old) || targetMissing plan target == targetMissing plan oldTarget)) ||
        (decide (op.operation = .upsert) && targetMissing plan target && decide (Cell.unchangedToast ∈ op.cells))) := by
  rw [invalidRowAt distinct plans textEqual ok]
  by_cases move : op.isMove
  · have sameKey : holds (sameMoveKey textEqual plan (staged plan op)) = decide (op.key = op.old) := by
      rw [sameMoveKey,stagedKey distinct plans ok,show (staged plan op).oldKey = op.old.map some from if_pos move,
        Bool.eq_iff_iff,decide_eq_true_iff,
        keysEqualIff distinct plans (by simpa using ok.keyLength) (by simpa using ok.oldLength move)]
      constructor
      · intro both
        obtain ⟨key,left,right⟩ := both
        exact keySomeInjective (left.trans right.symm)
      · exact fun same => ⟨op.key,rfl,by rw [same]⟩
    rw [sameKey]
  · simp [move]

/-- The batch is flagged exactly when one of its operations is invalid on the target. -/
theorem invalidBatchOps {rows : List Row} (table : IsTable schema rows) {ops : List Op}
    (each : ∀ op ∈ ops, OpOk schema op) (keys : (ops.map Op.key).Nodup)
    (olds : ((ops.filter Op.isMove).map Op.old).Nodup) :
    invalidBatch textEqual plan (ops.map (staged plan)) rows = true ↔ ∃ op ∈ ops, OpInvalid schema rows op := by
  have keyDuplicates : hasDuplicate (fun a b => grouped textEqual plan (keyColumns plan a.data) (keyColumns plan b.data))
      (ops.map (staged plan)) = false := by
    refine hasDuplicateMap (fun a memA b memB => ?_) keys
    rw [stagedKey distinct plans (each a memA),stagedKey distinct plans (each b memB)]
    exact groupedTexts distinct plans (each a memA).keyLength (each b memB).keyLength
  have moves : (ops.map (staged plan)).filter (isOperation · .move) = (ops.filter Op.isMove).map (staged plan) := by
    rw [List.filter_map]
    congr 1
    exact List.filter_congr fun op _ => isOperationStaged plan op .move
  have oldDuplicates : hasDuplicate (fun a b => grouped textEqual plan a.oldKey b.oldKey)
      ((ops.map (staged plan)).filter (isOperation · .move)) = false := by
    rw [moves]
    refine hasDuplicateMap (fun a memA b memB => ?_) olds
    obtain ⟨memA,moveA⟩ := List.mem_filter.mp memA
    obtain ⟨memB,moveB⟩ := List.mem_filter.mp memB
    rw [show (staged plan a).oldKey = a.old.map some from if_pos moveA,
      show (staged plan b).oldKey = b.old.map some from if_pos moveB]
    exact groupedTexts distinct plans ((each a memA).oldLength moveA) ((each b memB).oldLength moveB)
  have eachRow : ∀ op ∈ ops, ((leftJoin (fun target => keyJoin textEqual plan target (staged plan op)) rows).any
      (fun target => (leftJoin (fun target => oldKeyJoin textEqual plan target (staged plan op)) rows).any
        (fun oldTarget => holds (invalidRow textEqual plan (staged plan op) target oldTarget)))) =
      decide (OpInvalid schema rows op) := by
    intro op mem
    have ok := each op mem
    have joined : rows.filter (fun row => holds (keyJoin textEqual plan row (staged plan op))) =
        (find schema rows op.key).toList := by
      rw [List.filter_congr fun row _ => keyJoinStaged distinct plans row ok,find,filterKey table.unique]
    rw [anyLeftJoin joined]
    by_cases move : op.isMove
    · have oldJoined : rows.filter (fun row => holds (oldKeyJoin textEqual plan row (staged plan op))) =
          (find schema rows op.old).toList := by
        rw [List.filter_congr fun row _ => oldKeyJoinStaged distinct plans row ok move,find,filterKey table.unique]
      have operation : op.operation = .move := by simpa [Op.isMove] using move
      rw [anyLeftJoin oldJoined,invalidRowStaged distinct plans ok,targetMissingRow distinct plans,
        targetMissingRow distinct plans,Bool.eq_iff_iff,decide_eq_true_iff,OpInvalid]
      simp [move,operation]
    · have constant : ∀ oldTarget, holds (invalidRow textEqual plan (staged plan op) (find schema rows op.key) oldTarget) =
          (decide (op.operation = .upsert) && (find schema rows op.key).isNone &&
            decide (Cell.unchangedToast ∈ op.cells)) := by
        intro oldTarget
        rw [invalidRowStaged distinct plans ok,targetMissingRow distinct plans]
        simp [move]
      rw [anyConstant constant,Bool.eq_iff_iff,decide_eq_true_iff,OpInvalid]
      simp [move,and_assoc]
  rw [invalidBatch,keyDuplicates,oldDuplicates,Bool.or_false,Bool.or_false,List.any_map,List.any_eq_true]
  refine exists_congr fun op => and_congr_right fun mem => ?_
  rw [Function.comp,eachRow op mem,decide_eq_true_iff]

end Validation

end CloudberryEtl.BatchValidation
