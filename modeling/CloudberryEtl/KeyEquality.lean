import CloudberryEtl.FoldRefines

/-! Validation under the equality operators of the server, which may be coarser than equality of the text: which keys it
takes for one, and when `validation_sql` flags a batch of well formed operations. -/
namespace CloudberryEtl.KeyEquality
open Schema Change TablePlan CopyText StagedApply SqlLogic KeyedTable Result Normalize KeyLayout Replay StagedSteps
open SetStatements BatchValidation

/- The equality of a btree or hash operator class is an equivalence on the values of its column. -/
structure SqlEquality (equal : Nat → Bytes → Bytes → Bool) : Prop where
  refl : ∀ index value, equal index value value
  symm : ∀ index left right, equal index left right → equal index right left
  trans : ∀ index left middle right, equal index left middle → equal index middle right → equal index left right

structure SqlOperators (operators : Operators) : Prop where
  refl : ∀ type value, operators type value value
  symm : ∀ type left right, operators type left right → operators type right left
  trans : ∀ type left middle right, operators type left middle → operators type middle right → operators type left right

theorem SqlOperators.of {operators : Operators} (sql : SqlOperators operators) (table : CreateTablePlan) :
    SqlEquality (operators.of table) :=
  ⟨fun _ => sql.refl _,fun _ => sql.symm _,fun _ => sql.trans _⟩

def sameKeys (equal : Nat → Bytes → Bytes → Bool) : List Nat → List (Option Bytes) → List (Option Bytes) → Bool
  | index :: positions,l :: left,r :: right => sameGroup (equal index) l r && sameKeys equal positions left right
  | _,_,_ => true

def SameKey (equal : Nat → Bytes → Bytes → Bool) (schema : TableSchema) (left right : Key) : Prop :=
  sameKeys equal (keyPositions schema) (left.map some) (right.map some)

instance (equal schema left right) : Decidable (SameKey equal schema left right) := inferInstanceAs (Decidable (_ = true))

def SameRow (equal : Nat → Bytes → Bytes → Bool) (schema : TableSchema) (left right : Row) : Prop :=
  sameKeys equal (keyPositions schema) (rowKey schema left) (rowKey schema right)

instance (equal schema left right) : Decidable (SameRow equal schema left right) := inferInstanceAs (Decidable (_ = true))

def SqlDistinct (equal : Nat → Bytes → Bytes → Bool) (schema : TableSchema) (rows : List Row) : Prop :=
  rows.Pairwise (fun left right => ¬ SameRow equal schema left right)

instance (equal schema rows) : Decidable (SqlDistinct equal schema rows) :=
  inferInstanceAs (Decidable (rows.Pairwise (fun left right => ¬ SameRow equal schema left right)))

def holdsKey (equal : Nat → Bytes → Bytes → Bool) (schema : TableSchema) (rows : List Row) (key : Key) : Bool :=
  rows.any (fun row => sameKeys equal (keyPositions schema) (rowKey schema row) (key.map some))

section Equality
variable {equal : Nat → Bytes → Bytes → Bool} (equality : SqlEquality equal)
include equality

theorem sameKeysRefl (positions : List Nat) (key : List (Option Bytes)) : sameKeys equal positions key key := by
  induction key generalizing positions with
  | nil => cases positions <;> rfl
  | cons value key ih =>
    cases positions with
    | nil => rfl
    | cons index positions =>
      have here : sameGroup (equal index) value value := by
        cases value with
        | none => rfl
        | some text => exact equality.refl index text
      exact Bool.and_eq_true_iff.mpr ⟨here,ih positions⟩

theorem sameKeysSymm (positions : List Nat) {left right : List (Option Bytes)}
    (same : sameKeys equal positions left right) : sameKeys equal positions right left := by
  induction positions generalizing left right with
  | nil => cases left <;> cases right <;> rfl
  | cons index positions ih =>
    cases left with
    | nil => cases right <;> rfl
    | cons l left =>
      cases right with
      | nil => rfl
      | cons r right =>
        obtain ⟨here,rest⟩ := Bool.and_eq_true_iff.mp same
        refine Bool.and_eq_true_iff.mpr ⟨?_,ih rest⟩
        cases l with
        | none => cases r <;> first | rfl | contradiction
        | some l =>
          cases r with
          | none => contradiction
          | some r => exact equality.symm index l r here

theorem sameKeysTrans (positions : List Nat) {left middle right : List (Option Bytes)}
    (width : positions.length ≤ middle.length) (first : sameKeys equal positions left middle)
    (second : sameKeys equal positions middle right) : sameKeys equal positions left right := by
  induction positions generalizing left middle right with
  | nil => cases left <;> cases right <;> rfl
  | cons index positions ih =>
    cases middle with
    | nil => simp at width
    | cons m middle =>
      cases left with
      | nil => cases right <;> rfl
      | cons l left =>
        cases right with
        | nil => rfl
        | cons r right =>
          obtain ⟨firstHere,firstRest⟩ := Bool.and_eq_true_iff.mp first
          obtain ⟨secondHere,secondRest⟩ := Bool.and_eq_true_iff.mp second
          refine Bool.and_eq_true_iff.mpr ⟨?_,ih (by simpa using width) firstRest secondRest⟩
          cases m with
          | none => cases l <;> cases r <;> first | rfl | contradiction
          | some m =>
            cases l with
            | none => contradiction
            | some l =>
              cases r with
              | none => contradiction
              | some r => exact equality.trans index l m r firstHere secondHere

theorem sameKeySymm {schema : TableSchema} {left right : Key} (same : SameKey equal schema left right) :
    SameKey equal schema right left := sameKeysSymm equality _ same

end Equality

section Evaluation
variable {equal : Nat → Bytes → Bytes → Bool} {schema : TableSchema} {plan : ApplyPlan}

theorem groupedKeys (left right : List (Option Bytes)) : grouped equal plan left right =
    sameKeys equal plan.keyIndexes left right := by
  unfold grouped
  generalize plan.keyIndexes = positions
  induction positions generalizing left right with
  | nil => cases left <;> cases right <;> rfl
  | cons index positions ih =>
    cases left with
    | nil => cases right <;> rfl
    | cons l left =>
      cases right with
      | nil => rfl
      | cons r right =>
        rw [List.zip_cons_cons,List.zipWith_cons_cons,List.all_cons,ih]
        rfl

theorem holdsKeysEqual (left : List (Option Bytes)) (right : Key) :
    holds (keysEqual equal plan left (right.map some)) = sameKeys equal plan.keyIndexes left (right.map some) := by
  rw [keysEqual,holdsAll]
  generalize plan.keyIndexes = positions
  induction positions generalizing left right with
  | nil => cases left <;> cases right <;> rfl
  | cons index positions ih =>
    cases left with
    | nil => cases right <;> rfl
    | cons l left =>
      cases right with
      | nil => rfl
      | cons r right =>
        rw [List.map_cons,List.zip_cons_cons,List.zipWith_cons_cons,List.all_cons,ih]
        cases l with
        | none => rfl
        | some l =>
          show (holds (some (equal index l r)) && _) = _
          rw [holdsSome]
          rfl

theorem hasDuplicateFalse {same : StagedRow → StagedRow → Bool} {ops : List Op} {alike : Op → Op → Prop}
    (compares : ∀ a ∈ ops, ∀ b ∈ ops, same (staged plan a) (staged plan b) = true ↔ alike a b) :
    hasDuplicate same (ops.map (staged plan)) = false ↔ ops.Pairwise (fun a b => ¬ alike a b) := by
  induction ops with
  | nil => simp [hasDuplicate]
  | cons op ops ih =>
    have rest := ih (fun a memA b memB => compares a (List.mem_cons_of_mem _ memA) b (List.mem_cons_of_mem _ memB))
    have here : (ops.map (staged plan)).any (same (staged plan op)) = false ↔ ∀ other ∈ ops, ¬ alike op other := by
      rw [List.any_map,List.any_eq_false]
      refine forall_congr' ?_
      intro other
      refine forall_congr' ?_
      intro mem
      rw [Function.comp,← compares op List.mem_cons_self other (List.mem_cons_of_mem _ mem)]
    rw [List.map_cons,hasDuplicate,Bool.or_eq_false_iff,here,rest,List.pairwise_cons]

end Evaluation

section Validation
variable {equal : Nat → Bytes → Bytes → Bool} (equality : SqlEquality equal) {schema : TableSchema} {plan : ApplyPlan}
  (distinct : AttnumsDistinct schema) (plans : Plans schema plan)

include equality in
theorem joinedAtMostOne {rows : List Row} (apart : SqlDistinct equal schema rows) {key : Key}
    (length : key.length = (keyPositions schema).length) : ∃ found : Option Row,
    rows.filter (fun row => sameKeys equal (keyPositions schema) (rowKey schema row) (key.map some)) = found.toList ∧
      found.isSome = holdsKey equal schema rows key ∧ ∀ row, found = some row → row ∈ rows := by
  induction rows with
  | nil => exact ⟨none,rfl,rfl,by simp⟩
  | cons head tail ih =>
    obtain ⟨fresh,apart⟩ := List.pairwise_cons.mp apart
    obtain ⟨found,filtered,held,inside⟩ := ih apart
    cases here : sameKeys equal (keyPositions schema) (rowKey schema head) (key.map some) with
    | false =>
      refine ⟨found,by rw [List.filter_cons,here]; exact filtered,?_,?_⟩
      · rw [held,holdsKey,holdsKey,List.any_cons,here,Bool.false_or]
      · intro row same
        exact List.mem_cons_of_mem _ (inside row same)
    | true =>
      have others : tail.filter (fun row => sameKeys equal (keyPositions schema) (rowKey schema row) (key.map some)) = [] := by
        rw [List.filter_eq_nil_iff]
        intro other mem same
        exact fresh other mem (sameKeysTrans equality _ (by simp [length]) here (sameKeysSymm equality _ same))
      refine ⟨some head,by rw [List.filter_cons,here,others]; rfl,?_,?_⟩
      · rw [holdsKey,List.any_cons,here]
        rfl
      · intro row same
        exact Option.some.inj same ▸ List.mem_cons_self

def OpFlagged (equal : Nat → Bytes → Bytes → Bool) (schema : TableSchema) (rows : List Row) (op : Op) : Prop :=
  (op.isMove ∧ (SameKey equal schema op.key op.old ∨ holdsKey equal schema rows op.key = holdsKey equal schema rows op.old)) ∨
    (op.operation = .upsert ∧ holdsKey equal schema rows op.key = false ∧ Cell.unchangedToast ∈ op.cells)

include distinct plans

theorem targetMissingNone {rows : List Row} (table : IsTable schema rows) {found : Option Row}
    (inside : ∀ row, found = some row → row ∈ rows) : targetMissing plan found = !found.isSome := by
  unfold targetMissing
  rw [planKeyIndexes distinct plans]
  cases positions : keyPositions schema with
  | nil => exact absurd positions (keyPositionsNeNil plans)
  | cons first rest =>
    cases found with
    | none => rfl
    | some row =>
      have mem := inside row rfl
      obtain ⟨key,named⟩ := rowKeyText distinct (table.width row mem) (table.admitted row mem)
      rw [rowKey,positions,List.map_cons] at named
      cases key with
      | nil => simp at named
      | cons value key =>
        simp only [List.map_cons,List.cons.injEq] at named
        simp [named.1]

include equality

theorem flaggedRow {rows : List Row} (table : IsTable schema rows) (apart : SqlDistinct equal schema rows) {op : Op}
    (ok : OpOk schema op) : (leftJoin (fun target => keyJoin equal plan target (staged plan op)) rows).any
      (fun target => (leftJoin (fun target => oldKeyJoin equal plan target (staged plan op)) rows).any
        (fun oldTarget => holds (invalidRow equal plan (staged plan op) target oldTarget))) = true ↔
      OpFlagged equal schema rows op := by
  have joins (row : Row) (key : Key) : holds (keysEqual equal plan (keyColumns plan row) (key.map some)) =
      sameKeys equal (keyPositions schema) (rowKey schema row) (key.map some) := by
    rw [holdsKeysEqual,planKeyIndexes distinct plans,keyColumnsRow distinct plans]
  obtain ⟨found,filtered,held,inside⟩ := joinedAtMostOne equality apart ok.keyLength
  have joined : rows.filter (fun row => holds (keyJoin equal plan row (staged plan op))) = found.toList := by
    rw [← filtered]
    refine List.filter_congr ?_
    intro row _
    rw [keyJoin,stagedKey distinct plans ok,joins]
  have missing := targetMissingNone distinct plans table inside
  rw [anyLeftJoin joined]
  by_cases move : op.isMove
  · have operation : op.operation = .move := by simpa [Op.isMove] using move
    have old : (staged plan op).oldKey = op.old.map some := if_pos move
    obtain ⟨oldFound,oldFiltered,oldHeld,oldInside⟩ := joinedAtMostOne equality apart (ok.oldLength move)
    have oldJoined : rows.filter (fun row => holds (oldKeyJoin equal plan row (staged plan op))) = oldFound.toList := by
      rw [← oldFiltered]
      refine List.filter_congr ?_
      intro row _
      rw [oldKeyJoin,old,joins]
    have sameKey : holds (sameMoveKey equal plan (staged plan op)) =
        sameKeys equal (keyPositions schema) (op.key.map some) (op.old.map some) := by
      rw [sameMoveKey,stagedKey distinct plans ok,old,holdsKeysEqual,planKeyIndexes distinct plans]
    rw [anyLeftJoin oldJoined,invalidRowAt distinct plans equal ok,sameKey,missing,
      targetMissingNone distinct plans table oldInside,held,oldHeld,OpFlagged,SameKey]
    simp [move,operation]
  · have constant : ∀ oldTarget, holds (invalidRow equal plan (staged plan op) found oldTarget) =
        (decide (op.operation = .upsert) && !found.isSome && decide (Cell.unchangedToast ∈ op.cells)) := by
      intro oldTarget
      rw [invalidRowAt distinct plans equal ok,missing]
      simp [move]
    rw [anyConstant constant,held,OpFlagged]
    simp [move,and_assoc]

/-- The batch is accepted exactly when no two operations, and no two moves, have the same key, and no operation is
flagged on the target. -/
theorem acceptedIff {rows : List Row} (table : IsTable schema rows) (apart : SqlDistinct equal schema rows) {ops : List Op}
    (each : ∀ op ∈ ops, OpOk schema op) : invalidBatch equal plan (ops.map (staged plan)) rows = false ↔
      (∀ op ∈ ops, ¬ OpFlagged equal schema rows op) ∧ ops.Pairwise (fun a b => ¬ SameKey equal schema a.key b.key) ∧
        (ops.filter Op.isMove).Pairwise (fun a b => ¬ SameKey equal schema a.old b.old) := by
  have rowsFlagged : (ops.map (staged plan)).any (fun s =>
      (leftJoin (fun target => keyJoin equal plan target s) rows).any (fun target =>
        (leftJoin (fun target => oldKeyJoin equal plan target s) rows).any (fun oldTarget =>
          holds (invalidRow equal plan s target oldTarget)))) = false ↔ ∀ op ∈ ops, ¬ OpFlagged equal schema rows op := by
    rw [List.any_map,List.any_eq_false]
    refine forall_congr' ?_
    intro op
    refine forall_congr' ?_
    intro mem
    exact not_congr (flaggedRow equality distinct plans table apart (each op mem))
  have keys : hasDuplicate (fun a b => grouped equal plan (keyColumns plan a.data) (keyColumns plan b.data))
      (ops.map (staged plan)) = false ↔ ops.Pairwise (fun a b => ¬ SameKey equal schema a.key b.key) := by
    refine hasDuplicateFalse ?_
    intro a memA b memB
    rw [stagedKey distinct plans (each a memA),stagedKey distinct plans (each b memB),groupedKeys,
      planKeyIndexes distinct plans]
    rfl
  have moves : (ops.map (staged plan)).filter (isOperation · .move) = (ops.filter Op.isMove).map (staged plan) := by
    rw [List.filter_map]
    congr 1
    refine List.filter_congr ?_
    intro op _
    exact isOperationStaged plan op .move
  have olds : hasDuplicate (fun a b => grouped equal plan a.oldKey b.oldKey)
      ((ops.map (staged plan)).filter (isOperation · .move)) = false ↔
        (ops.filter Op.isMove).Pairwise (fun a b => ¬ SameKey equal schema a.old b.old) := by
    rw [moves]
    refine hasDuplicateFalse ?_
    intro a memA b memB
    rw [show (staged plan a).oldKey = a.old.map some from if_pos (List.mem_filter.mp memA).2,
      show (staged plan b).oldKey = b.old.map some from if_pos (List.mem_filter.mp memB).2,groupedKeys,
      planKeyIndexes distinct plans]
    rfl
  rw [invalidBatch,Bool.or_eq_false_iff,Bool.or_eq_false_iff,rowsFlagged,keys,olds,and_assoc]

end Validation

end CloudberryEtl.KeyEquality
