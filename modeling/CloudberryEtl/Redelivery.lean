import CloudberryEtl.SpelledSteps

/-! The same batch staged again on the table it produced, after an acknowledgement was lost. Validation accepts the
second delivery unless a row that stands for a batch-start row ended under another key and its batch-start key is
occupied again; when it is accepted, the five statements change nothing. -/
namespace CloudberryEtl.Redelivery
open Schema Change TablePlan CopyText StagedApply SqlLogic KeyedTable Result Normalize KeyLayout Replay StagedSteps
open SetStatements BatchValidation FoldedBatch FoldInvariant FoldStep FoldRefines RowDescent KeyEquality Respelling
open SpelledSteps

/-- No row that moved away from its batch-start key left it to a row that the server finds under it. -/
def Settled (equal : Nat → Bytes → Bytes → Bool) (schema : TableSchema) (rows : List Row) (changes : List TableChange)
    (final : List Row) : Prop :=
  ∀ pair ∈ descent schema rows changes, pair.1 ≠ pair.2 → holdsKey equal schema final pair.2 = false

instance (equal schema rows changes final) : Decidable (Settled equal schema rows changes final) :=
  inferInstanceAs (Decidable
    (∀ pair ∈ descent schema rows changes, pair.1 ≠ pair.2 → holdsKey equal schema final pair.2 = false))

theorem settledMoves {equal : Nat → Bytes → Bytes → Bool} {schema : TableSchema} {start : Key → Option Row}
    {n : Normalizer} {pairs : Descent} (tracks : Tracks start n pairs) (final : List Row) :
    (∀ pair ∈ pairs, pair.1 ≠ pair.2 → holdsKey equal schema final pair.2 = false) ↔
      ∀ op ∈ foldedOps n, op.isMove → holdsKey equal schema final op.old = false := by
  constructor
  · intro settled op mem move
    obtain ⟨index,lineage,found,source⟩ := memFoldedOps.mp mem
    obtain ⟨born,live,apart,_⟩ := opSourceMove (opSource.mp source) move
    exact settled (op.key,op.old) ((tracks _ _).mpr (.inl ⟨index,lineage,found,live,born⟩)) (Ne.symm apart)
  · rintro quiet ⟨current,origin⟩ mem apart
    rcases (tracks current origin).mp mem with ⟨index,lineage,found,live,born⟩ | ⟨same,_⟩
    · exact quiet _ (memFoldedOps.mpr ⟨index,lineage,found,opSource.mpr (.move born live (Ne.symm apart))⟩) rfl
    · exact absurd same apart

section Again
variable {equal : Nat → Bytes → Bytes → Bool} (equality : SqlEquality equal) {schema : TableSchema} {plan : ApplyPlan}
  (distinct : AttnumsDistinct schema) (plans : Plans schema plan) {first rows : List Row} (content : IsTable schema rows)
  (firstApart : SqlDistinct equal schema first) (apart : SqlDistinct equal schema rows) {ops : List Op}
  (describes : Describes schema (find schema first) (find schema rows) ops)
  (keys : ops.Pairwise fun a b => ¬ SameKey equal schema a.key b.key)
include equality content apart describes

omit equality content apart in
theorem liveHeld {op : Op} (mem : op ∈ ops) (live : op.operation ≠ .delete) : (find schema rows op.key).isSome := by
  rcases operationCases op with upsert | dead | move
  · exact upsertEnds describes mem upsert
  · exact absurd dead live
  · obtain ⟨_,_,value,_⟩ := describes.move op mem move
    rw [value]
    rfl

omit apart in
include distinct firstApart keys in
theorem deletedFree {op : Op} (mem : op ∈ ops) (dead : op.operation = .delete) (started : (find schema first op.key).isSome) :
    holdsKey equal schema rows op.key = false := by
  cases held : holdsKey equal schema rows op.key with
  | false => rfl
  | true =>
    obtain ⟨key,found,same⟩ := heldSource distinct content held
    have gone := describes.delete op mem dead
    by_cases named : ∃ other ∈ ops, other.key = key
    · obtain ⟨other,inOps,rfl⟩ := named
      have symmetric : Std.Symm (fun a b : Op => ¬ SameKey equal schema a.key b.key) := by
        constructor
        intro a b differ back
        exact differ (sameKeySymm equality back)
      have differ : other ≠ op := by
        rintro rfl
        rw [gone] at found
        contradiction
      exact absurd same (keys.forall inOps mem differ)
    · push Not at named
      rcases describes.rest key named with ⟨_,left⟩ | ⟨_,kept⟩
      · rw [left] at found
        contradiction
      · rw [kept] at found
        rw [← sameKeyText equality firstApart found started same,kept] at gone
        rw [gone] at found
        contradiction

include distinct plans

theorem acceptedAgain (moves : ∀ op ∈ ops, op.isMove → ¬ SameKey equal schema op.key op.old)
    (keys : ops.Pairwise fun a b => ¬ SameKey equal schema a.key b.key)
    (olds : (ops.filter Op.isMove).Pairwise fun a b => ¬ SameKey equal schema a.old b.old) :
    invalidBatch equal plan (ops.map (staged plan)) rows = false ↔
      ∀ op ∈ ops, op.isMove → holdsKey equal schema rows op.old = false := by
  rw [acceptedIff equality distinct plans content apart describes.shape]
  constructor
  · rintro ⟨flags,_,_⟩ op mem move
    have here := heldStart equality (liveHeld describes mem (moveNot move).2)
    cases occupied : holdsKey equal schema rows op.old with
    | false => rfl
    | true => exact absurd (.inl ⟨move,.inr (here.trans occupied.symm)⟩) (flags op mem)
  · intro quiet
    refine ⟨?_,keys,olds⟩
    rintro op mem (⟨move,same | both⟩ | ⟨upsert,absent,_⟩)
    · exact moves op mem move same
    · rw [heldStart equality (liveHeld describes mem (moveNot move).2),quiet op mem move] at both
      contradiction
    · rw [heldStart equality (upsertEnds describes mem upsert)] at absent
      contradiction

omit equality describes in
theorem insertNone {f : Op → Option Row} (none' : ∀ op ∈ ops, f op = none) :
    insertRows equal plan (ops.filterMap f) rows = .ok rows := by
  have empty : ops.filterMap f = [] := List.filterMap_eq_nil_iff.mpr none'
  have free := (conflictsDistinct distinct plans
    (fun row mem => rowKeyText distinct (content.width row mem) (content.admitted row mem))).mpr apart
  rw [empty,insertRows,List.append_nil,free]
  rfl

omit equality distinct plans content apart describes in
theorem patchTwice (cells : List Cell) (base : Row) : patchRow cells (patchRow cells base) = patchRow cells base := by
  rw [← patchRowPatch]
  simp [patchCell]

omit equality distinct plans apart in
theorem updatedAgain {row : Row} (mem : row ∈ rows) : updatedOf schema ops row = row := by
  rcases updatedSource schema ops row with same | ⟨op,inOps,upsert,named,same⟩
  · exact same
  · obtain ⟨base,_,value,_⟩ := describes.upsert op inOps upsert
    have found : find schema rows op.key = some row := (lookupIff content.unique).mpr ⟨mem,named⟩
    rw [same,Option.some.inj (found.symm.trans value),patchTwice]

omit equality distinct plans apart describes in
theorem deleteAbsent {joins : StagedRow → Row → Bool} (kind : Op → Bool) (target : Op → Key)
    (joined : ∀ op ∈ ops, ∀ row,
      joins (staged plan op) row = (kind op && decide (rowKey schema row = (target op).map some)))
    (absent : ∀ op ∈ ops, kind op → find schema rows (target op) = none) :
    deleteUsing joins (ops.map (staged plan)) rows = rows := by
  refine List.filter_eq_self.mpr fun row mem => ?_
  rw [Bool.not_eq_true',List.any_map,List.any_eq_false]
  intro op inOps here
  rw [Function.comp,joined op inOps row,Bool.and_eq_true,decide_eq_true_iff] at here
  have found := (lookupIff content.unique).mpr ⟨mem,here.2⟩
  have none' := absent op inOps here.1
  rw [find,found] at none'
  contradiction

omit apart in
theorem deleteDone (absent : ∀ op ∈ ops, op.operation = .delete → holdsKey equal schema rows op.key = false) :
    deleteStep equal plan (ops.map (staged plan)) rows = rows := by
  have each := describes.shape
  rw [deleteAgrees equality distinct plans each (fun op mem dead => textualOfFree (absent op mem dead))]
  refine deleteAbsent content _ Op.key (deleteJoined distinct plans each) ?_
  intro op mem dead
  exact freeFind equality (absent op mem (of_decide_eq_true dead))

theorem moveDone (quiet : ∀ op ∈ ops, op.isMove → holdsKey equal schema rows op.old = false) :
    moveStep equal plan (ops.map (staged plan)) rows = .ok rows := by
  have each := describes.shape
  rw [moveStep,movedAgrees equality distinct plans each
    (fun op mem move => textualOfHeld equality apart (liveHeld describes mem (moveNot move).2))
    (fun op mem move => textualOfFree (quiet op mem move)),movedRows distinct plans content each]
  refine insertNone distinct plans content apart ?_
  intro op mem
  rw [movedOf,if_neg]
  rintro ⟨move,absent⟩
  obtain ⟨_,_,value,_⟩ := describes.move op mem move
  rw [absent] at value
  contradiction

omit apart in
theorem deleteMovedDone (quiet : ∀ op ∈ ops, op.isMove → holdsKey equal schema rows op.old = false) :
    deleteMovedStep equal plan (ops.map (staged plan)) rows = rows := by
  have each := describes.shape
  rw [deleteMovedAgrees equality distinct plans each (fun op mem move => textualOfFree (quiet op mem move))]
  exact deleteAbsent content Op.isMove Op.old (deleteMovedJoined distinct plans each)
    (fun op mem move => freeFind equality (quiet op mem move))

theorem updateDone : updateStep equal plan (ops.map (staged plan)) rows = .ok rows := by
  have each := describes.shape
  have same : rows.map (updatedOf schema ops) = rows := by
    conv_rhs => rw [← List.map_id rows]
    exact List.map_congr_left fun row mem => updatedAgain content describes mem
  rw [updateAgrees equality distinct plans each
    (fun op mem upsert => textualOfHeld equality apart (upsertEnds describes mem upsert))]
  rw [(updateStepOk distinct plans content each fun op mem upsert row present => ?_).1,same]
  obtain ⟨base,_,value,_⟩ := describes.upsert op mem upsert
  rw [Option.some.inj (present.symm.trans value),patchTwice]
  exact content.admitted _ (findRow value).1

theorem insertDone : insertStep equal plan (ops.map (staged plan)) rows = .ok rows := by
  have each := describes.shape
  rw [insertStep,insertedAgrees equality distinct plans each
    (fun op mem upsert => textualOfHeld equality apart (upsertEnds describes mem upsert)),insertedRows distinct plans each]
  refine insertNone distinct plans content apart ?_
  intro op mem
  rw [insertedOf,if_neg]
  rintro ⟨upsert,absent⟩
  obtain ⟨_,_,value,_⟩ := describes.upsert op mem upsert
  rw [absent] at value
  contradiction

theorem appliedAgain (deleted : ∀ op ∈ ops, op.operation = .delete → holdsKey equal schema rows op.key = false)
    (quiet : ∀ op ∈ ops, op.isMove → holdsKey equal schema rows op.old = false) :
    applySteps equal plan (ops.map (staged plan)) rows = .ok rows := by
  unfold applySteps
  rw [deleteDone equality distinct plans content describes deleted]
  refine bindOk.mpr ⟨rows,moveDone equality distinct plans content apart describes quiet,?_⟩
  rw [deleteMovedDone equality distinct plans content describes quiet]
  exact bindOk.mpr ⟨rows,updateDone equality distinct plans content apart describes,
    insertDone equality distinct plans content apart describes⟩

end Again

theorem holdsPerm {equal : Nat → Bytes → Bytes → Bool} {schema : TableSchema} {left right : List Row}
    (perm : left.Perm right) (key : Key) : holdsKey equal schema left key = holdsKey equal schema right key := by
  rw [Bool.eq_iff_iff,holdsKey,holdsKey,List.any_eq_true,List.any_eq_true]
  exact exists_congr fun row => and_congr_left' perm.mem_iff

/-- Under any equality of the server, the batch that produced a table is accepted on it and leaves it as it is exactly
when the batch is settled. -/
theorem redeliveredIffSettled {equal : Nat → Bytes → Bytes → Bool} (equality : SqlEquality equal)
    {schema : TableSchema} {target staging plan} (distinct : AttnumsDistinct schema)
    (planned : planApply schema target staging = .ok plan) (content : TableContent schema)
    (apart : SqlDistinct equal schema content.rows) {changes rows final out}
    (replayed : sqlReplay equal schema content.rows changes = some final)
    (folded : normalizeTableChanges schema changes = .ok rows)
    (executed : executeTable equal plan rows content.rows = .ok out) :
    (∃ stage, copyIn plan rows = .ok stage ∧ invalidBatch equal plan stage out = false ∧
      applySteps equal plan stage out = .ok out) ↔ Settled equal schema content.rows changes final := by
  have perm := executedReplays equality distinct planned content apart replayed folded executed
  obtain ⟨n,run,rfl⟩ := normalizeSource folded
  obtain ⟨plans,_,_⟩ := planApplySource planned
  obtain ⟨replayed,lastApart⟩ := sqlReplaySource replayed apart
  have keyed := keyedFind content.valid
  obtain ⟨result,inv⟩ := runFolded distinct keyed changes content.valid (foldedStart schema _) replayed run
  obtain ⟨table,same⟩ := findPerm result perm
  have describes := same ▸ foldedDescribes distinct keyed inv
  have tracks := runTracks distinct keyed (fun key => memStartKeys content.valid.unique) changes content.valid
    (foldedStart schema _) (startTracks content.valid) replayed run
  have outApart : SqlDistinct equal schema out := (perm.pairwise_iff fun differ back =>
    differ (sameKeysSymm equality _ back)).mpr lastApart
  -- what validation found on the first table says which keys of the batch are equal
  obtain ⟨_,accepted⟩ := executedSource distinct plans describes.shape executed
  obtain ⟨flags,keys,olds⟩ := (acceptedIff equality distinct plans content.valid apart describes.shape).mp accepted
  have moves : ∀ op ∈ foldedOps n, op.isMove → ¬ SameKey equal schema op.key op.old :=
    fun op mem move same => flags op mem (.inl ⟨move,.inl same⟩)
  have again := acceptedAgain equality distinct plans table outApart describes moves keys olds
  have copied := copyInOps distinct plans describes.shape
  rw [show Settled equal schema content.rows changes final ↔ _ from settledMoves tracks final]
  simp only [← holdsPerm perm]
  constructor
  · rintro ⟨stage,copy,accepted,_⟩
    cases Except.ok.inj (copied.symm.trans copy)
    exact again.mp accepted
  · intro quiet
    refine ⟨_,copied,again.mpr quiet,appliedAgain equality distinct plans table outApart describes ?_ quiet⟩
    intro op mem dead
    exact deletedFree equality distinct table apart describes keys mem dead (deadAtStart inv mem dead)

def repricing : List TableChange :=
  [⟨16386,1,.update (some ⟨[.text [49,46,48]]⟩) ⟨[.text [50,46,48],.unchangedToast]⟩⟩,
   ⟨16386,1,.insert ⟨[.text [51,46,48],.text [98]]⟩⟩]

theorem repricingRedelivered : ∃ plan rows out stage, planApply prices prices.name "pg2cb_stage" = .ok plan ∧
    normalizeTableChanges prices repricing = .ok rows ∧
    executeTable numericEqual plan rows onePrice.rows = .ok out ∧ copyIn plan rows = .ok stage ∧
    invalidBatch numericEqual plan stage out = false ∧ applySteps numericEqual plan stage out = .ok out := by
  have run : (do
      let plan ← (planApply prices prices.name "pg2cb_stage").toOption
      let rows ← (normalizeTableChanges prices repricing).toOption
      (executeTable numericEqual plan rows onePrice.rows).toOption) =
        some [[some [50,46,48],some [97]],[some [51,46,48],some [98]]] := by decide +kernel
  simp only [bind,Option.bind_eq_some_iff,toOptionSome] at run
  obtain ⟨plan,planned,rows,folded,executed⟩ := run
  have replayed : sqlReplay numericEqual prices onePrice.rows repricing =
      some [[some [50,46,48],some [97]],[some [51,46,48],some [98]]] := by decide +kernel
  obtain ⟨stage,copied,accepted,applied⟩ := (redeliveredIffSettled numericEquality (by decide) planned onePrice (by decide)
    replayed folded executed).mpr (by decide +kernel)
  exact ⟨plan,rows,_,stage,planned,folded,executed,copied,accepted,applied⟩

/-- The second delivery of a batch that moves a row and reuses its key is rejected. -/
theorem reusedKeyRejected : ∃ plan rows out stage, planApply accounts accounts.name "pg2cb_stage" = .ok plan ∧
    (replay accounts oneAccount.rows moveAndReuse).isSome ∧
    normalizeTableChanges accounts moveAndReuse = .ok rows ∧
    executeTable textEqual plan rows oneAccount.rows = .ok out ∧ copyIn plan rows = .ok stage ∧
    invalidBatch textEqual plan stage out = true := by
  have run : (do
      let plan ← (planApply accounts accounts.name "pg2cb_stage").toOption
      let rows ← (normalizeTableChanges accounts moveAndReuse).toOption
      let out ← (executeTable textEqual plan rows oneAccount.rows).toOption
      let stage ← (copyIn plan rows).toOption
      some (invalidBatch textEqual plan stage out)) = some true := by decide +kernel
  simp only [bind,Option.bind_eq_some_iff,toOptionSome,Option.some.injEq] at run
  obtain ⟨plan,planned,rows,folded,out,executed,stage,copied,flagged⟩ := run
  exact ⟨plan,rows,out,stage,planned,by decide +kernel,folded,executed,copied,flagged⟩

end CloudberryEtl.Redelivery
