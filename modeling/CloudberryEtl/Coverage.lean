import CloudberryEtl.Adapter
import CloudberryEtl.FoldRefines

/-! What an apply request holds of its batch: every row change of every transaction, folded with the other changes of its
table in the order of the log, and nothing else. -/
namespace CloudberryEtl.Coverage
open Schema Change TablePlan StagedApply Normalize Checkpoint Result Batch Fencing Adapter

abbrev Group := (Nat × Nat) × List TableChange

def keyLt (left right : Nat × Nat) : Prop := left.1 < right.1 ∨ (left.1 = right.1 ∧ left.2 < right.2)

instance : DecidableRel keyLt := fun left right => by unfold keyLt; infer_instance

/- `grouped.entry(key).or_default().push(change)`; the entries of the BTreeMap stand in the order of the keys. -/
def pushGroup : List Group → TableChange → List Group
  | [],change => [(changeKey change,[change])]
  | (key,changes) :: rest,change =>
      if changeKey change = key then (key,changes ++ [change]) :: rest
      else if keyLt (changeKey change) key then (changeKey change,[change]) :: (key,changes) :: rest
      else (key,changes) :: pushGroup rest change

def ofTable (key : Nat × Nat) (changes : List TableChange) : List TableChange :=
  changes.filter (fun change => changeKey change = key)

structure Grouped (changes : List TableChange) (groups : List Group) : Prop where
  sorted : groups.Pairwise (fun a b => keyLt a.1 b.1)
  entries : ∀ key ofKey, (key,ofKey) ∈ groups ↔ ofKey = ofTable key changes ∧ ofKey ≠ []

theorem keyLtIrrefl (key : Nat × Nat) : ¬ keyLt key key := by
  unfold keyLt
  omega

theorem keyLtTrans {a b c : Nat × Nat} (first : keyLt a b) (second : keyLt b c) : keyLt a c := by
  unfold keyLt at *
  omega

theorem keyLtConnected {a b : Nat × Nat} (apart : a ≠ b) (not : ¬ keyLt a b) : keyLt b a := by
  have parts : ¬ (a.1 = b.1 ∧ a.2 = b.2) := fun same => apart (Prod.ext same.1 same.2)
  unfold keyLt at *
  omega

theorem pushGroupKeys {groups : List Group} {change entry} (mem : entry ∈ pushGroup groups change) :
    entry.1 = changeKey change ∨ ∃ other ∈ groups, other.1 = entry.1 := by
  induction groups with
  | nil =>
    rw [pushGroup,List.mem_singleton] at mem
    exact .inl (by rw [mem])
  | cons head rest ih =>
    obtain ⟨key,changes⟩ := head
    unfold pushGroup at mem
    split at mem
    · rename_i same
      rcases List.mem_cons.mp mem with here | later
      · exact .inl (by rw [here,same])
      · exact .inr ⟨entry,by simp [later],rfl⟩
    · split at mem
      · rcases List.mem_cons.mp mem with here | later
        · exact .inl (by rw [here])
        · exact .inr ⟨entry,later,rfl⟩
      · rcases List.mem_cons.mp mem with here | later
        · exact .inr ⟨entry,by simp [here],rfl⟩
        · rcases ih later with same | ⟨other,member,same⟩
          · exact .inl same
          · exact .inr ⟨other,by simp [member],same⟩

theorem pushGroupSorted {groups : List Group} {change : TableChange}
    (sorted : groups.Pairwise (fun a b => keyLt a.1 b.1)) :
    (pushGroup groups change).Pairwise (fun a b => keyLt a.1 b.1) := by
  induction groups with
  | nil => exact List.pairwise_singleton _ _
  | cons head rest ih =>
    obtain ⟨key,changes⟩ := head
    obtain ⟨above,later⟩ := List.pairwise_cons.mp sorted
    unfold pushGroup
    split
    · exact List.pairwise_cons.mpr ⟨above,later⟩
    · rename_i apart
      split
      · rename_i below
        refine List.pairwise_cons.mpr ⟨?_,sorted⟩
        intro entry mem
        rcases List.mem_cons.mp mem with here | after
        · exact here ▸ below
        · exact keyLtTrans below (above entry after)
      · rename_i notBelow
        refine List.pairwise_cons.mpr ⟨?_,ih later⟩
        intro entry mem
        rcases pushGroupKeys mem with same | ⟨other,member,same⟩
        · rw [same]
          exact keyLtConnected apart notBelow
        · rw [← same]
          exact above other member

theorem sortedUnique {groups : List Group} (sorted : groups.Pairwise (fun a b => keyLt a.1 b.1)) {key left right}
    (memLeft : (key,left) ∈ groups) (memRight : (key,right) ∈ groups) : left = right := by
  induction groups with
  | nil => simp at memLeft
  | cons head rest ih =>
    obtain ⟨above,later⟩ := List.pairwise_cons.mp sorted
    rcases List.mem_cons.mp memLeft with hereLeft | afterLeft
    · rcases List.mem_cons.mp memRight with hereRight | afterRight
      · exact (Prod.mk.inj (hereLeft.trans hereRight.symm)).2
      · have below := above _ afterRight
        rw [← hereLeft] at below
        exact absurd below (keyLtIrrefl key)
    · rcases List.mem_cons.mp memRight with hereRight | afterRight
      · have below := above _ afterLeft
        rw [← hereRight] at below
        exact absurd below (keyLtIrrefl key)
      · exact ih later afterLeft afterRight

theorem pushGroupEntry {groups : List Group} {change : TableChange}
    (sorted : groups.Pairwise (fun a b => keyLt a.1 b.1)) (key : Nat × Nat) (ofKey : List TableChange) :
    (key,ofKey) ∈ pushGroup groups change ↔ (key ≠ changeKey change ∧ (key,ofKey) ∈ groups) ∨
      (key = changeKey change ∧ ((∃ before, (key,before) ∈ groups ∧ ofKey = before ++ [change]) ∨
        ((∀ before, (key,before) ∉ groups) ∧ ofKey = [change]))) := by
  induction groups with
  | nil => simp [pushGroup]
  | cons head rest ih =>
    obtain ⟨first,changes⟩ := head
    obtain ⟨above,later⟩ := List.pairwise_cons.mp sorted
    have absent : ∀ before, (first,before) ∉ rest := by
      intro before mem
      exact keyLtIrrefl first (above _ mem)
    unfold pushGroup
    split
    · rename_i same
      subst same
      by_cases here : key = changeKey change
      · subst here
        simp [absent]
      · simp [here]
    · rename_i apart
      split
      · rename_i below
        have fresh : ∀ before, (changeKey change,before) ∉ (first,changes) :: rest := by
          intro before mem
          rcases List.mem_cons.mp mem with same | after
          · exact apart (Prod.mk.inj same).1
          · exact keyLtIrrefl _ (keyLtTrans below (above _ after))
        by_cases here : key = changeKey change
        · subst here
          rw [List.mem_cons]
          simp [fresh]
        · simp [here]
      · rw [List.mem_cons,ih later]
        by_cases here : key = changeKey change
        · subst here
          simp [apart]
        · simp [here]

theorem ofTableSnoc (key : Nat × Nat) (changes : List TableChange) (change : TableChange) :
    ofTable key (changes ++ [change]) = ofTable key changes ++ if changeKey change = key then [change] else [] := by
  rw [ofTable,List.filter_append]
  by_cases same : changeKey change = key <;> simp [ofTable,same]

theorem pushGrouped {changes groups} (grouped : Grouped changes groups) (change : TableChange) :
    Grouped (changes ++ [change]) (pushGroup groups change) := by
  refine ⟨pushGroupSorted grouped.sorted,?_⟩
  intro key ofKey
  rw [pushGroupEntry grouped.sorted,ofTableSnoc,grouped.entries]
  by_cases here : key = changeKey change
  · subst here
    simp only [ne_eq,not_true_eq_false,false_and,true_and,false_or,if_true]
    constructor
    · rintro (⟨before,mem,same⟩ | ⟨none',same⟩)
      · rw [same,((grouped.entries _ _).mp mem).1]
        simp
      · have empty : ofTable (changeKey change) changes = [] := by
          by_contra some'
          exact none' _ ((grouped.entries _ _).mpr ⟨rfl,some'⟩)
        simp [same,empty]
    · intro ⟨same,_⟩
      by_cases empty : ofTable (changeKey change) changes = []
      · refine .inr ⟨?_,by rw [same,empty]; rfl⟩
        intro before mem
        obtain ⟨equal,filled⟩ := (grouped.entries _ _).mp mem
        exact filled (equal.trans empty)
      · exact .inl ⟨_,(grouped.entries _ _).mpr ⟨rfl,empty⟩,same⟩
  · simp [here,Ne.symm here]

theorem loopGrouped (changes : List TableChange) : Grouped changes (changes.foldl pushGroup []) := by
  have start : Grouped [] [] := ⟨.nil,by simp [ofTable]⟩
  suffices ∀ past groups, Grouped past groups → Grouped (past ++ changes) (changes.foldl pushGroup groups) from
    this [] [] start
  induction changes with
  | nil => simp
  | cons change changes ih =>
    intro past groups grouped
    simpa using ih (past ++ [change]) _ (pushGrouped grouped change)

theorem keyLeTotal (a b : Nat × Nat) : keyLe a b ∨ keyLe b a := by
  unfold keyLe
  omega

theorem listedGrouped (changes : List TableChange) : Grouped changes (groupChanges changes) := by
  have trans : ∀ a b c : Nat × Nat, keyLe a b → keyLe b c → keyLe a c := by
    intro a b c
    unfold keyLe
    omega
  let keys := (changes.map changeKey).dedup.insertionSort keyLe
  have perm : keys.Perm (changes.map changeKey).dedup := List.perm_insertionSort _ _
  refine ⟨?_,?_⟩
  · have sorted : keys.Pairwise keyLe := by
      have total : Std.Total keyLe := ⟨keyLeTotal⟩
      have transitive : IsTrans (Nat × Nat) keyLe := ⟨trans⟩
      exact List.pairwise_insertionSort keyLe _
    have distinct : keys.Nodup := perm.nodup_iff.mpr (List.nodup_dedup _)
    refine List.pairwise_map.mpr ((sorted.and distinct).imp ?_)
    intro a b ⟨le,apart⟩
    have parts : ¬ (a.1 = b.1 ∧ a.2 = b.2) := fun same => apart (Prod.ext same.1 same.2)
    unfold keyLe at le
    show keyLt a b
    unfold keyLt
    omega
  · intro key ofKey
    have listed : key ∈ keys ↔ ofTable key changes ≠ [] := by
      rw [perm.mem_iff,List.mem_dedup,List.mem_map,ofTable,Ne,List.filter_eq_nil_iff]
      simp
    show (key,ofKey) ∈ keys.map (fun key => (key,ofTable key changes)) ↔ _
    rw [List.mem_map]
    constructor
    · rintro ⟨other,mem,same⟩
      obtain ⟨rfl,rfl⟩ := Prod.mk.inj same
      exact ⟨rfl,listed.mp mem⟩
    · rintro ⟨rfl,filled⟩
      exact ⟨key,listed.mpr filled,rfl⟩

theorem groupedEqual {changes left right} (a : Grouped changes left) (b : Grouped changes right) : left = right := by
  have distinct : ∀ {groups : List Group}, groups.Pairwise (fun a b => keyLt a.1 b.1) → groups.Nodup := by
    intro groups sorted
    refine sorted.imp ?_
    rintro x y below rfl
    exact keyLtIrrefl x.1 below
  have perm : left.Perm right := by
    rw [List.perm_ext_iff_of_nodup (distinct a.sorted) (distinct b.sorted)]
    rintro ⟨key,ofKey⟩
    rw [a.entries,b.entries]
  refine perm.eq_of_pairwise ?_ a.sorted b.sorted
  intro x y _ _ below above
  exact absurd (keyLtTrans below above) (keyLtIrrefl _)

/-- The loop over the changes of a batch builds exactly the groups that the request is made from. -/
theorem loopGroups (changes : List TableChange) : changes.foldl pushGroup [] = groupChanges changes :=
  groupedEqual (loopGrouped changes) (listedGrouped changes)

section Registry

structure Distinct (bindings : List TableBinding) : Prop where
  keys : (bindings.map TableBinding.key).Nodup
  targets : (bindings.map (fun binding => binding.plan.table.target)).Nodup
  stagings : (bindings.map (fun binding => binding.plan.stagingName)).Nodup

theorem insertSource {registry next : TableBindingRegistry} {binding} (ok : registry.insert binding = .ok next) :
    next.bindings = registry.bindings ++ [binding] ∧ (Distinct registry.bindings → Distinct next.bindings) := by
  obtain ⟨key,ok⟩ := iteOk.mp ok
  obtain ⟨target,ok⟩ := iteOk.mp ok
  obtain ⟨staging,ok⟩ := iteOk.mp ok
  cases Except.ok.inj ok
  simp only [List.any_eq_true,decide_eq_true_eq,not_exists,not_and] at key target staging
  refine ⟨rfl,?_⟩
  intro ⟨keys,targets,stagings⟩
  refine ⟨?_,?_,?_⟩
  · simpa [List.nodup_append,keys] using key
  · simpa [List.nodup_append,targets] using target
  · simpa [List.nodup_append,stagings] using staging

def Registers (past : List TableBinding) (registry : TableBindingRegistry) : Prop :=
  registry.bindings = past ∧ Distinct past

theorem insertRegisters (past : List TableBinding) (registry : TableBindingRegistry) (binding : TableBinding)
    (next : TableBindingRegistry) (before : Registers past registry) (ok : registry.insert binding = .ok next) :
    Registers (past ++ [binding]) next := by
  obtain ⟨appended,kept⟩ := insertSource ok
  rw [before.1] at appended kept
  exact ⟨appended,appended ▸ kept before.2⟩

theorem registrySource {bindings registry} (accepted : TableBindingRegistry.new bindings = .ok registry) :
    registry.bindings = bindings ∧ Distinct bindings := by
  exact foldlMInvariant insertRegisters bindings [] ⟨[]⟩ registry ⟨rfl,.nil,.nil,.nil⟩ accepted

variable {bindings : List TableBinding} {registry : TableBindingRegistry}
  (accepted : TableBindingRegistry.new bindings = .ok registry)
include accepted

theorem boundSource {key binding} (found : registry.get key.1 key.2 = some binding) :
    binding ∈ bindings ∧ binding.key = key := by
  obtain ⟨same,_⟩ := registrySource accepted
  have named := List.find?_some found
  exact ⟨same ▸ List.mem_of_find?_eq_some found,by simpa using named⟩

theorem boundFound {binding} (mem : binding ∈ bindings) :
    registry.get binding.key.1 binding.key.2 = some binding := by
  obtain ⟨same,distinct⟩ := registrySource accepted
  cases found : registry.get binding.key.1 binding.key.2 with
  | none =>
    have absent := List.find?_eq_none.mp found binding (same ▸ mem)
    simp at absent
  | some other =>
    obtain ⟨member,named⟩ := boundSource accepted found
    rw [List.inj_on_of_nodup_map distinct.keys member mem named]

theorem planIdentifies {left right : TableBinding} (memLeft : left ∈ bindings) (memRight : right ∈ bindings)
    (same : left.plan = right.plan) : left = right :=
  List.inj_on_of_nodup_map (registrySource accepted).2.targets memLeft memRight (by rw [same])

end Registry

theorem rejectSource {scope xid change} (ok : rejectChange scope xid change = .ok ()) :
    (∀ relationIds cascade restart, change ≠ .truncate relationIds cascade restart) ∧
      ∀ message, change = .ddl message → message.affectedSchemas ≠ [] ∧
        ∀ schema ∈ message.affectedSchemas, scope.covers schema = false := by
  cases change with
  | row change => exact ⟨by simp,by simp⟩
  | truncate => contradiction
  | ddl message =>
    have calm := (iteOk.mp ok).1
    simp only [DdlScope.requiresBarrier,Bool.or_eq_true,not_or,List.isEmpty_iff,List.any_eq_true,not_exists,not_and,
      Bool.not_eq_true] at calm
    refine ⟨by simp,?_⟩
    intro other same
    cases same
    exact calm

def tableChanges (batch : TransactionBatch) (key : Nat × Nat) : List TableChange :=
  (batch.transactions.flatMap SourceTransaction.changes).filterMap (fun change =>
    match change with
    | .row change => if changeKey change = key then some change else none
    | _ => none)

theorem tableChangesOf (batch : TransactionBatch) (key : Nat × Nat) :
    tableChanges batch key = ofTable key (rowChanges batch) := by
  unfold tableChanges rowChanges ofTable
  induction batch.transactions with
  | nil => rfl
  | cons transaction rest ih =>
    rw [List.flatMap_cons,List.filterMap_append,ih,List.flatMap_cons,List.filter_append]
    refine congrArg (· ++ _) ?_
    induction transaction.changes with
    | nil => rfl
    | cons change changes ih =>
      cases change with
      | row change =>
        by_cases same : changeKey change = key <;> simp [rowChange?,same,ih]
      | truncate => simpa [rowChange?,List.filterMap_cons] using ih
      | ddl message => simpa [rowChange?,List.filterMap_cons] using ih

def groupTable (registry : TableBindingRegistry) (group : Group) : Option TableApplyBatch :=
  (tableBatch registry group).toOption.join

theorem tableBatchSource {registry group entry} (ok : tableBatch registry group = .ok entry) :
    ∃ binding rows, registry.get group.1.1 group.1.2 = some binding ∧
      normalizeTableChanges binding.schema group.2 = .ok rows ∧
      entry = if rows.isEmpty then none else some ⟨binding.plan,rows⟩ := by
  unfold tableBatch at ok
  split at ok <;> try contradiction
  rename_i binding found
  obtain ⟨rows,folded,ok⟩ := bindOk.mp ok
  exact ⟨binding,rows,found,mapErrorOk.mp folded,(Except.ok.inj ok).symm⟩

theorem tablesOfGroups {registry} {groups : List Group} {entries} (ok : groups.mapM (tableBatch registry) = .ok entries) :
    entries.filterMap id = groups.filterMap (groupTable registry) := by
  have each := mapMOk.mp ok
  clear ok
  induction each with
  | nil => rfl
  | @cons group entry groups entries head tail ih =>
    have same : groupTable registry group = entry := by
      rw [groupTable,head]
      rfl
    rw [List.filterMap_cons,List.filterMap_cons,same,ih]
    rfl

theorem normalizeNothing {schema rows} (ok : normalizeTableChanges schema [] = .ok rows) : rows = [] := by
  obtain ⟨_,_,ok⟩ := bindOk.mp ok
  obtain ⟨n,started,ok⟩ := bindOk.mp ok
  cases Except.ok.inj started
  exact (Except.ok.inj ok).symm

theorem firstRepeatNone {names seen : List String} (distinct : names.Nodup) (fresh : ∀ name ∈ names, name ∉ seen) :
    validateRequest.firstRepeat seen names = none := by
  induction names generalizing seen with
  | nil => rfl
  | cons name rest ih =>
    obtain ⟨absent,distinct⟩ := List.nodup_cons.mp distinct
    rw [validateRequest.firstRepeat,if_neg (fresh name List.mem_cons_self)]
    refine ih distinct ?_
    intro other mem seenOther
    rcases List.mem_cons.mp seenOther with same | before
    · exact absent (same ▸ mem)
    · exact fresh other (List.mem_cons_of_mem _ mem) before

section Request
variable {bindings : List TableBinding} {registry : TableBindingRegistry}
  (accepted : TableBindingRegistry.new bindings = .ok registry) {fence : PipelineFence} {slotName : String}
  {scope : DdlScope} {batch : TransactionBatch} {request : ApplyRequest}
  (built : buildApplyRequestScoped fence slotName registry scope batch = .ok request)

include built

theorem builtSource : rejectSchemaBarriers batch scope = .ok () ∧
    (∃ entries, (groupChanges (rowChanges batch)).mapM (tableBatch registry) = .ok entries) ∧
    request = ⟨fence,batchCheckpoint fence slotName batch.finalTransaction.finalPosition,
      (groupChanges (rowChanges batch)).filterMap (groupTable registry)⟩ := by
  obtain ⟨_,calm,ok⟩ := bindOk.mp built
  obtain ⟨entries,mapped,ok⟩ := bindOk.mp ok
  cases Except.ok.inj ok
  exact ⟨calm,⟨entries,mapped⟩,by rw [tablesOfGroups mapped]⟩

theorem groupSource {key ofKey} (mem : (key,ofKey) ∈ groupChanges (rowChanges batch)) :
    ∃ binding rows, registry.get key.1 key.2 = some binding ∧
      normalizeTableChanges binding.schema (tableChanges batch key) = .ok rows ∧
      groupTable registry (key,ofKey) = if rows.isEmpty then none else some ⟨binding.plan,rows⟩ := by
  obtain ⟨_,⟨entries,mapped⟩,_⟩ := builtSource built
  obtain ⟨entry,_,ok⟩ := relatedFrom (mapMOk.mp mapped) mem
  obtain ⟨binding,rows,found,folded,same⟩ := tableBatchSource ok
  have whole : ofKey = tableChanges batch key :=
    (((listedGrouped (rowChanges batch)).entries key ofKey).mp mem).1.trans (tableChangesOf batch key).symm
  refine ⟨binding,rows,found,whole ▸ folded,?_⟩
  rw [groupTable,ok,same]
  split <;> rfl

include accepted

theorem changeBound {change} (mem : change ∈ rowChanges batch) :
    ∃ binding ∈ bindings, binding.key = (change.relationId,change.generation) := by
  have filled : ofTable (changeKey change) (rowChanges batch) ≠ [] := by
    intro empty
    simpa using List.filter_eq_nil_iff.mp empty change mem
  have listed := ((listedGrouped (rowChanges batch)).entries _ _).mpr ⟨rfl,filled⟩
  obtain ⟨binding,_,found,_,_⟩ := groupSource built listed
  exact ⟨binding,boundSource accepted found⟩

theorem tableSource {table} (mem : table ∈ request.tables) : ∃ binding ∈ bindings, table.plan = binding.plan ∧
    table.rows ≠ [] ∧ tableChanges batch binding.key ≠ [] ∧
    normalizeTableChanges binding.schema (tableChanges batch binding.key) = .ok table.rows := by
  rw [(builtSource built).2.2] at mem
  obtain ⟨⟨key,ofKey⟩,listed,given⟩ := List.mem_filterMap.mp mem
  obtain ⟨binding,rows,found,folded,same⟩ := groupSource built listed
  obtain ⟨member,rfl⟩ := boundSource accepted found
  obtain ⟨whole,filled⟩ := ((listedGrouped (rowChanges batch)).entries _ _).mp listed
  rw [given] at same
  split at same
  · contradiction
  · rename_i some'
    cases Option.some.inj same
    refine ⟨binding,member,rfl,by simpa using some',?_,folded⟩
    rw [tableChangesOf,← whole]
    exact filled

theorem bindingTable {binding} (mem : binding ∈ bindings) (changed : tableChanges batch binding.key ≠ []) :
    ∃ rows, normalizeTableChanges binding.schema (tableChanges batch binding.key) = .ok rows ∧
      (rows ≠ [] → ⟨binding.plan,rows⟩ ∈ request.tables) := by
  rw [tableChangesOf] at changed
  have listed := ((listedGrouped (rowChanges batch)).entries _ _).mpr ⟨rfl,changed⟩
  obtain ⟨other,rows,found,folded,same⟩ := groupSource built listed
  cases Option.some.inj ((boundFound accepted mem).symm.trans found)
  refine ⟨rows,folded,?_⟩
  intro some'
  rw [if_neg (by simpa using some')] at same
  rw [(builtSource built).2.2]
  exact List.mem_filterMap.mpr ⟨_,listed,same⟩

theorem tablesApart : request.tables.Pairwise (fun a b =>
    a.plan.table.target ≠ b.plan.table.target ∧ a.plan.stagingName ≠ b.plan.stagingName) := by
  obtain ⟨_,distinct⟩ := registrySource accepted
  rw [(builtSource built).2.2,List.pairwise_filterMap]
  refine (listedGrouped (rowChanges batch)).sorted.imp_of_mem ?_
  rintro ⟨keyA,ofA⟩ ⟨keyB,ofB⟩ memA memB below a givenA b givenB
  have apart : keyA ≠ keyB := fun same => keyLtIrrefl keyB (same ▸ below)
  obtain ⟨bindingA,rowsA,foundA,_,sameA⟩ := groupSource built memA
  obtain ⟨bindingB,rowsB,foundB,_,sameB⟩ := groupSource built memB
  obtain ⟨memberA,rfl⟩ := boundSource accepted foundA
  obtain ⟨memberB,rfl⟩ := boundSource accepted foundB
  rw [givenA] at sameA
  rw [givenB] at sameB
  split at sameA <;> try contradiction
  split at sameB <;> try contradiction
  cases Option.some.inj sameA
  cases Option.some.inj sameB
  refine ⟨?_,?_⟩
  · intro same
    exact apart (congrArg TableBinding.key (List.inj_on_of_nodup_map distinct.targets memberA memberB same))
  · intro same
    exact apart (congrArg TableBinding.key (List.inj_on_of_nodup_map distinct.stagings memberA memberB same))

theorem requestValid : validateRequest request = .ok () := by
  have names : (request.tables.map (fun table => table.plan.stagingName)).Nodup :=
    List.pairwise_map.mpr ((tablesApart accepted built).imp And.right)
  unfold validateRequest
  rw [firstRepeatNone names (by simp)]

/-- A request that is built holds the fold of every table's changes and of nothing else: the batch has no TRUNCATE and no
DDL for the job, every row change has a binding, a table is left out exactly when its fold is empty, the tables do not
share a target or a staging name, and the checkpoint is the position of the last transaction. -/
theorem everyChangeApplied :
    (∀ transaction ∈ batch.transactions, ∀ change ∈ transaction.changes, match change with
      | .row change => ∃ binding ∈ bindings, binding.key = (change.relationId,change.generation)
      | .truncate .. => False
      | .ddl message => message.affectedSchemas ≠ [] ∧ ∀ schema ∈ message.affectedSchemas, scope.covers schema = false) ∧
    (∀ binding ∈ bindings, tableChanges batch binding.key ≠ [] →
      ∃ rows, normalizeTableChanges binding.schema (tableChanges batch binding.key) = .ok rows) ∧
    (∀ binding ∈ bindings, ∀ rows, normalizeTableChanges binding.schema (tableChanges batch binding.key) = .ok rows →
      ∀ table : TableApplyBatch, table.plan = binding.plan →
        (table ∈ request.tables ↔ table.rows = rows ∧ rows ≠ [])) ∧
    (∀ table ∈ request.tables, ∃ binding ∈ bindings, table.plan = binding.plan) ∧
    request.tables.Pairwise (fun a b =>
      a.plan.table.target ≠ b.plan.table.target ∧ a.plan.stagingName ≠ b.plan.stagingName) ∧
    validateRequest request = .ok () ∧ request.fence = fence ∧
    request.checkpoint = ⟨⟨fence.pipelineId,fence.topologyGeneration,batch.finalTransaction.finalPosition.nodeId⟩,
      batch.finalTransaction.finalPosition.systemIdentifier,batch.finalTransaction.finalPosition.timeline,slotName,
      batch.finalTransaction.finalPosition.lsn⟩ := by
  obtain ⟨calm,_,same⟩ := builtSource built
  refine ⟨?_,?_,?_,?_,tablesApart accepted built,requestValid accepted built,by rw [same],by rw [same]; rfl⟩
  · intro transaction memTransaction change memChange
    obtain ⟨noTruncate,noDdl⟩ := rejectSource (forMOk.mp (forMOk.mp calm transaction memTransaction) change memChange)
    cases change with
    | row change =>
      refine changeBound accepted built ?_
      exact List.mem_flatMap.mpr ⟨transaction,memTransaction,List.mem_filterMap.mpr ⟨_,memChange,rfl⟩⟩
    | truncate relationIds cascade restart => exact noTruncate _ _ _ rfl
    | ddl message => exact noDdl message rfl
  · intro binding mem changed
    obtain ⟨rows,folded,_⟩ := bindingTable accepted built mem changed
    exact ⟨rows,folded⟩
  · intro binding mem rows folded table planned
    constructor
    · intro member
      obtain ⟨other,memOther,plannedOther,filled,_,foldedOther⟩ := tableSource accepted built member
      obtain rfl := planIdentifies accepted memOther mem (plannedOther.symm.trans planned)
      cases Except.ok.inj (folded.symm.trans foldedOther)
      exact ⟨rfl,filled⟩
    · intro ⟨rowsSame,filled⟩
      have changed : tableChanges batch binding.key ≠ [] := by
        intro empty
        rw [empty] at folded
        exact filled (normalizeNothing folded)
      obtain ⟨others,foldedOthers,given⟩ := bindingTable accepted built mem changed
      cases Except.ok.inj (folded.symm.trans foldedOthers)
      obtain ⟨plan,tableRows⟩ := table
      simp only at planned rowsSame
      rw [planned,rowsSame]
      exact given filled
  · intro table mem
    obtain ⟨binding,member,planned,_⟩ := tableSource accepted built mem
    exact ⟨binding,member,planned⟩

end Request

section Sample
open FoldRefines (accounts)

def sampleBatch : TransactionBatch where
  transactions := [
    ⟨7,0,⟨0,42,1,100⟩,[.row ⟨16385,1,.insert ⟨[.text [49],.text [97]]⟩⟩]⟩,
    ⟨8,0,⟨0,42,1,110⟩,[.ddl ⟨1,"CREATE TABLE",[],["audit"],""⟩,.row ⟨16385,1,.update none ⟨[.text [49],.text [98]]⟩⟩]⟩]
  rowCount := 2
  estimatedBytes := 16
  hasGenerationBarrier := true
  filled := by simp

def sampleRequest : Option (TableBinding × TableBindingRegistry × ApplyRequest) := do
  let binding ← (TableBinding.new accounts accounts.name "pg2cb_stage").toOption
  let registry ← (TableBindingRegistry.new [binding]).toOption
  let request ← (buildApplyRequestScoped ⟨7,1,3⟩ "pg2cb_slot" registry ⟨none,["audit"]⟩ sampleBatch).toOption
  some (binding,registry,request)

theorem sampleBatchApplied : ∃ binding registry request, sampleRequest = some (binding,registry,request) ∧
    request.tables.map TableApplyBatch.rows = [[⟨.upsert,[.text [49],.text [98]],none⟩]] ∧
    validateRequest request = .ok () ∧ request.checkpoint.appliedLsn = 110 := by
  have rows : sampleRequest.map (fun sample => sample.2.2.tables.map TableApplyBatch.rows) =
      some [[⟨.upsert,[.text [49],.text [98]],none⟩]] := by decide +kernel
  obtain ⟨⟨binding,registry,request⟩,given,rows⟩ := Option.map_eq_some_iff.mp rows
  have parts := given
  simp only [sampleRequest,bind,Option.bind_eq_some_iff,Option.some.injEq,Prod.mk.injEq] at parts
  obtain ⟨_,_,_,accepted,_,built,rfl,rfl,rfl⟩ := parts
  obtain ⟨_,_,_,_,_,valid,_,checkpoint⟩ := everyChangeApplied (toOptionSome.mp accepted) (toOptionSome.mp built)
  exact ⟨_,_,_,given,rows,valid,by rw [checkpoint]; decide⟩

end Sample

end CloudberryEtl.Coverage
