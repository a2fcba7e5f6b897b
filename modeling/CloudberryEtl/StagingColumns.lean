import CloudberryEtl.KeyLayout

/-! The columns of the staging table by name. A control column begins with a text that no data column begins with, so
the column list of `copy_sql` names every column once. -/
namespace CloudberryEtl.StagingColumns
open Schema TablePlan StagedApply KeyedTable KeyLayout Result

def copyColumns (plan : ApplyPlan) : List String :=
  plan.copyLayout.operationColumn :: plan.copyLayout.dataColumns ++
    plan.copyLayout.presenceColumns.map PresenceColumn.stagingColumnName ++
    plan.copyLayout.oldKeyPresentColumn :: plan.copyLayout.oldKeyColumns.map OldKeyColumn.stagingColumnName

-- `attnum` is an i16.
def AttnumsInRange (schema : TableSchema) : Prop :=
  ∀ column ∈ schema.columns, -2 ^ 15 ≤ column.attnum ∧ column.attnum < 2 ^ 15

instance (schema : TableSchema) : Decidable (AttnumsInRange schema) := by unfold AttnumsInRange; infer_instance

section Prefixes

def suffixDigits (suffix : Nat) : List Char := if suffix = 0 then [] else Nat.toDigits 10 suffix

theorem candidateText (suffix : Nat) :
    (controlCandidate suffix).toList = "__pg2cb".toList ++ (suffixDigits suffix ++ ['_']) := by
  unfold controlCandidate suffixDigits
  split
  · rfl
  · simp

theorem toDigitsInjective {a b : Nat} (same : Nat.toDigits 10 a = Nat.toDigits 10 b) : a = b := by
  have back := congrArg (fun digits => Nat.ofDigitChars 10 digits 0) same
  simpa using back

theorem suffixDigitsInjective {a b : Nat} (same : suffixDigits a = suffixDigits b) : a = b := by
  unfold suffixDigits at same
  split at same
  next zero =>
    split at same
    next other => rw [zero,other]
    next => exact absurd same.symm Nat.toDigits_ne_nil
  next =>
    split at same
    next => exact absurd same Nat.toDigits_ne_nil
    next => exact toDigitsInjective same

theorem suffixDigitsPlain (suffix : Nat) : '_' ∉ suffixDigits suffix := by
  unfold suffixDigits
  split
  · simp
  · intro mem
    exact absurd (Nat.isDigit_of_mem_toDigits (by decide) (by decide) mem) (by decide)

theorem endedPrefix {a b : List Char} (plainA : '_' ∉ a) (plainB : '_' ∉ b) (begins : a ++ ['_'] <+: b ++ ['_']) :
    a = b := by
  induction a generalizing b with
  | nil =>
    cases b with
    | nil => rfl
    | cons d b => exact absurd (List.cons_prefix_cons.mp begins).1 (fun same => plainB (same ▸ List.mem_cons_self))
  | cons c a ih =>
    cases b with
    | nil => exact absurd (List.cons_prefix_cons.mp begins).1 (fun same => plainA (same ▸ List.mem_cons_self))
    | cons d b =>
      obtain ⟨same,tail⟩ := List.cons_prefix_cons.mp begins
      rw [same,ih (fun mem => plainA (by simp [mem])) (fun mem => plainB (by simp [mem])) tail]

theorem candidateUnique {a b : Nat} {name : List Char} (beginsA : (controlCandidate a).toList <+: name)
    (beginsB : (controlCandidate b).toList <+: name) : a = b := by
  have ended {c d : Nat} (begins : (controlCandidate c).toList <+: (controlCandidate d).toList) : c = d := by
    rw [candidateText,candidateText,List.prefix_append_right_inj] at begins
    exact suffixDigitsInjective (endedPrefix (suffixDigitsPlain c) (suffixDigitsPlain d) begins)
  rcases List.prefix_or_prefix_of_prefix beginsA beginsB with here | here
  · exact ended here
  · exact (ended here).symm

def Unused (table : CreateTablePlan) (suffix : Nat) : Prop :=
  ∀ column ∈ table.columns, ¬ (controlCandidate suffix).toList <+: column.name.toList

theorem unusedAmong (table : CreateTablePlan) : ∃ suffix ≤ table.columns.length, Unused table suffix := by
  -- Every taken candidate takes a column of its own, and there are fewer columns than candidates.
  by_contra taken
  push Not at taken
  have each (suffix : Nat) : ∃ index : Nat, suffix ≤ table.columns.length →
      ∃ column : ColumnPlan, table.columns[index]? = some column ∧
      (controlCandidate suffix).toList <+: column.name.toList := by
    by_cases low : suffix ≤ table.columns.length
    · have used := taken suffix low
      unfold Unused at used
      push Not at used
      obtain ⟨column,mem,begins⟩ := used
      obtain ⟨index,found⟩ := List.getElem?_of_mem mem
      exact ⟨index,fun _ => ⟨column,found,begins⟩⟩
    · exact ⟨0,fun high => absurd high low⟩
  choose owner owned using each
  have inRange {suffix : Nat} (mem : suffix ∈ Finset.range (table.columns.length + 1)) : suffix ≤ table.columns.length :=
    Nat.lt_succ_iff.mp (Finset.mem_range.mp mem)
  have maps : ∀ suffix ∈ Finset.range (table.columns.length + 1), owner suffix ∈ Finset.range table.columns.length := by
    intro suffix mem
    obtain ⟨column,found,_⟩ := owned suffix (inRange mem)
    exact Finset.mem_range.mpr (List.getElem?_eq_some_iff.mp found).1
  have apart : Set.InjOn owner (Finset.range (table.columns.length + 1)) := by
    intro a memA b memB same
    obtain ⟨column,foundA,beginsA⟩ := owned a (inRange memA)
    obtain ⟨other,foundB,beginsB⟩ := owned b (inRange memB)
    rw [same] at foundA
    cases Option.some.inj (foundA.symm.trans foundB)
    exact candidateUnique beginsA beginsB
  have enough := Finset.card_le_card_of_injOn owner maps apart
  rw [Finset.card_range,Finset.card_range] at enough
  omega

theorem unusedIff (table : CreateTablePlan) (suffix : Nat) :
    table.columns.all (fun column => !(controlCandidate suffix).toList.isPrefixOf column.name.toList) = true ↔
      Unused table suffix := by
  simp [Unused,← List.isPrefixOf_iff_prefix]

def FirstUnused (table : CreateTablePlan) (suffix : Nat) : Prop :=
  Unused table suffix ∧ ∀ earlier < suffix, ¬ Unused table earlier

theorem controlPrefixFound (table : CreateTablePlan) {free : Nat} (unused : Unused table free) (fuel : Nat) :
    ∀ suffix, suffix ≤ free → free < suffix + fuel → (∀ earlier < suffix, ¬ Unused table earlier) →
      ∃ found ≤ free, controlPrefixFrom table fuel suffix = controlCandidate found ∧ FirstUnused table found := by
  induction fuel with
  | zero =>
    intro suffix low high _
    omega
  | succ fuel ih =>
    intro suffix low high passed
    unfold controlPrefixFrom
    split
    next here => exact ⟨suffix,low,rfl,(unusedIff table suffix).mp here,passed⟩
    next taken =>
      have here : ¬ Unused table suffix := fun free => taken ((unusedIff table suffix).mpr free)
      have later : suffix ≠ free := fun same => here (same ▸ unused)
      refine ih (suffix + 1) (by omega) (by omega) ?_
      intro earlier below
      rcases Nat.lt_succ_iff_lt_or_eq.mp below with before | same
      · exact passed earlier before
      · exact same ▸ here

theorem controlPrefixEnds (table : CreateTablePlan) : ∃ suffix ≤ table.columns.length, FirstUnused table suffix ∧
    ∀ fuel > table.columns.length, controlPrefixFrom table fuel 0 = controlCandidate suffix := by
  -- The loop looks at no more candidates than there are columns, and at one more.
  obtain ⟨free,low,unused⟩ := unusedAmong table
  obtain ⟨suffix,below,_,first⟩ := controlPrefixFound table unused (table.columns.length + 1) 0 (Nat.zero_le _) (by omega)
    (by simp)
  refine ⟨suffix,by omega,first,?_⟩
  intro fuel enough
  obtain ⟨found,_,answer,other⟩ := controlPrefixFound table unused fuel 0 (Nat.zero_le _) (by omega) (by simp)
  have same : found = suffix := by
    rcases Nat.lt_trichotomy found suffix with before | same | after
    · exact absurd other.1 (first.2 found before)
    · exact same
    · exact absurd first.1 (other.2 suffix after)
  rw [answer,same]

theorem controlUnused {table : CreateTablePlan} (few : table.columns.length < 2 ^ 32) :
    ∃ suffix ≤ table.columns.length, unusedControlPrefix table = controlCandidate suffix ∧ FirstUnused table suffix := by
  obtain ⟨suffix,low,first,found⟩ := controlPrefixEnds table
  exact ⟨suffix,low,found _ few,first⟩

end Prefixes

section Texts

theorem naturalText (n : Nat) : (toString (Int.ofNat n)).toList = Nat.toDigits 10 n := Nat.toList_repr

theorem negativeText (n : Nat) : (toString (Int.negSucc n)).toList = '-' :: Nat.toDigits 10 (n + 1) := by
  show ("-" ++ Nat.repr (n + 1)).toList = _
  simp

theorem intText (value : Int) : ∃ first rest, (toString value).toList = first :: rest ∧
    (first.isDigit = true ∨ first = '-') := by
  cases value with
  | ofNat n =>
    cases text : Nat.toDigits 10 n with
    | nil => exact absurd text Nat.toDigits_ne_nil
    | cons first rest =>
      have mem : first ∈ Nat.toDigits 10 n := text ▸ List.mem_cons_self
      exact ⟨first,rest,(naturalText n).trans text,.inl (Nat.isDigit_of_mem_toDigits (by decide) (by decide) mem)⟩
  | negSucc n => exact ⟨'-',_,negativeText n,.inr rfl⟩

theorem appendInjective (control : String) : Function.Injective (fun text : String => control ++ text) := by
  intro a b same
  have texts := congrArg String.toList same
  simp only [String.toList_append,List.append_cancel_left_eq] at texts
  exact String.toList_injective texts

theorem intTextInjective {a b : Int} (same : toString a = toString b) : a = b := by
  have texts := congrArg String.toList same
  have apart (n m : Nat) : Nat.toDigits 10 n ≠ '-' :: Nat.toDigits 10 m := by
    intro equal
    have minus : '-' ∈ Nat.toDigits 10 n := by rw [equal]; simp
    exact absurd (Nat.isDigit_of_mem_toDigits (by decide) (by decide) minus) (by decide)
  cases a with
  | ofNat a =>
    cases b with
    | ofNat b =>
      rw [naturalText,naturalText] at texts
      rw [toDigitsInjective texts]
    | negSucc b =>
      rw [naturalText,negativeText] at texts
      exact absurd texts (apart _ _)
  | negSucc a =>
    cases b with
    | ofNat b =>
      rw [naturalText,negativeText] at texts
      exact absurd texts.symm (apart _ _)
    | negSucc b =>
      rw [negativeText,negativeText] at texts
      have numbers := toDigitsInjective (List.cons.inj texts).2
      rw [Nat.succ.inj numbers]

theorem numberedNodup {α : Type} (label : String) {number : α → Int} {xs : List α} (distinct : (xs.map number).Nodup) :
    (xs.map (fun x => label ++ toString (number x))).Nodup := by
  have apart : Function.Injective (fun value : Int => label ++ toString value) :=
    fun a b same => intTextInjective (appendInjective label same)
  have named := distinct.map apart
  rwa [List.map_map] at named

theorem keyPresentUnnumbered (value : Int) : "old_key_present" ≠ "old_" ++ toString value := by
  intro same
  have texts := congrArg String.toList same
  obtain ⟨first,rest,digits,number⟩ := intText value
  rw [String.toList_append,digits,show "old_key_present".toList = "old_".toList ++ "key_present".toList from rfl,
    List.append_cancel_left_eq] at texts
  have letter : 'k' = first := (List.cons.inj texts).1
  rw [← letter] at number
  exact absurd number (by decide)

theorem presentText (text : String) : ("present_" ++ text).toList = 'p' :: ("resent_".toList ++ text.toList) := by
  rw [String.toList_append]
  rfl

theorem oldText (text : String) : ("old_" ++ text).toList = 'o' :: 'l' :: ("d_".toList ++ text.toList) := by
  rw [String.toList_append]
  rfl

end Texts

section Layout
variable {schema : TableSchema} {target : QualifiedName} {staging : String} {plan : ApplyPlan}

def controlTexts (plan : ApplyPlan) (schema : TableSchema) : List String :=
  "op" :: ((plan.table.columns.filter (fun column => column.name ∉ plan.table.primaryKey)).map
      (fun column => "present_" ++ toString column.sourceAttnum) ++
    "old_key_present" :: schema.primaryKey.map (fun column => "old_" ++ toString column.attnum))

theorem oldKeyColumnAt {table : CreateTablePlan} (plans : PlansTable schema table) (control : String) {index : Nat} {column}
    (found : schema.columns[index]? = some column) : ∃ sql, oldKeyColumn table control column.name =
      ⟨index,column.name,control ++ "old_" ++ toString column.attnum,sql⟩ := by
  obtain ⟨planned,atTable,sql,same⟩ := relatedAt plans.columns found
  refine ⟨sql,?_⟩
  unfold oldKeyColumn
  simp only [columnIndexAt plans found,atTable,same]
  rfl

theorem presenceNames (table : CreateTablePlan) (control : String) :
    (presenceColumns table control).map PresenceColumn.stagingColumnName =
      (table.columns.filter (fun column => column.name ∉ table.primaryKey)).map
        (fun column => control ++ ("present_" ++ toString column.sourceAttnum)) := by
  have fst : (table.columns.zipIdx.filter (fun column => column.1.name ∉ table.primaryKey)).map Prod.fst =
      table.columns.filter (fun column => column.name ∉ table.primaryKey) := by
    conv_rhs => rw [← List.zipIdx_map_fst 0 table.columns,List.filter_map]
    rfl
  rw [← fst,presenceColumns,List.map_map,List.map_map]
  refine List.map_congr_left ?_
  intro column _
  exact String.append_assoc ..

variable (planned : planApply schema target staging = .ok plan)
include planned

theorem layoutSource : PlansTable schema plan.table ∧ plan.copyLayout =
    ⟨unusedControlPrefix plan.table ++ "op",plan.table.columns.map ColumnPlan.name,
      presenceColumns plan.table (unusedControlPrefix plan.table),unusedControlPrefix plan.table ++ "old_key_present",
      plan.table.primaryKey.map (oldKeyColumn plan.table (unusedControlPrefix plan.table))⟩ := by
  have plans := (planApplySource planned).1.table
  obtain ⟨table,_,ok⟩ := bindOk.mp planned
  obtain ⟨_,_,ok⟩ := bindOk.mp ok
  obtain ⟨_,_,ok⟩ := bindOk.mp ok
  cases Except.ok.inj ok
  exact ⟨plans,rfl⟩

theorem oldKeyNames : plan.copyLayout.oldKeyColumns.map OldKeyColumn.stagingColumnName =
    schema.primaryKey.map (fun column => unusedControlPrefix plan.table ++ ("old_" ++ toString column.attnum)) := by
  obtain ⟨plans,layout⟩ := layoutSource planned
  rw [layout,List.map_map,plans.primaryKey,List.map_map]
  refine List.map_congr_left ?_
  intro column mem
  obtain ⟨index,found⟩ := List.getElem?_of_mem (memPrimaryKey.mp mem).1
  obtain ⟨sql,same⟩ := oldKeyColumnAt plans (unusedControlPrefix plan.table) found
  simp only [Function.comp,same]
  exact String.append_assoc ..

theorem copyColumnsPerm : (copyColumns plan).Perm (plan.table.columns.map ColumnPlan.name ++
    (controlTexts plan schema).map (fun text => unusedControlPrefix plan.table ++ text)) := by
  have oldKeys := oldKeyNames planned
  obtain ⟨_,layout⟩ := layoutSource planned
  unfold copyColumns controlTexts
  rw [oldKeys,layout,presenceNames]
  simp only [List.map_cons,List.map_append,List.map_map,Function.comp_def,List.cons_append,List.append_assoc]
  exact (List.perm_middle).symm

omit planned in
theorem controlTextsNodup (distinct : AttnumsDistinct schema) (plans : PlansTable schema plan.table) :
    (controlTexts plan schema).Nodup := by
  have attnums : plan.table.columns.map ColumnPlan.sourceAttnum = schema.columns.map ColumnSchema.attnum := by
    refine List.forall₂_eq_eq_eq ▸ (List.forall₂_map_left_iff.mpr (List.forall₂_map_right_iff.mpr ?_))
    refine plans.columns.flip.imp ?_
    intro planned column ⟨sql,same⟩
    rw [same]
    rfl
  have presence : ((plan.table.columns.filter (fun column => column.name ∉ plan.table.primaryKey)).map
      (fun column => "present_" ++ toString column.sourceAttnum)).Nodup :=
    numberedNodup "present_" ((List.Sublist.map _ List.filter_sublist).nodup (attnums ▸ distinct))
  have olds : (schema.primaryKey.map (fun column => "old_" ++ toString column.attnum)).Nodup :=
    numberedNodup "old_" (((primaryKeyPerm schema).map _).nodup_iff.mpr
      ((List.Sublist.map _ List.filter_sublist).nodup distinct))
  refine List.nodup_cons.mpr ⟨?_,List.nodup_append.mpr ⟨presence,List.nodup_cons.mpr ⟨?_,olds⟩,?_⟩⟩
  · intro mem
    rcases List.mem_append.mp mem with mem | mem
    · obtain ⟨column,_,same⟩ := List.mem_map.mp mem
      have texts := congrArg String.toList same
      rw [presentText] at texts
      exact absurd (List.cons.inj texts).1 (by decide)
    · rcases List.mem_cons.mp mem with same | mem
      · exact absurd same (by decide)
      · obtain ⟨column,_,same⟩ := List.mem_map.mp mem
        have texts := congrArg String.toList same
        rw [oldText] at texts
        exact absurd (List.cons.inj (List.cons.inj texts).2).1 (by decide)
  · intro mem
    obtain ⟨column,_,same⟩ := List.mem_map.mp mem
    exact keyPresentUnnumbered column.attnum same.symm
  · intro text inPresence other inOld same
    obtain ⟨column,_,rfl⟩ := List.mem_map.mp inPresence
    have texts := congrArg String.toList same
    rw [presentText] at texts
    rcases List.mem_cons.mp inOld with here | mem
    · rw [here] at texts
      exact absurd (List.cons.inj texts).1 (by decide)
    · obtain ⟨key,_,rfl⟩ := List.mem_map.mp mem
      rw [oldText] at texts
      exact absurd (List.cons.inj texts).1 (by decide)

omit planned in
theorem fewColumns (distinct : AttnumsDistinct schema) (ranged : AttnumsInRange schema) :
    schema.columns.length < 2 ^ 32 := by
  have inside : (schema.columns.map ColumnSchema.attnum).toFinset ⊆ Finset.Ico (-2 ^ 15 : Int) (2 ^ 15) := by
    intro attnum mem
    obtain ⟨column,held,rfl⟩ := List.mem_map.mp (List.mem_toFinset.mp mem)
    exact Finset.mem_Ico.mpr (ranged column held)
  have count := Finset.card_le_card inside
  rw [List.toFinset_card_of_nodup distinct,Int.card_Ico,List.length_map] at count
  omega

/-- The column list of the COPY statement names no column twice. -/
theorem copyColumnsNodup (distinct : AttnumsDistinct schema) (ranged : AttnumsInRange schema) :
    (copyColumns plan).Nodup := by
  obtain ⟨plans,_⟩ := layoutSource planned
  have names : plan.table.columns.map ColumnPlan.name = schema.columns.map ColumnSchema.name := plans.names
  have few : plan.table.columns.length < 2 ^ 32 := plans.length ▸ fewColumns distinct ranged
  obtain ⟨suffix,_,control,unused,_⟩ := controlUnused few
  rw [(copyColumnsPerm planned).nodup_iff]
  refine List.nodup_append.mpr ⟨names ▸ plans.namesNodup,
    (controlTextsNodup distinct plans).map (appendInjective _),?_⟩
  intro name data other inControl same
  obtain ⟨column,held,rfl⟩ := List.mem_map.mp data
  obtain ⟨text,_,rfl⟩ := List.mem_map.mp inControl
  refine unused column held ?_
  rw [same,control,String.toList_append]
  exact List.prefix_append _ _

end Layout

end CloudberryEtl.StagingColumns
