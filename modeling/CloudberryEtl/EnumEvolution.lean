import CloudberryEtl.ShadowLoad

/-! What `plan_enum_evolution` accepts and what its steps do to a target enum. Labels are added where the source has
them, or renamed in place; the labels that were there are never reordered or removed. -/
namespace CloudberryEtl.EnumEvolution
open ShadowLoad Result

def admits (labels : List String) : EnumAlteration → Prop
  | .addBefore label before => label ∉ labels ∧ before ∈ labels
  | .append label => label ∉ labels
  | .rename old new => old ∈ labels ∧ new ∉ labels

def isRename : EnumAlteration → Prop
  | .rename _ _ => True
  | _ => False

def renamesOnly (existing desired : List String) : Prop :=
  existing.length = desired.length ∧
  ∀ (index : Nat) (old new : String), existing[index]? = some old → desired[index]? = some new → old ≠ new → new ∉ existing

theorem stepAdmitted {labels step altered} (done : alterEnum labels step = .ok altered) : admits labels step := by
  cases step with
  | addBefore label before =>
    simp only [alterEnum,iteOk] at done
    simpa [admits] using done.1
  | append label =>
    simp only [alterEnum,iteOk] at done
    exact done.1
  | rename old new =>
    simp only [alterEnum,iteOk] at done
    simpa [admits] using done.1

theorem eachStepAdmitted {existing desired steps} (ran : steps.foldlM alterEnum existing = .ok desired) (done step rest)
    (split : steps = done ++ step :: rest) :
    ∃ labels, done.foldlM alterEnum existing = .ok labels ∧ admits labels step := by
  subst split
  obtain ⟨labels,before,ran⟩ := bindOk.mp (by simpa only [List.foldlM_append] using ran)
  obtain ⟨altered,first,_⟩ := bindOk.mp (by simpa only [List.foldlM_cons] using ran)
  exact ⟨labels,before,stepAdmitted first⟩

theorem sublistPastFront {label : String} {rest front back : List String} (absent : label ∉ front) :
    (label :: rest).Sublist (front ++ label :: back) ↔ rest.Sublist back := by
  induction front with
  | nil => exact List.cons_sublist_cons
  | cons first front ih =>
    obtain ⟨differs,absent⟩ := List.ne_and_not_mem_of_not_mem_cons absent
    constructor
    · intro within
      cases within with
      | cons _ within => exact (ih absent).mp within
      | cons_cons => contradiction
    · intro within
      exact ((ih absent).mpr within).cons first

theorem subsequenceFound {desired existing position} :
    (subsequenceEnd desired existing position).isSome ↔ existing.Sublist (desired.drop position) := by
  -- The greedy scan takes the first occurrence of each label, which leaves the most room for the labels after it.
  induction existing generalizing position with
  | nil => simp [subsequenceEnd]
  | cons label rest ih =>
    simp only [subsequenceEnd]
    cases found : (desired.drop position).findIdx? (fun candidate => candidate = label) with
    | none =>
      have absent : label ∉ desired.drop position := by
        intro mem
        simpa using List.findIdx?_eq_none_iff.mp found label mem
      have notWithin : ¬ (label :: rest).Sublist (desired.drop position) := by
        intro within
        exact absent (within.subset List.mem_cons_self)
      simp [notWithin]
    | some offset =>
      obtain ⟨bound,here,earlier⟩ := List.findIdx?_eq_some_iff_getElem.mp found
      have same : (desired.drop position)[offset] = label := by simpa using here
      have absent : label ∉ (desired.drop position).take offset := by
        intro mem
        obtain ⟨index,inside,at'⟩ := List.mem_take_iff_getElem.mp mem
        have differs := earlier index (by omega)
        simp [at'] at differs
      have splits : desired.drop position =
          (desired.drop position).take offset ++ label :: (desired.drop position).drop (offset + 1) := by
        rw [← same,List.cons_getElem_drop_succ,List.take_append_drop]
      rw [ih,splits,sublistPastFront absent,List.drop_drop,Nat.add_assoc]

theorem insertedAfter {label : String} {front tail : List String} :
    (front ++ tail).insertIdx front.length label = front ++ label :: tail := by
  induction front with
  | nil => rfl
  | cons first front ih => simp [ih]

theorem placeAfter {before : String} {front tail : List String} (absent : before ∉ front) :
    (front ++ before :: tail).findIdx (fun candidate => candidate = before) = front.length := by
  induction front with
  | nil => simp [List.findIdx_cons]
  | cons first front ih =>
    obtain ⟨differs,absent⟩ := List.ne_and_not_mem_of_not_mem_cons absent
    simp [List.findIdx_cons,differs.symm,ih absent]

def addition (label : String) (tail : List String) : EnumAlteration :=
  match tail.head? with
  | some before => .addBefore label before
  | none => .append label

theorem labelAbsent {label : String} {front tail rest : List String} (distinct : (front ++ label :: rest).Nodup)
    (within : tail.Sublist rest) : label ∉ front ++ tail := by
  obtain ⟨_,distinctRest,apart⟩ := List.nodup_append.mp distinct
  intro mem
  rcases List.mem_append.mp mem with mem | mem
  · exact apart label mem label List.mem_cons_self rfl
  · exact (List.nodup_cons.mp distinctRest).1 (within.subset mem)

theorem additionRuns {label : String} {front tail rest : List String} (distinct : (front ++ label :: rest).Nodup)
    (within : tail.Sublist rest) : alterEnum (front ++ tail) (addition label tail) = .ok (front ++ label :: tail) := by
  obtain ⟨_,_,apart⟩ := List.nodup_append.mp distinct
  have absent := labelAbsent distinct within
  cases tail with
  | nil =>
    simp only [List.append_nil] at absent
    simp [addition,alterEnum,absent]
  | cons before tail =>
    have fresh : before ∉ front := by
      intro mem
      exact apart before mem before (List.mem_cons_of_mem _ (within.subset List.mem_cons_self)) rfl
    simp [addition,alterEnum,absent,placeAfter fresh,insertedAfter]

theorem additionAdds {label : String} {tail : List String} : ¬ isRename (addition label tail) := by
  cases tail <;> exact id

theorem nextLabel {front tail : List String} : (front ++ tail)[front.length]? = tail.head? := by
  cases tail <;> simp

theorem additionPlanned {label : String} {front tail rest : List String} {steps : List EnumAlteration}
    (missing : tail.head? ≠ some label) (absent : label ∉ front ++ tail)
    (planned : planAdditions rest (front.length + 1) (front ++ label :: tail) = .ok steps) :
    planAdditions (label :: rest) front.length (front ++ tail) = .ok (addition label tail :: steps) := by
  simp only [planAdditions,nextLabel,if_neg missing,if_neg absent,insertedAfter,planned]
  rfl

theorem additionsRun (front tail rest : List String) (distinct : (front ++ rest).Nodup) (within : tail.Sublist rest) :
    ∃ steps, planAdditions rest front.length (front ++ tail) = .ok steps ∧
      steps.foldlM alterEnum (front ++ tail) = .ok (front ++ rest) ∧ ∀ step ∈ steps, ¬ isRename step := by
  -- The loop invariant: the labels it has passed stand first, and those it has not are a sublist of what is desired.
  induction rest generalizing front tail with
  | nil =>
    cases List.sublist_nil.mp within
    exact ⟨[],rfl,rfl,by simp⟩
  | cons label rest ih =>
    have moved : ∀ tail, front ++ label :: tail = (front ++ [label]) ++ tail := by simp
    have length : (front ++ [label]).length = front.length + 1 := by simp
    have distinctNext : ((front ++ [label]) ++ rest).Nodup := by simpa using distinct
    have next := fun tail => ih (front ++ [label]) tail distinctNext
    simp only [length,← moved] at next
    by_cases passed : tail.head? = some label
    · obtain ⟨tail,rfl⟩ := List.head?_eq_some_iff.mp passed
      obtain ⟨steps,planned,ran,adds⟩ := next tail (List.cons_sublist_cons.mp within)
      exact ⟨steps,by simpa [planAdditions] using planned,ran,adds⟩
    · have within : tail.Sublist rest := by
        cases within with
        | cons _ within => exact within
        | cons_cons _ _ => simp at passed
      have absent := labelAbsent distinct within
      obtain ⟨steps,planned,ran,adds⟩ := next tail within
      exact ⟨addition label tail :: steps,additionPlanned passed absent planned,
        bindOk.mpr ⟨_,additionRuns distinct within,ran⟩,List.forall_mem_cons.mpr ⟨additionAdds,adds⟩⟩

theorem renameRuns {old new : String} {front rest : List String} (distinct : (front ++ old :: rest).Nodup)
    (absent : new ∉ front ++ old :: rest) :
    alterEnum (front ++ old :: rest) (.rename old new) = .ok (front ++ new :: rest) := by
  obtain ⟨_,distinctRest,apart⟩ := List.nodup_append.mp distinct
  have keep : ∀ labels : List String, old ∉ labels →
      labels.map (fun label => if label = old then new else label) = labels := by
    intro labels missing
    have each : ∀ label ∈ labels, (if label = old then new else label) = id label := by
      intro label mem
      have differs : label ≠ old := fun same => missing (same ▸ mem)
      exact if_neg differs
    exact (List.map_congr_left each).trans (List.map_id labels)
  have keepFront := keep front (fun mem => apart old mem old List.mem_cons_self rfl)
  have keepRest := keep rest (List.nodup_cons.mp distinctRest).1
  simp [alterEnum,absent,keepFront,keepRest]

theorem renamesRun (front : List String) (pairs : List (String × String))
    (distinctNew : (front ++ pairs.map Prod.snd).Nodup) (distinctOld : (front ++ pairs.map Prod.fst).Nodup)
    (fresh : ∀ pair ∈ pairs, pair.1 = pair.2 ∨ pair.2 ∉ pairs.map Prod.fst) :
    ((pairs.filter (fun pair => pair.1 ≠ pair.2)).map (fun pair => EnumAlteration.rename pair.1 pair.2)).foldlM alterEnum
      (front ++ pairs.map Prod.fst) = .ok (front ++ pairs.map Prod.snd) := by
  -- Renaming runs through the positions: what it has passed carries the new labels, the rest still the old ones.
  induction pairs generalizing front with
  | nil => rfl
  | cons pair pairs ih =>
    obtain ⟨old,new⟩ := pair
    simp only [List.map_cons] at distinctNew distinctOld fresh ⊢
    obtain ⟨here,freshRest⟩ := List.forall_mem_cons.mp fresh
    have moved : ∀ tail, front ++ new :: tail = (front ++ [new]) ++ tail := by simp
    have newOutside : new ∉ front ++ pairs.map Prod.fst := by
      obtain ⟨_,_,apart⟩ := List.nodup_append.mp distinctNew
      have beside : new ∉ pairs.map Prod.fst := by
        rcases here with same | absent
        · have same : old = new := same
          exact same ▸ (List.nodup_cons.mp (List.nodup_append.mp distinctOld).2.1).1
        · exact fun mem => absent (List.mem_cons_of_mem _ mem)
      intro mem
      rcases List.mem_append.mp mem with mem | mem
      · exact apart new mem new List.mem_cons_self rfl
      · exact beside mem
    have distinctNext : ((front ++ [new]) ++ pairs.map Prod.fst).Nodup := by
      have perm : (front ++ new :: pairs.map Prod.fst).Perm (new :: (front ++ pairs.map Prod.fst)) := List.perm_middle
      rw [← moved,perm.nodup_iff,List.nodup_cons]
      exact ⟨newOutside,distinctOld.sublist ((List.sublist_cons_self _ _).append_left _)⟩
    have next := ih (front ++ [new]) (by simpa using distinctNew) distinctNext
      (fun pair mem => (freshRest pair mem).imp_right (fun absent found => absent (List.mem_cons_of_mem _ found)))
    rw [← moved,← moved] at next
    by_cases same : old = new
    · subst same
      simpa using next
    · have absent : new ∉ front ++ old :: pairs.map Prod.fst := by
        intro mem
        rcases List.mem_cons.mp (List.perm_middle.mem_iff.mp mem) with equal | mem
        · exact same equal.symm
        · exact newOutside mem
      rw [List.filter_cons_of_pos (by simpa using same)]
      exact bindOk.mpr ⟨_,renameRuns distinctOld absent,next⟩

theorem renamesOnlyChecked {existing desired : List String} :
    renamesOnly existing desired ↔ existing.length = desired.length ∧
      (existing.zip desired).all (fun (old,new) => old = new ∨ new ∉ existing) := by
  apply and_congr_right
  intro length
  rw [List.all_eq_true]
  constructor
  · intro each pair mem
    obtain ⟨index,found⟩ := List.getElem?_of_mem mem
    obtain ⟨foundOld,foundNew⟩ := List.getElem?_zip_eq_some.mp found
    by_cases same : pair.1 = pair.2
    · simp [same]
    · simp [each index pair.1 pair.2 foundOld foundNew same]
  · intro each index old new foundOld foundNew differs
    have mem := List.mem_of_getElem? (List.getElem?_zip_eq_some (z := (old,new)) |>.mpr ⟨foundOld,foundNew⟩)
    simpa [differs] using each (old,new) mem

theorem renamesPlanned {existing desired : List String} (distinctExisting : existing.Nodup) (distinctDesired : desired.Nodup)
    (renames : renamesOnly existing desired) :
    (((existing.zip desired).filter (fun (old,new) => old ≠ new)).map
      (fun (old,new) => EnumAlteration.rename old new)).foldlM alterEnum existing = .ok desired := by
  have length := renames.1
  have olds : (existing.zip desired).map Prod.fst = existing := List.map_fst_zip (by omega)
  have news : (existing.zip desired).map Prod.snd = desired := List.map_snd_zip (by omega)
  have run := renamesRun [] (existing.zip desired)
  rw [olds,news] at run
  apply run distinctDesired distinctExisting
  simpa using List.all_eq_true.mp (renamesOnlyChecked.mp renames).2

theorem renamesOfPairs (pairs : List (String × String)) :
    ∀ step ∈ pairs.map (fun (old,new) => EnumAlteration.rename old new), isRename step := by
  intro step mem
  obtain ⟨pair,_,rfl⟩ := List.mem_map.mp mem
  trivial

theorem evolutionCases {existing desired : List String} (distinctExisting : existing.Nodup)
    (distinctDesired : desired.Nodup) :
    (∃ steps, planEnumEvolution existing desired = .ok steps ∧ steps.foldlM alterEnum existing = .ok desired ∧
      ((existing.Sublist desired ∧ ∀ step ∈ steps, ¬ isRename step) ∨
        (renamesOnly existing desired ∧ ∀ step ∈ steps, isRename step))) ∨
    (¬ existing.Sublist desired ∧ ¬ renamesOnly existing desired ∧ planEnumEvolution existing desired =
      .error "enum label removal, reordering, or combined rename/add is not supported") := by
  unfold planEnumEvolution
  by_cases same : existing = desired
  · subst same
    exact .inl ⟨[],if_pos rfl,rfl,.inl ⟨List.Sublist.refl _,by simp⟩⟩
  rw [if_neg same]
  by_cases within : existing.Sublist desired
  · obtain ⟨steps,planned,ran,adds⟩ := additionsRun [] existing desired distinctDesired within
    have found := subsequenceFound.mpr (show existing.Sublist (desired.drop 0) from within)
    exact .inl ⟨steps,by rw [if_pos found]; exact planned,ran,.inl ⟨within,adds⟩⟩
  have missed : ¬ (subsequenceEnd desired existing 0).isSome := fun found => within (subsequenceFound.mp found)
  rw [if_neg missed]
  by_cases renames : renamesOnly existing desired
  · rw [if_pos (renamesOnlyChecked.mp renames)]
    exact .inl ⟨_,rfl,renamesPlanned distinctExisting distinctDesired renames,.inr ⟨renames,renamesOfPairs _⟩⟩
  · rw [if_neg (fun checked => renames (renamesOnlyChecked.mpr checked))]
    exact .inr ⟨within,renames,rfl⟩

/-- An accepted enum change runs: every statement of the plan meets its precondition, the enum ends with the desired
labels, and the plan either only adds, which keeps the labels that were there in their order, or only renames
positions. A change is accepted exactly when one of the two can make it, and the loop's own reordering error is never
the answer. -/
theorem evolutionExact (existing desired : List String) (distinctExisting : existing.Nodup)
    (distinctDesired : desired.Nodup) :
    (∀ steps, planEnumEvolution existing desired = .ok steps →
      (∀ done step rest, steps = done ++ step :: rest →
        ∃ labels, done.foldlM alterEnum existing = .ok labels ∧ admits labels step) ∧
      steps.foldlM alterEnum existing = .ok desired ∧
      ((existing.Sublist desired ∧ ∀ step ∈ steps, ¬ isRename step) ∨
        (renamesOnly existing desired ∧ ∀ step ∈ steps, isRename step))) ∧
    ((∃ steps, planEnumEvolution existing desired = .ok steps) ↔
      existing.Sublist desired ∨ renamesOnly existing desired) ∧
    planEnumEvolution existing desired ≠ .error "enum label reordering is not supported" := by
  rcases evolutionCases distinctExisting distinctDesired with ⟨steps,planned,ran,kept⟩ | ⟨notWithin,notRenames,refused⟩
  · rw [planned]
    constructor
    · intro others same
      cases Except.ok.inj same
      exact ⟨eachStepAdmitted ran,ran,kept⟩
    · exact ⟨⟨fun _ => kept.imp And.left And.left,fun _ => ⟨steps,rfl⟩⟩,by simp⟩
  · rw [refused]
    constructor
    · intro steps planned
      contradiction
    · exact ⟨by simp [notWithin,notRenames],by simp⟩

theorem evolutionOfReadyJobs :
    planEnumEvolution ["new","done"] ["ready","done"] = .ok [.rename "new" "ready"] ∧
    (∃ steps, planEnumEvolution ["new","done"] ["queued","new","done"] = .ok steps) ∧
    planEnumEvolution ["new","done"] ["done","new"] ≠ .error "enum label reordering is not supported" := by
  have within : ["new","done"].Sublist ["queued","new","done"] := by decide
  exact ⟨by decide,
    (evolutionExact ["new","done"] ["queued","new","done"] (by decide) (by decide)).2.1.mpr (.inl within),
    (evolutionExact ["new","done"] ["done","new"] (by decide) (by decide)).2.2⟩

end CloudberryEtl.EnumEvolution
