import CloudberryEtl.Resume
import CloudberryEtl.EnumEvolution
import CloudberryEtl.Transactions

/-! Which source types share a target type. A plan names an enum or a domain by its own name in the schema of the
target table, so the schema of the source type is lost. -/
namespace CloudberryEtl.UserTypes
open Schema Change TablePlan StagedApply SqlText KeyedTable Result TargetStore Manifest ShadowLoad
open Checkpoint hiding databaseGeneration

def isUserType : PgTypeKind → Bool
  | .enum _ => true
  | .domain _ _ => true
  | _ => false

mutual
def kindUserTypes : PgTypeKind → List PgType
  | .domain base _ => typeUserTypes base
  | .array element => typeUserTypes element
  | _ => []

def typeUserTypes : PgType → List PgType
  | ⟨oid,name,kind⟩ => kindUserTypes kind ++ if isUserType kind then [⟨oid,name,kind⟩] else []
end

def PlannedFrom (schema : String) (userType : PgType) (plan : UserTypePlan) : Prop :=
  plan.name.schema = schema ∧ plan.name.name = userType.name.name ∧
    ∃ sql inner, planTypeInner schema [] userType = .ok (sql,inner ++ [plan])

structure Extends (schema : String) (dataType : PgType) (prerequisites : List UserTypePlan) (sql : String)
    (extended extra : List UserTypePlan) : Prop where
  shape : extended = prerequisites ++ extra
  alone : planTypeInner schema [] dataType = .ok (sql,extra)
  planned : List.Forall₂ (PlannedFrom schema) (typeUserTypes dataType) extra

theorem planOuter {schema name plan} (ok : coreResult (QualifiedName.new schema name) = .ok plan) :
    plan.schema = schema ∧ plan.name = name := QualifiedName.newSource (mapErrorOk.mp ok)

def isScalar : PgTypeKind → Bool
  | .enum _ => false
  | .domain _ _ => false
  | .array _ => false
  | _ => true

theorem returned (text : Except SchemaError String) (earlier : List UserTypePlan) :
    (do return (← text,earlier) : Except SchemaError (String × List UserTypePlan)) =
      (do return (← text,[]) : Except SchemaError (String × List UserTypePlan)).map (fun planned => (planned.1,earlier)) := by
  cases text <;> rfl

theorem scalarText (name : QualifiedName) (schema : String) {kind} (scalar : isScalar kind) (earlier : List UserTypePlan) :
    planKindInner name schema earlier kind =
      (planKindInner name schema [] kind).map (fun planned => (planned.1,earlier)) := by
  cases kind with
  | enum _ => contradiction
  | domain _ _ => contradiction
  | array _ => contradiction
  | numeric precision scale => exact returned (numericSql precision scale) earlier
  | varChar length => exact returned (characterSql "character varying" length) earlier
  | char length => exact returned (characterSql "character" length) earlier
  | time precision zone => exact returned (datetimeSql "time" precision zone) earlier
  | timestamp precision zone => exact returned (datetimeSql "timestamp" precision zone) earlier
  | interval precision =>
    simp only [planKindInner]
    cases precisionSuffix "interval" precision <;> rfl
  | bit length varying => exact returned (bitSql length varying) earlier
  | _ => rfl

theorem scalarUserTypes {oid name kind} (scalar : isScalar kind) : typeUserTypes ⟨oid,name,kind⟩ = [] := by
  cases kind <;> first | contradiction | rfl

theorem scalarExtends {name : QualifiedName} {schema : String} {prerequisites : List UserTypePlan} {sql extended}
    {kind : PgTypeKind} (oid : Nat) (scalar : isScalar kind)
    (ok : planKindInner name schema prerequisites kind = .ok (sql,extended)) :
    ∃ extra, Extends schema ⟨oid,name,kind⟩ prerequisites sql extended extra := by
  have plain := scalarText name schema scalar prerequisites
  have alone := scalarText name schema scalar []
  rw [ok] at plain
  cases text : planKindInner name schema [] kind with
  | error error =>
    rw [text] at plain
    cases plain
  | ok planned =>
    rw [text] at plain alone
    cases plain
    refine ⟨[],by simp,?_,by rw [scalarUserTypes scalar]; exact .nil⟩
    exact text.trans alone

mutual
theorem planKindExtends {name : QualifiedName} {schema : String} {prerequisites : List UserTypePlan} {sql extended} (oid : Nat) :
    (kind : PgTypeKind) → planKindInner name schema prerequisites kind = .ok (sql,extended) →
      ∃ extra, Extends schema ⟨oid,name,kind⟩ prerequisites sql extended extra := by
  intro kind ok
  cases kind with
  | enum labels =>
    simp only [planKindInner] at ok
    obtain ⟨filled,ok⟩ := iteOk.mp ok
    obtain ⟨unique,ok⟩ := iteOk.mp ok
    obtain ⟨targetName,named,ok⟩ := bindOk.mp ok
    obtain ⟨rendered,labelsOk,ok⟩ := bindOk.mp ok
    obtain ⟨quoted,quotedOk,ok⟩ := bindOk.mp ok
    cases Except.ok.inj ok
    have alone : planTypeInner schema [] ⟨oid,name,.enum labels⟩ = .ok (sql,[] ++ [(⟨targetName,
        "CREATE TYPE " ++ sql ++ " AS ENUM (" ++ ", ".intercalate rendered ++ ")",.enum labels⟩ : UserTypePlan)]) := by
      simp [planTypeInner,planKindInner,filled,unique,named,labelsOk,quotedOk,bind,Except.bind]
    exact ⟨_,rfl,alone,.cons ⟨(planOuter named).1,(planOuter named).2,_,_,alone⟩ .nil⟩
  | domain base constraints =>
    simp only [planKindInner] at ok
    obtain ⟨free,ok⟩ := iteOk.mp ok
    have empty : constraints = [] := by simpa using free
    subst empty
    obtain ⟨⟨baseSql,planned⟩,baseOk,ok⟩ := bindOk.mp ok
    obtain ⟨targetName,named,ok⟩ := bindOk.mp ok
    obtain ⟨quoted,quotedOk,ok⟩ := bindOk.mp ok
    cases Except.ok.inj ok
    obtain ⟨extra,shape,aloneBase,plans⟩ := planTypeExtends base baseOk
    have alone : planTypeInner schema [] ⟨oid,name,.domain base []⟩ = .ok (sql,extra ++ [(⟨targetName,
        "CREATE DOMAIN " ++ sql ++ " AS " ++ baseSql,.domain baseSql⟩ : UserTypePlan)]) := by
      simp [planTypeInner,planKindInner,aloneBase,named,quotedOk,bind,Except.bind]
    refine ⟨_,by rw [shape,List.append_assoc],alone,?_⟩
    simp only [typeUserTypes,kindUserTypes,isUserType,if_true]
    exact List.rel_append plans (.cons ⟨(planOuter named).1,(planOuter named).2,_,_,alone⟩ .nil)
  | array element =>
    simp only [planKindInner] at ok
    obtain ⟨⟨elementSql,planned⟩,elementOk,ok⟩ := bindOk.mp ok
    cases Except.ok.inj ok
    obtain ⟨extra,shape,alone,plans⟩ := planTypeExtends element elementOk
    refine ⟨extra,shape,?_,?_⟩
    · simp [planTypeInner,planKindInner,alone,bind,Except.bind]
    · simpa [typeUserTypes,kindUserTypes,isUserType] using plans
  | _ => exact scalarExtends oid rfl ok

theorem planTypeExtends {schema : String} {prerequisites : List UserTypePlan} {sql extended} :
    (dataType : PgType) → planTypeInner schema prerequisites dataType = .ok (sql,extended) →
      ∃ extra, Extends schema dataType prerequisites sql extended extra
  | ⟨oid,_,kind⟩ => fun ok => planKindExtends oid kind ok
end

def tableUserTypes (columns : List ColumnSchema) : List PgType := columns.flatMap (fun column => typeUserTypes column.dataType)

structure Prerequisites (schema : String) (columns : List ColumnSchema) (plans : List UserTypePlan) : Prop where
  used : ∀ plan ∈ plans, ∃ userType ∈ tableUserTypes columns, PlannedFrom schema userType plan
  planned : ∀ userType ∈ tableUserTypes columns, ∃ plan ∈ plans, PlannedFrom schema userType plan

theorem addPrerequisiteSource {plans new plans'} (ok : addPrerequisite plans new = .ok plans') :
    new ∈ plans' ∧ (∀ plan ∈ plans, plan ∈ plans') ∧ ∀ plan ∈ plans', plan ∈ plans ∨ plan = new := by
  unfold addPrerequisite at ok
  split at ok
  · rename_i existing found
    obtain ⟨same,ok⟩ := iteOk.mp ok
    cases Except.ok.inj ok
    have equal : existing = new := by simpa using same
    exact ⟨equal ▸ List.mem_of_find?_eq_some found,fun _ mem => mem,fun _ mem => .inl mem⟩
  · cases Except.ok.inj ok
    exact ⟨by simp,fun _ mem => List.mem_append_left _ mem,by simp⟩

theorem addPrerequisitesSource (extra : List UserTypePlan) : ∀ {plans plans'},
    extra.foldlM addPrerequisite plans = .ok plans' →
    (∀ plan ∈ plans ++ extra, plan ∈ plans') ∧ ∀ plan ∈ plans', plan ∈ plans ++ extra := by
  induction extra with
  | nil =>
    intro plans plans' ok
    cases Except.ok.inj ok
    simp
  | cons new extra ih =>
    intro plans plans' ok
    obtain ⟨middle,first,rest⟩ := bindOk.mp ok
    obtain ⟨added,kept,origin⟩ := addPrerequisiteSource first
    obtain ⟨all,only⟩ := ih rest
    refine ⟨fun plan mem => ?_,fun plan mem => ?_⟩
    · rcases List.mem_append.mp mem with old | new'
      · exact all plan (List.mem_append_left _ (kept plan old))
      · rcases List.mem_cons.mp new' with rfl | later
        · exact all _ (List.mem_append_left _ added)
        · exact all plan (List.mem_append_right _ later)
    · rcases List.mem_append.mp (only plan mem) with early | later
      · rcases origin plan early with old | rfl
        · exact List.mem_append_left _ old
        · exact List.mem_append_right _ List.mem_cons_self
      · exact List.mem_append_right _ (List.mem_cons_of_mem _ later)

theorem addPrerequisiteNames {plans new plans'} (before : (plans.map UserTypePlan.name).Nodup)
    (ok : addPrerequisite plans new = .ok plans') : (plans'.map UserTypePlan.name).Nodup := by
  unfold addPrerequisite at ok
  split at ok
  · obtain ⟨_,ok⟩ := iteOk.mp ok
    cases Except.ok.inj ok
    exact before
  · rename_i missing
    cases Except.ok.inj ok
    rw [List.map_append,List.map_singleton,List.nodup_append]
    refine ⟨before,List.nodup_singleton _,fun name mem other single => ?_⟩
    obtain ⟨plan,inPlans,rfl⟩ := List.mem_map.mp mem
    rintro same
    exact List.find?_eq_none.mp missing plan inPlans (by simp [same,List.mem_singleton.mp single])

theorem planColumnNames {target : QualifiedName} {state column next} (before : (state.prerequisites.map UserTypePlan.name).Nodup)
    (ok : planColumn target state column = .ok next) : (next.prerequisites.map UserTypePlan.name).Nodup := by
  obtain ⟨_,ok⟩ := iteOk.mp ok
  obtain ⟨_,_,ok⟩ := bindOk.mp ok
  obtain ⟨_,ok⟩ := iteOk.mp ok
  obtain ⟨mapped,_,ok⟩ := bindOk.mp ok
  obtain ⟨prerequisites,added,ok⟩ := bindOk.mp ok
  obtain ⟨_,_,ok⟩ := bindOk.mp ok
  cases Except.ok.inj ok
  exact @foldlMInvariant _ _ _ _ (fun _ plans => (plans.map UserTypePlan.name).Nodup) (fun _ _ _ _ => addPrerequisiteNames) mapped.prerequisites
    [] _ _ before added

theorem planColumnPrerequisites {target : QualifiedName} {past state column next}
    (before : Prerequisites target.schema past state.prerequisites) (ok : planColumn target state column = .ok next) :
    Prerequisites target.schema (past ++ [column]) next.prerequisites := by
  obtain ⟨_,ok⟩ := iteOk.mp ok
  obtain ⟨_,_,ok⟩ := bindOk.mp ok
  obtain ⟨_,ok⟩ := iteOk.mp ok
  obtain ⟨mapped,typeOk,ok⟩ := bindOk.mp ok
  obtain ⟨prerequisites,added,ok⟩ := bindOk.mp ok
  obtain ⟨_,_,ok⟩ := bindOk.mp ok
  cases Except.ok.inj ok
  obtain ⟨⟨sql,extended⟩,innerOk,typeOk⟩ := bindOk.mp typeOk
  cases Except.ok.inj typeOk
  obtain ⟨extra,shape,_,plans⟩ := planTypeExtends column.dataType innerOk
  rw [List.nil_append] at shape
  subst shape
  obtain ⟨all,only⟩ := addPrerequisitesSource extended added
  have split : tableUserTypes (past ++ [column]) = tableUserTypes past ++ typeUserTypes column.dataType := by
    simp [tableUserTypes]
  refine ⟨fun plan mem => ?_,fun userType mem => ?_⟩
  · rw [split]
    rcases List.mem_append.mp (only plan mem) with old | new
    · obtain ⟨userType,inPast,from'⟩ := before.used plan old
      exact ⟨userType,List.mem_append_left _ inPast,from'⟩
    · obtain ⟨index,found⟩ := List.getElem?_of_mem new
      obtain ⟨userType,inTypes,from'⟩ := relatedAt plans.flip found
      exact ⟨userType,List.mem_append_right _ (List.mem_of_getElem? inTypes),from'⟩
  · rw [split] at mem
    rcases List.mem_append.mp mem with old | new
    · obtain ⟨plan,inPlans,from'⟩ := before.planned userType old
      exact ⟨plan,all plan (List.mem_append_left _ inPlans),from'⟩
    · obtain ⟨index,found⟩ := List.getElem?_of_mem new
      obtain ⟨plan,inExtra,from'⟩ := relatedAt plans found
      exact ⟨plan,all plan (List.mem_append_right _ (List.mem_of_getElem? inExtra)),from'⟩

theorem planPrerequisites {source target plan} (ok : planCreateTable source target = .ok plan) :
    Prerequisites target.schema source.columns plan.prerequisites := by
  obtain ⟨_,_,ok⟩ := bindOk.mp ok
  obtain ⟨_,ok⟩ := iteOk.mp ok
  obtain ⟨state,folded,ok⟩ := bindOk.mp ok
  obtain ⟨_,_,ok⟩ := bindOk.mp ok
  cases Except.ok.inj ok
  have start : Prerequisites target.schema [] (⟨[],[],[],[]⟩ : PlanState).prerequisites :=
    ⟨by simp,by simp [tableUserTypes]⟩
  exact @foldlMInvariant _ _ _ _ (fun past (state : PlanState) => Prerequisites target.schema past state.prerequisites)
    (fun _ _ _ _ => planColumnPrerequisites) source.columns [] _ state start folded

theorem planNames {source target plan} (ok : planCreateTable source target = .ok plan) :
    (plan.prerequisites.map UserTypePlan.name).Nodup := by
  obtain ⟨_,_,ok⟩ := bindOk.mp ok
  obtain ⟨_,ok⟩ := iteOk.mp ok
  obtain ⟨state,folded,ok⟩ := bindOk.mp ok
  obtain ⟨_,_,ok⟩ := bindOk.mp ok
  cases Except.ok.inj ok
  exact @foldlMInvariant _ _ _ _ (fun _ (state : PlanState) => (state.prerequisites.map UserTypePlan.name).Nodup)
    (fun _ _ _ _ => planColumnNames) source.columns [] ⟨[],[],[],[]⟩ state List.nodup_nil folded

def Settled (platform : Platform) (plan : UserTypePlan) (store : Store) : Prop :=
  ∃ record, store.managedTypes plan.name = some record ∧
    record.definitionChecksum = platform.sha256 (strBytes plan.createSql)

theorem settledSame {platform : Platform} {plan : UserTypePlan} {store store' : Store}
    (managed : store'.managedTypes = store.managedTypes) (settled : Settled platform plan store) :
    Settled platform plan store' := by
  obtain ⟨record,found,checksum⟩ := settled
  exact ⟨record,managed ▸ found,checksum⟩

structure SameType (name : QualifiedName) (store store' : Store) : Prop where
  definition : store'.types name = store.types name
  managed : store'.managedTypes name = store.managedTypes name

section Loads
variable {platform : Platform} {equal : Operators}

theorem updateManagedSettled {store : Store} {plan : UserTypePlan} {record} {token : Int}
    (found : store.managedTypes plan.name = some record) :
    Settled platform plan (updateManagedType store plan.name (platform.sha256 (strBytes plan.createSql)) token) := by
  simp [Settled,updateManagedType,found,putType]

theorem updateManagedTypes (store : Store) (name : QualifiedName) (checksum : Bytes) (token : Int) :
    (updateManagedType store name checksum token).types = store.types := by
  unfold updateManagedType
  split <;> rfl

theorem updateManagedOther {store : Store} {name other : QualifiedName} {checksum : Bytes} {token : Int}
    (apart : other ≠ name) : (updateManagedType store name checksum token).managedTypes other = store.managedTypes other := by
  unfold updateManagedType
  split
  · rfl
  · simp [putType,apart]

theorem ensureSource {ownership store plan store'} (ok : ensurePrerequisiteType platform ownership store plan = .ok store') :
    Settled platform plan store' ∧ (∀ name, name ≠ plan.name → SameType name store store') ∧
      (Settled platform plan store → store'.types plan.name = store.types plan.name) := by
  obtain ⟨action,classified,ok⟩ := bindOk.mp ok
  unfold classifyPrerequisiteType at classified
  split at classified
  · rename_i unmanaged
    cases Except.ok.inj classified
    cases Except.ok.inj ok
    refine ⟨by simp [Settled,putType],fun name apart => ⟨by simp [putType,apart],by simp [putType,apart]⟩,?_⟩
    rintro ⟨record,found,_⟩
    rw [unmanaged] at found
    contradiction
  · contradiction
  · contradiction
  · rename_i record _ found
    obtain ⟨_,classified⟩ := iteOk.mp classified
    obtain ⟨_,classified⟩ := iteOk.mp classified
    split at classified
    · rename_i different
      cases Except.ok.inj classified
      obtain ⟨reconciled,altered,ok⟩ := bindOk.mp ok
      cases Except.ok.inj ok
      obtain ⟨sameManaged,others⟩ : reconciled.managedTypes = store.managedTypes ∧
          ∀ name, name ≠ plan.name → reconciled.types name = store.types name := by
        unfold reconcilePrerequisiteType at altered
        split at altered
        · contradiction
        · obtain ⟨_,_,altered⟩ := bindOk.mp altered
          obtain ⟨_,_,altered⟩ := bindOk.mp altered
          obtain ⟨_,_,altered⟩ := bindOk.mp altered
          cases Except.ok.inj altered
          exact ⟨rfl,fun name apart => by simp [apart]⟩
      refine ⟨updateManagedSettled (sameManaged ▸ found),fun name apart => ⟨?_,?_⟩,?_⟩
      · rw [updateManagedTypes,others name apart]
      · rw [updateManagedOther apart,sameManaged]
      · rintro ⟨other,foundOther,sameChecksum⟩
        rw [found] at foundOther
        cases Option.some.inj foundOther
        exact absurd sameChecksum different
    · cases Except.ok.inj classified
      cases Except.ok.inj ok
      refine ⟨updateManagedSettled found,fun name apart => ⟨?_,updateManagedOther apart⟩,fun _ => ?_⟩
      · rw [updateManagedTypes]
      · rw [updateManagedTypes]

/- What keeps the planned type from being ensured: the name is taken by something unmanaged, the managed type is gone, it
belongs to another pipeline or a later lease, or it is another type and no enum that evolves into the planned one. -/
def Refuses (platform : Platform) (ownership : SnapshotOwnership) (store : Store) (plan : UserTypePlan) : Prop :=
  match store.managedTypes plan.name with
  | none => typeExists store plan.name
  | some record => typeExists store plan.name = false ∨ record.pipelineId ≠ ownership.fence.pipelineId ∨
      ownership.fence.fencingToken < record.fencingToken ∨
      (record.definitionChecksum ≠ platform.sha256 (strBytes plan.createSql) ∧
        ∀ existing desired, store.types plan.name = some (.enum existing) → plan.definition = .enum desired →
          ∃ reason, planEnumEvolution existing desired = .error reason)

theorem ensureNotRefused {ownership store plan store'} (ok : ensurePrerequisiteType platform ownership store plan = .ok store') :
    ¬ Refuses platform ownership store plan := by
  obtain ⟨action,classified,ok⟩ := bindOk.mp ok
  unfold Refuses
  unfold classifyPrerequisiteType at classified
  split at classified
  · rename_i absent unmanaged
    simp [unmanaged,absent]
  · contradiction
  · contradiction
  · rename_i record present managed
    rw [managed]
    obtain ⟨owner,classified⟩ := iteOk.mp classified
    obtain ⟨fenced,classified⟩ := iteOk.mp classified
    rintro (absent | other | newer | ⟨changed,unreachable⟩)
    · rw [present] at absent
      contradiction
    · exact owner other
    · exact fenced newer
    · rw [if_pos changed] at classified
      cases Except.ok.inj classified
      obtain ⟨_,altered,_⟩ := bindOk.mp ok
      unfold reconcilePrerequisiteType at altered
      split at altered
      · contradiction
      · rename_i desired planned
        obtain ⟨existing,loaded,altered⟩ := bindOk.mp altered
        obtain ⟨_,evolved,_⟩ := bindOk.mp altered
        unfold loadEnumLabels at loaded
        split at loaded <;> try contradiction
        rename_i same
        cases Except.ok.inj loaded
        obtain ⟨reason,refused⟩ := unreachable existing desired same planned
        rw [refused] at evolved
        contradiction

theorem ensureKeepsRefusal {ownership : SnapshotOwnership} {first plan : UserTypePlan} {store store' : Store}
    (ok : ensurePrerequisiteType platform ownership store first = .ok store') (apart : plan.name ≠ first.name) :
    Refuses platform ownership store' plan ↔ Refuses platform ownership store plan := by
  obtain ⟨definition,managed⟩ := (ensureSource ok).2.1 plan.name apart
  have oid := (Transactions.prerequisiteReshaped ok).oids plan.name
  have relation : (store'.relations plan.name).isSome = (store.relations plan.name).isSome := by
    simpa [relationOid] using congrArg Option.isSome oid
  have present : typeExists store' plan.name = typeExists store plan.name := by
    unfold typeExists
    rw [definition,relation]
  unfold Refuses
  rw [managed,present,definition]

theorem ensureAllRefused {ownership} {plan : UserTypePlan} (plans : List UserTypePlan)
    (names : (plans.map UserTypePlan.name).Nodup) (mem : plan ∈ plans) : ∀ {store store'},
    Refuses platform ownership store plan → plans.foldlM (ensurePrerequisiteType platform ownership) store ≠ .ok store' := by
  induction plans with
  | nil => exact absurd mem List.not_mem_nil
  | cons first plans ih =>
    intro store store' refused ok
    obtain ⟨middle,here,rest⟩ := bindOk.mp ok
    obtain ⟨fresh,names⟩ := List.nodup_cons.mp names
    rcases List.mem_cons.mp mem with rfl | later
    · exact ensureNotRefused here refused
    · have apart : plan.name ≠ first.name := fun same => fresh (same ▸ List.mem_map_of_mem later)
      exact ih names later ((ensureKeepsRefusal here apart).mpr refused) rest

def LabelsDistinct (types : QualifiedName → Option UserTypeDefinition) : Prop :=
  ∀ name labels, types name = some (.enum labels) → labels.Nodup

theorem ensureAccepts {ownership store plan} (distinct : LabelsDistinct store.types)
    (planned : ∀ labels, plan.definition = .enum labels → labels.Nodup)
    (accepted : ¬ Refuses platform ownership store plan) :
    ∃ store', ensurePrerequisiteType platform ownership store plan = .ok store' ∧ LabelsDistinct store'.types := by
  have put : LabelsDistinct (Function.update store.types plan.name (some plan.definition)) := by
    intro name labels found
    by_cases same : name = plan.name
    · subst same
      rw [Function.update_self] at found
      exact planned labels (Option.some.inj found)
    · rw [Function.update_of_ne same] at found
      exact distinct name labels found
  unfold Refuses at accepted
  cases managed : store.managedTypes plan.name with
  | none =>
    rw [managed] at accepted
    have absent : typeExists store plan.name = false := by simpa using accepted
    exact ⟨_,bindOk.mpr ⟨.create,by rw [absent,managed]; rfl,rfl⟩,put⟩
  | some record =>
    rw [managed] at accepted
    simp only [not_or,Bool.not_eq_false] at accepted
    obtain ⟨present,owner,fenced,evolves⟩ := accepted
    have action (next : ManagedTypeAction) (chosen : (if record.definitionChecksum ≠ platform.sha256 (strBytes plan.createSql)
        then Except.ok ManagedTypeAction.reconcile else .ok .reuse : Except SnapshotTargetError ManagedTypeAction) = .ok next) :
        classifyPrerequisiteType plan.name (typeExists store plan.name) (store.managedTypes plan.name)
          ownership.fence.pipelineId ownership.fence.fencingToken (platform.sha256 (strBytes plan.createSql)) = .ok next := by
      rw [present,managed]
      exact iteOk.mpr ⟨owner,iteOk.mpr ⟨fenced,chosen⟩⟩
    by_cases same : record.definitionChecksum = platform.sha256 (strBytes plan.createSql)
    · refine ⟨_,bindOk.mpr ⟨.reuse,action _ (if_neg (not_not.mpr same)),rfl⟩,?_⟩
      rw [updateManagedTypes]
      exact distinct
    · obtain ⟨existing,desired,found,definition,evolves⟩ : ∃ existing desired, store.types plan.name = some (.enum existing) ∧
          plan.definition = .enum desired ∧ ∀ reason, planEnumEvolution existing desired ≠ .error reason := by
        by_contra none'
        refine evolves ⟨same,fun existing desired found definition => ?_⟩
        by_contra free
        exact none' ⟨existing,desired,found,definition,fun reason refused => free ⟨reason,refused⟩⟩
      rcases EnumEvolution.evolutionCases (distinct _ _ found) (planned desired definition) with
        ⟨steps,plans,ran,_⟩ | ⟨_,_,refused⟩
      · have reconciled : reconcilePrerequisiteType store plan =
            .ok {store with types := Function.update store.types plan.name (some (.enum desired))} := by
          unfold reconcilePrerequisiteType
          rw [definition]
          simp only [loadEnumLabels,found]
          refine bindOk.mpr ⟨existing,rfl,bindOk.mpr ⟨steps,by rw [plans]; rfl,bindOk.mpr ⟨desired,ran,rfl⟩⟩⟩
        refine ⟨_,bindOk.mpr ⟨.reconcile,action _ (if_pos same),bindOk.mpr ⟨_,reconciled,rfl⟩⟩,?_⟩
        rw [updateManagedTypes,← definition]
        exact put
      · exact absurd refused (evolves _)

theorem ensureAllIff {ownership} (plans : List UserTypePlan) (names : (plans.map UserTypePlan.name).Nodup)
    (planned : ∀ plan ∈ plans, ∀ labels, plan.definition = .enum labels → labels.Nodup) : ∀ {store : Store},
    LabelsDistinct store.types →
    ((∃ store', plans.foldlM (ensurePrerequisiteType platform ownership) store = .ok store') ↔
      ∀ plan ∈ plans, ¬ Refuses platform ownership store plan) := by
  intro store distinct
  constructor
  · rintro ⟨store',ok⟩ plan mem refused
    exact ensureAllRefused plans names mem refused ok
  · induction plans generalizing store with
    | nil => exact fun _ => ⟨store,rfl⟩
    | cons first plans ih =>
      intro accepted
      obtain ⟨here,later⟩ := List.forall_mem_cons.mp accepted
      obtain ⟨plannedFirst,planned⟩ := List.forall_mem_cons.mp planned
      obtain ⟨fresh,names⟩ := List.nodup_cons.mp names
      obtain ⟨middle,ok,kept⟩ := ensureAccepts distinct plannedFirst here
      have rest : ∀ plan ∈ plans, ¬ Refuses platform ownership middle plan := by
        intro plan mem refused
        have apart : plan.name ≠ first.name := fun same => fresh (same ▸ List.mem_map_of_mem mem)
        exact later plan mem ((ensureKeepsRefusal ok apart).mp refused)
      obtain ⟨store',ok'⟩ := ih names planned kept rest
      exact ⟨store',bindOk.mpr ⟨middle,ok,ok'⟩⟩

theorem ensureAllSource {ownership} (plans : List UserTypePlan) {plan : UserTypePlan}
    (same : ∀ other ∈ plans, other.name = plan.name → other = plan) : ∀ {store store'},
    plans.foldlM (ensurePrerequisiteType platform ownership) store = .ok store' →
    (Settled platform plan store → Settled platform plan store' ∧ store'.types plan.name = store.types plan.name) ∧
      (plan ∈ plans → Settled platform plan store') := by
  induction plans with
  | nil =>
    intro store store' ok
    cases Except.ok.inj ok
    exact ⟨fun settled => ⟨settled,rfl⟩,by simp⟩
  | cons first plans ih =>
    intro store store' ok
    obtain ⟨middle,here,rest⟩ := bindOk.mp ok
    obtain ⟨settledFirst,others,kept⟩ := ensureSource here
    obtain ⟨later,listed⟩ := ih (fun other mem => same other (List.mem_cons_of_mem _ mem)) rest
    have step : Settled platform plan store →
        Settled platform plan middle ∧ middle.types plan.name = store.types plan.name := by
      intro settled
      by_cases name : first.name = plan.name
      · cases same first List.mem_cons_self name
        exact ⟨settledFirst,kept settled⟩
      · obtain ⟨definition,managed⟩ := others plan.name (Ne.symm name)
        obtain ⟨record,found,checksum⟩ := settled
        exact ⟨⟨record,managed.trans found,checksum⟩,definition⟩
    refine ⟨fun settled => ?_,fun mem => ?_⟩
    · obtain ⟨settledMiddle,sameMiddle⟩ := step settled
      obtain ⟨settledLast,sameLast⟩ := later settledMiddle
      exact ⟨settledLast,sameLast.trans sameMiddle⟩
    · rcases List.mem_cons.mp mem with rfl | mem
      · exact (later settledFirst).1
      · exact listed mem

theorem clearedTypes {store cleared : Store} {plan ownership} (clearing : Cleared store plan ownership cleared) :
    cleared.types = store.types ∧ cleared.managedTypes = store.managedTypes := by
  cases clearing with
  | kept => exact ⟨rfl,rfl⟩
  | removed _ removing =>
    obtain ⟨dropped,dropping,deleting⟩ := bindOk.mp removing
    obtain ⟨_,_,deleting⟩ := bindOk.mp deleting
    cases Except.ok.inj deleting
    unfold dropTable at dropping
    split at dropping <;> try contradiction
    cases Except.ok.inj dropping
    exact ⟨rfl,rfl⟩

theorem snapshotApplyTypes {target plan ownership copied target'}
    (ok : snapshotApply platform equal target plan ownership copied = .ok target') :
    ∃ before after, before.types = target.store.types ∧ before.managedTypes = target.store.managedTypes ∧
      plan.shadow.prerequisites.foldlM (ensurePrerequisiteType platform ownership) before = .ok after ∧
      target'.store.types = after.types ∧ target'.store.managedTypes = after.managedTypes := by
  obtain ⟨_,cleared,ensured,built,created,steps⟩ := snapshotApplySource ok
  obtain ⟨rows,copied,_,copy,rfl⟩ := steps.copying
  have first := clearedTypes steps.clearing
  have second : built.types = ensured.types ∧ built.managedTypes = ensured.managedTypes := by
    obtain ⟨_,building⟩ := iteOk.mp steps.building
    obtain ⟨_,building⟩ := iteOk.mp building
    cases Except.ok.inj building
    exact ⟨rfl,rfl⟩
  have third : created.types = built.types ∧ created.managedTypes = built.managedTypes := by
    obtain ⟨_,_,registering⟩ := bindOk.mp steps.registering
    split at registering
    · contradiction
    obtain ⟨_,registering⟩ := iteOk.mp registering
    cases Except.ok.inj registering
    exact ⟨rfl,rfl⟩
  have last : copied.types = created.types ∧ copied.managedTypes = created.managedTypes := by
    unfold copyShadow at copy
    split at copy
    · contradiction
    obtain ⟨_,copy⟩ := iteOk.mp copy
    obtain ⟨_,copy⟩ := iteOk.mp copy
    obtain ⟨_,copy⟩ := iteOk.mp copy
    cases Except.ok.inj copy
    exact ⟨rfl,rfl⟩
  exact ⟨cleared,ensured,first.1,first.2,steps.ensuring,last.1.trans (third.1.trans second.1),
    last.2.trans (third.2.trans second.2)⟩

structure TableLoad where
  source : TableSchema
  target : QualifiedName
  shadow : QualifiedName
  ownership : SnapshotOwnership
  rows : List Row
  deriving DecidableEq, Repr

variable (platform equal) in
def load (target : Target) (table : TableLoad) : Except SnapshotTargetError Target := do
  let plan ← planSnapshotTarget table.source table.target table.shadow
  snapshotApply platform equal target plan table.ownership (some table.rows)

variable (platform equal) in
def loadAll (target : Target) (tables : List TableLoad) : Except SnapshotTargetError Target :=
  tables.foldlM (load platform equal) target

def TableLoad.userTypes (table : TableLoad) : List PgType := tableUserTypes table.source.columns

def TableLoad.targetType (table : TableLoad) (userType : PgType) : String × String :=
  (table.target.schema,userType.name.name)

-- The tables are read from one catalog, where a schema and a name belong to one type.
def OneCatalog (tables : List TableLoad) : Prop :=
  ∀ table ∈ tables, ∀ other ∈ tables, ∀ userType ∈ table.userTypes, ∀ otherType ∈ other.userTypes,
    userType.name = otherType.name → userType.kind = otherType.kind

def SharedAreSame (tables : List TableLoad) : Prop :=
  ∀ table ∈ tables, ∀ other ∈ tables, ∀ userType ∈ table.userTypes, ∀ otherType ∈ other.userTypes,
    table.targetType userType = other.targetType otherType →
    userType.name = otherType.name ∧ userType.kind = otherType.kind

mutual
theorem kindUserType : (kind : PgTypeKind) → ∀ userType ∈ kindUserTypes kind, isUserType userType.kind := by
  intro kind userType mem
  cases kind with
  | domain base _ => exact usedIsUser base userType mem
  | array element => exact usedIsUser element userType mem
  | _ => exact absurd mem List.not_mem_nil

theorem usedIsUser : (dataType : PgType) → ∀ userType ∈ typeUserTypes dataType, isUserType userType.kind
  | ⟨_,_,kind⟩ => fun userType mem => by
    rcases List.mem_append.mp mem with inner | own
    · exact kindUserType kind userType inner
    · split at own
      · rename_i user
        rwa [List.mem_singleton.mp own]
      · contradiction
end

theorem plannedLabels {columns : List ColumnSchema} {schema userType plan} (used : userType ∈ tableUserTypes columns)
    (planned : PlannedFrom schema userType plan) : ∀ labels, plan.definition = .enum labels → labels.Nodup := by
  obtain ⟨column,_,inColumn⟩ := List.mem_flatMap.mp used
  have user := usedIsUser column.dataType userType inColumn
  obtain ⟨_,_,sql,inner,ok⟩ := planned
  obtain ⟨oid,name,kind⟩ := userType
  simp only [planTypeInner] at ok
  intro labels definition
  cases kind with
  | enum planned =>
    simp only [planKindInner] at ok
    obtain ⟨_,ok⟩ := iteOk.mp ok
    obtain ⟨unique,ok⟩ := iteOk.mp ok
    obtain ⟨_,_,ok⟩ := bindOk.mp ok
    obtain ⟨_,_,ok⟩ := bindOk.mp ok
    obtain ⟨_,_,ok⟩ := bindOk.mp ok
    obtain ⟨_,last⟩ := List.append_inj' (Prod.mk.inj (Except.ok.inj ok)).2 rfl
    rw [← List.cons.inj last |>.1] at definition
    cases definition
    exact not_not.mp unique
  | domain base constraints =>
    simp only [planKindInner] at ok
    obtain ⟨_,ok⟩ := iteOk.mp ok
    obtain ⟨_,_,ok⟩ := bindOk.mp ok
    obtain ⟨_,_,ok⟩ := bindOk.mp ok
    obtain ⟨_,_,ok⟩ := bindOk.mp ok
    obtain ⟨_,last⟩ := List.append_inj' (Prod.mk.inj (Except.ok.inj ok)).2 rfl
    rw [← List.cons.inj last |>.1] at definition
    contradiction
  | _ => contradiction

/- The table uses a type whose target name is that of a type from another source schema, in it or in an earlier table. -/
def Clashes (past : List TableLoad) (table : TableLoad) : Prop :=
  ∃ other ∈ past ++ [table], ∃ userType ∈ table.userTypes, ∃ otherType ∈ other.userTypes,
    table.targetType userType = other.targetType otherType ∧ userType.name.schema ≠ otherType.name.schema

def PlansConflict (table : TableLoad) : Prop :=
  ∃ userType ∈ table.userTypes, ∃ otherType ∈ table.userTypes, ∃ plan other,
    PlannedFrom table.target.schema userType plan ∧ PlannedFrom table.target.schema otherType other ∧
      plan.name = other.name ∧ plan ≠ other

variable (platform) in
def Refused (store : Store) (table : TableLoad) : Prop :=
  PlansConflict table ∨ ∃ userType ∈ table.userTypes, ∃ plan, PlannedFrom table.target.schema userType plan ∧
    ∀ planned cleared, planSnapshotTarget table.source table.target table.shadow = .ok planned →
      Cleared store planned table.ownership cleared → Refuses platform table.ownership cleared plan

variable (platform equal) in
/- Every load of the run whose types clash with those of the tables so far is refused. -/
def Guarded (start : Target) (tables : List TableLoad) : Prop :=
  ∀ past table rest, tables = past ++ table :: rest → ∀ before, loadAll platform equal start past = .ok before →
    Clashes past table → Refused platform before.store table

/- After the load of the table, types that share a target type are one source type, and the load has left those of the
earlier tables alone. -/
structure Identifies (past : List TableLoad) (table : TableLoad) (before after : Target) : Prop where
  shared : SharedAreSame (past ++ [table])
  kept : ∀ earlier ∈ past, ∀ userType ∈ earlier.userTypes, ∀ name : QualifiedName,
    (name.schema,name.name) = earlier.targetType userType → after.store.types name = before.store.types name

instance (tables : List TableLoad) : Decidable (OneCatalog tables) := by unfold OneCatalog; infer_instance

instance (past : List TableLoad) (table : TableLoad) : Decidable (Clashes past table) := by unfold Clashes; infer_instance

theorem sharedOfCalm {past : List TableLoad} {table : TableLoad} (catalog : OneCatalog (past ++ [table]))
    (shared : SharedAreSame past) (calm : ¬ Clashes past table) : SharedAreSame (past ++ [table]) := by
  have last : table ∈ past ++ [table] := List.mem_append_right _ (List.mem_singleton_self _)
  have own : ∀ other ∈ past ++ [table], ∀ userType ∈ table.userTypes, ∀ otherType ∈ other.userTypes,
      table.targetType userType = other.targetType otherType →
      userType.name = otherType.name ∧ userType.kind = otherType.kind := by
    intro other mem userType used otherType usedOther same
    have sameSchema : userType.name.schema = otherType.name.schema := by
      by_contra apart
      exact calm ⟨other,mem,userType,used,otherType,usedOther,same,apart⟩
    have sameName : userType.name = otherType.name := by
      have text := (Prod.mk.inj same).2
      cases left : userType.name
      cases right : otherType.name
      simp_all
    exact ⟨sameName,catalog table last other mem userType used otherType usedOther sameName⟩
  intro one mem two memTwo userType used otherType usedOther same
  rcases List.mem_append.mp mem with old | new
  · rcases List.mem_append.mp memTwo with old' | new'
    · exact shared one old two old' userType used otherType usedOther same
    · cases List.mem_singleton.mp new'
      obtain ⟨name,kind⟩ := own one mem otherType usedOther userType used same.symm
      exact ⟨name.symm,kind.symm⟩
  · cases List.mem_singleton.mp new
    exact own two memTwo userType used otherType usedOther same

theorem planTargetSource {source target shadow plan} (ok : planSnapshotTarget source target shadow = .ok plan) :
    target.schema = shadow.schema ∧ Prerequisites shadow.schema source.columns plan.shadow.prerequisites ∧
      (plan.shadow.prerequisites.map UserTypePlan.name).Nodup := by
  obtain ⟨_,ok⟩ := iteOk.mp ok
  obtain ⟨schema,ok⟩ := iteOk.mp ok
  obtain ⟨created,creation,ok⟩ := bindOk.mp ok
  obtain ⟨_,_,ok⟩ := bindOk.mp ok
  obtain ⟨_,_,ok⟩ := bindOk.mp ok
  cases Except.ok.inj ok
  exact ⟨by simpa using schema,planPrerequisites (mapErrorOk.mp creation),planNames (mapErrorOk.mp creation)⟩

theorem plannedSame {schema left right leftPlan rightPlan} (name : left.name = right.name) (kind : left.kind = right.kind)
    (leftFrom : PlannedFrom schema left leftPlan) (rightFrom : PlannedFrom schema right rightPlan) :
    leftPlan = rightPlan := by
  obtain ⟨_,_,leftSql,leftInner,leftOk⟩ := leftFrom
  obtain ⟨_,_,rightSql,rightInner,rightOk⟩ := rightFrom
  obtain ⟨_,leftName,leftKind⟩ := left
  obtain ⟨_,rightName,rightKind⟩ := right
  cases name
  cases kind
  simp only [planTypeInner] at leftOk rightOk
  rw [leftOk] at rightOk
  have same := (Prod.mk.inj (Except.ok.inj rightOk)).2
  exact (List.append_inj' same rfl).2 |> List.cons.inj |>.1

theorem loadStep {tables : List TableLoad} (shared : SharedAreSame tables) {table other : TableLoad} (mem : table ∈ tables)
    (memOther : other ∈ tables) {userType plan} (used : userType ∈ table.userTypes)
    (planned : PlannedFrom table.target.schema userType plan) {target target'}
    (ok : load platform equal target other = .ok target') :
    (Settled platform plan target.store → Settled platform plan target'.store ∧
      target'.store.types plan.name = target.store.types plan.name) ∧
    (other = table → Settled platform plan target'.store) := by
  obtain ⟨otherPlan,planOk,applied⟩ := bindOk.mp ok
  obtain ⟨before,after,sameTypes,sameManaged,ensuring,lastTypes,lastManaged⟩ := snapshotApplyTypes applied
  obtain ⟨schema,prerequisites,_⟩ := planTargetSource planOk
  have unique : ∀ candidate ∈ otherPlan.shadow.prerequisites, candidate.name = plan.name → candidate = plan := by
    intro candidate inPlans sameName
    obtain ⟨otherType,usedOther,from'⟩ := prerequisites.used candidate inPlans
    have sharedName : table.targetType userType = other.targetType otherType := by
      have left := planned.1
      have right := from'.1
      rw [sameName,left] at right
      have names := from'.2.1
      rw [sameName,planned.2.1] at names
      exact Prod.ext (right.trans schema.symm) names
    obtain ⟨name,kind⟩ := shared table mem other memOther userType used otherType usedOther sharedName
    have sameSchema : table.target.schema = other.shadow.schema := (Prod.mk.inj sharedName).1.trans schema
    rw [sameSchema] at planned
    exact (plannedSame name kind planned from').symm
  obtain ⟨kept,listed⟩ := ensureAllSource otherPlan.shadow.prerequisites unique ensuring
  refine ⟨fun settled => ?_,fun same => ?_⟩
  · obtain ⟨settledAfter,definition⟩ := kept (settledSame sameManaged settled)
    refine ⟨settledSame lastManaged settledAfter,?_⟩
    rw [lastTypes,definition,sameTypes]
  · subst same
    obtain ⟨candidate,inPlans,from'⟩ := prerequisites.planned userType used
    rw [schema] at planned
    cases plannedSame rfl rfl planned from'
    exact settledSame lastManaged (listed inPlans)

theorem plannedListed {table : TableLoad} {plan} (planOk : planSnapshotTarget table.source table.target table.shadow = .ok plan)
    {userType own} (used : userType ∈ table.userTypes) (planned : PlannedFrom table.target.schema userType own) :
    own ∈ plan.shadow.prerequisites := by
  obtain ⟨schema,prerequisites,_⟩ := planTargetSource planOk
  obtain ⟨listed,mem,from'⟩ := prerequisites.planned userType used
  rw [schema] at planned
  cases plannedSame rfl rfl planned from'
  exact mem

theorem refusedFails {target target' : Target} {table : TableLoad} (refused : Refused platform target.store table) :
    load platform equal target table ≠ .ok target' := by
  intro ok
  obtain ⟨plan,planOk,applied⟩ := bindOk.mp ok
  have names := (planTargetSource planOk).2.2
  rcases refused with ⟨userType,used,otherType,usedOther,one,two,plannedOne,plannedTwo,same,apart⟩ |
    ⟨userType,used,own,planned,refused⟩
  · have memOne := plannedListed planOk used plannedOne
    have memTwo := plannedListed planOk usedOther plannedTwo
    exact apart (List.inj_on_of_nodup_map names memOne memTwo same)
  · obtain ⟨_,cleared,_,_,_,steps⟩ := snapshotApplySource applied
    exact ensureAllRefused plan.shadow.prerequisites names (plannedListed planOk used planned)
      (refused plan cleared planOk steps.clearing) steps.ensuring

structure LoadedSoFar (platform : Platform) (past : List TableLoad) (target : Target) : Prop where
  shared : SharedAreSame past
  planned : ∀ table ∈ past, ∀ userType ∈ table.userTypes, ∃ plan, PlannedFrom table.target.schema userType plan
  settled : ∀ table ∈ past, ∀ userType ∈ table.userTypes, ∀ plan, PlannedFrom table.target.schema userType plan →
    Settled platform plan target.store

theorem loadIdentifies {past : List TableLoad} {table : TableLoad} {before after : Target}
    (loaded : LoadedSoFar platform past before) (catalog : OneCatalog (past ++ [table])) (calm : ¬ Clashes past table)
    (ok : load platform equal before table = .ok after) :
    LoadedSoFar platform (past ++ [table]) after ∧ Identifies past table before after := by
  have shared := sharedOfCalm catalog loaded.shared calm
  have last : table ∈ past ++ [table] := List.mem_append_right _ (List.mem_singleton_self _)
  obtain ⟨plan,planOk,_⟩ := bindOk.mp ok
  obtain ⟨schema,prerequisites,_⟩ := planTargetSource planOk
  refine ⟨⟨shared,?_,?_⟩,shared,?_⟩
  · intro earlier mem userType used
    rcases List.mem_append.mp mem with old | new
    · exact loaded.planned earlier old userType used
    · cases List.mem_singleton.mp new
      obtain ⟨own,_,planned⟩ := prerequisites.planned userType used
      exact ⟨own,schema ▸ planned⟩
  · intro earlier mem userType used own planned
    have step := loadStep shared mem last used planned ok
    rcases List.mem_append.mp mem with old | new
    · exact (step.1 (loaded.settled earlier old userType used own planned)).1
    · exact step.2 (List.mem_singleton.mp new).symm
  · intro earlier mem userType used name named
    obtain ⟨own,planned⟩ := loaded.planned earlier mem userType used
    have step := (loadStep shared (List.mem_append_left _ mem) last used planned ok).1
      (loaded.settled earlier mem userType used own planned)
    have sameName : name = own.name := by
      obtain ⟨sameSchema,sameText⟩ := Prod.mk.inj named
      have left := sameSchema.trans planned.1.symm
      have right := sameText.trans planned.2.1.symm
      cases name
      cases target : own.name
      simp_all
    rw [sameName]
    exact step.2

theorem catalogUpTo {tables past rest : List TableLoad} {table : TableLoad} (catalog : OneCatalog tables)
    (split : tables = past ++ table :: rest) : OneCatalog (past ++ [table]) := by
  have inside : ∀ other ∈ past ++ [table], other ∈ tables := by
    intro other mem
    rw [split,← List.singleton_append,← List.append_assoc]
    exact List.mem_append_left _ mem
  exact fun one mem two mem' => catalog one (inside one mem) two (inside two mem')

theorem loadedSoFar {start : Target} {tables : List TableLoad} (catalog : OneCatalog tables)
    (guarded : Guarded platform equal start tables) (past : List TableLoad) : ∀ rest, tables = past ++ rest →
    ∀ {target}, loadAll platform equal start past = .ok target → LoadedSoFar platform past target := by
  induction past using List.reverseRecOn with
  | nil =>
    intro _ _ _ _
    exact ⟨fun _ mem => absurd mem List.not_mem_nil,fun _ mem => absurd mem List.not_mem_nil,
      fun _ mem => absurd mem List.not_mem_nil⟩
  | append_singleton past table ih =>
    intro rest split target ok
    rw [List.append_assoc,List.singleton_append] at split
    unfold loadAll at ok
    rw [List.foldlM_append] at ok
    obtain ⟨before,earlier,ok⟩ := bindOk.mp ok
    obtain ⟨after,here,nothing⟩ := bindOk.mp ok
    cases Except.ok.inj nothing
    have calm : ¬ Clashes past table := fun clash => refusedFails (guarded past table rest split before earlier clash) here
    exact (loadIdentifies (ih _ split earlier) (catalogUpTo catalog split) calm here).1

/-- For tables of one catalog, in any order of loads: when every load whose types clash with those of the tables so far is
refused, then after each load that succeeds the types that share a target type are one source type, and the types of the
earlier tables are as they were. The types of a planned table are ensured exactly when none of them is refused. -/
theorem typesIdentifiedWhen {start : Target} {tables : List TableLoad} (catalog : OneCatalog tables) :
    (Guarded platform equal start tables → ∀ past table rest, tables = past ++ table :: rest → ∀ before after,
      loadAll platform equal start past = .ok before → load platform equal before table = .ok after →
      Identifies past table before after) ∧
    ∀ (table : TableLoad) plan cleared, planSnapshotTarget table.source table.target table.shadow = .ok plan →
      LabelsDistinct cleared.types →
      ((∃ ensured, plan.shadow.prerequisites.foldlM (ensurePrerequisiteType platform table.ownership) cleared = .ok ensured) ↔
        ∀ userType ∈ table.userTypes, ∀ own, PlannedFrom table.target.schema userType own →
          ¬ Refuses platform table.ownership cleared own) := by
  constructor
  · intro guarded past table rest split before after earlier here
    have calm : ¬ Clashes past table := fun clash => refusedFails (guarded past table rest split before earlier clash) here
    exact (loadIdentifies (loadedSoFar catalog guarded past _ split earlier) (catalogUpTo catalog split) calm here).2
  · intro table plan cleared planOk distinct
    obtain ⟨schema,prerequisites,names⟩ := planTargetSource planOk
    have labels : ∀ own ∈ plan.shadow.prerequisites, ∀ labels, own.definition = .enum labels → labels.Nodup := by
      intro own mem
      obtain ⟨userType,used,planned⟩ := prerequisites.used own mem
      exact plannedLabels used planned
    rw [ensureAllIff plan.shadow.prerequisites names labels distinct]
    constructor
    · intro accepted userType used own planned
      exact accepted own (plannedListed planOk used planned)
    · intro accepted own mem
      obtain ⟨userType,used,planned⟩ := prerequisites.used own mem
      exact accepted userType used own (schema ▸ planned)

end Loads

section Sample
open Fencing Resume

def idColumn : ColumnSchema :=
  ⟨1,"id",⟨20,⟨"pg_catalog","int8",pgCatalogValid,int8Valid⟩,.int8⟩,false,some 1,.none,.none,none⟩

def kindColumn (status : PgType) : ColumnSchema := ⟨2,"kind",status,true,none,.none,.none,none⟩

def publicStatus : PgType := ⟨16400,⟨"public","status",publicValid,statusValid⟩,.enum ["new"]⟩

def legacyStatus : PgType := ⟨16410,⟨"legacy","status",legacyValid,statusValid⟩,.enum ["new","done"]⟩

def sampleFence : PipelineFence := ⟨7,1,1⟩

def orders : TableLoad :=
  ⟨⟨16501,1,⟨"public","orders",publicValid,ordersValid⟩,.ordinary,.default,[idColumn,kindColumn publicStatus],[],[]⟩,
    ⟨"dw","orders",dwValid,ordersValid⟩,⟨"dw","orders_shadow",dwValid,ordersShadowValid⟩,⟨sampleFence,1,"orders v1"⟩,[]⟩

def returns (status : PgType) : TableLoad :=
  ⟨⟨16502,1,⟨"public","returns",publicValid,returnsValid⟩,.ordinary,.default,[idColumn,kindColumn status],[],[]⟩,
    ⟨"dw","returns",dwValid,returnsValid⟩,⟨"dw","returns_shadow",dwValid,returnsShadowValid⟩,⟨sampleFence,1,"returns v1"⟩,[]⟩

def TableLoad.activationTable (table : TableLoad) : SnapshotActivationTable :=
  ⟨table.target,table.shadow,table.source.relationId,table.source.generation,table.ownership.schemaFingerprint⟩

def registered (tables : List TableLoad) : Target :=
  run sha256Platform textOperators emptyTarget [.activatePipelineFence sampleFence,
    .beginSnapshotGroup ⟨sampleFence,1,tables.map TableLoad.activationTable,[boundary]⟩]

def sharedStatus : QualifiedName := ⟨"dw","status",dwValid,statusValid⟩

theorem sharedStatusRun : ((loadAll sha256Platform textOperators (registered [orders,returns legacyStatus]) [orders]).toOption.bind
    fun loaded => (loadAll sha256Platform textOperators loaded [returns legacyStatus]).toOption.bind fun final =>
      some (loaded.store.types sharedStatus,final.store.types sharedStatus)) =
    some (some (.enum ["new"]),some (.enum ["new","done"])) := by decide +kernel

/- Two types named status, of the schemas public and legacy, become one type of dw, and the second load adds a label. -/
theorem statusLabelsAdded : ∃ loaded final,
    loadAll sha256Platform textOperators (registered [orders,returns legacyStatus]) [orders] = .ok loaded ∧
    loadAll sha256Platform textOperators loaded [returns legacyStatus] = .ok final ∧
    loaded.store.types sharedStatus = some (.enum ["new"]) ∧ final.store.types sharedStatus = some (.enum ["new","done"]) ∧
    publicStatus ∈ orders.userTypes ∧ legacyStatus ∈ (returns legacyStatus).userTypes ∧
    orders.targetType publicStatus = (returns legacyStatus).targetType legacyStatus ∧ publicStatus.name ≠ legacyStatus.name ∧
    ¬ Identifies [orders] (returns legacyStatus) loaded final := by
  have sample := sharedStatusRun
  simp only [Option.bind_eq_some_iff,toOptionSome,Option.some.injEq,Prod.mk.injEq] at sample
  obtain ⟨loaded,first,final,second,before,after⟩ := sample
  refine ⟨loaded,final,first,second,before,after,by decide,by decide,by decide,by decide,fun identifies => ?_⟩
  have kept := identifies.kept orders (List.mem_singleton_self _) publicStatus (by decide) sharedStatus rfl
  rw [before,after] at kept
  exact absurd kept (by decide)

theorem refundsValid : IdentifierValid "refunds" := by decide

theorem refundsShadowValid : IdentifierValid "refunds_shadow" := by decide

def refunds : TableLoad :=
  ⟨⟨16503,1,⟨"public","refunds",publicValid,refundsValid⟩,.ordinary,.default,[idColumn,kindColumn legacyStatus],[],[]⟩,
    ⟨"dw","refunds",dwValid,refundsValid⟩,⟨"dw","refunds_shadow",dwValid,refundsShadowValid⟩,⟨sampleFence,1,"refunds v1"⟩,[]⟩

def narrowing : List TableLoad := [returns legacyStatus,refunds,orders]

theorem narrowingRun : ((loadAll sha256Platform textOperators (registered narrowing) [returns legacyStatus,refunds]).toOption.map
    fun before => (before.store.types sharedStatus,(before.store.managedTypes sharedStatus).map fun record =>
      decide (record.definitionChecksum ≠
        sha256Platform.sha256 (strBytes "CREATE TYPE \"dw\".\"status\" AS ENUM (E'new')")))) =
    some (some (.enum ["new","done"]),some true) := by decide +kernel

theorem narrowingGuarded : Guarded sha256Platform textOperators (registered narrowing) narrowing := by
  intro past table rest split before loaded clash
  match past,split with
  | [],split =>
    cases split
    exact absurd clash (by decide)
  | [_],split =>
    cases split
    exact absurd clash (by decide)
  | [_,_],split =>
    cases split
    have sample := narrowingRun
    rw [loaded] at sample
    simp only [Except.toOption,Option.map_some,Option.some.injEq,Prod.mk.injEq,Option.map_eq_some_iff,
      decide_eq_true_eq] at sample
    obtain ⟨types,record,managed,changed⟩ := sample
    refine .inr ⟨publicStatus,by decide,
      ⟨sharedStatus,"CREATE TYPE \"dw\".\"status\" AS ENUM (E'new')",.enum ["new"]⟩,⟨rfl,rfl,"\"dw\".\"status\"",[],by decide⟩,?_⟩
    intro planned cleared _ clearing
    obtain ⟨sameTypes,sameManaged⟩ := clearedTypes clearing
    unfold Refuses
    rw [sameManaged,managed]
    refine .inr (.inr (.inr ⟨changed,fun existing desired found definition => ?_⟩))
    rw [sameTypes,types] at found
    cases found
    cases definition
    exact ⟨"enum label removal, reordering, or combined rename/add is not supported",by decide⟩
  | _ :: _ :: _ :: _,split =>
    have lengths := congrArg List.length split
    simp [narrowing] at lengths

theorem narrowingIdentified : Clashes [returns legacyStatus,refunds] orders ∧ ∃ before after,
    loadAll sha256Platform textOperators (registered narrowing) [returns legacyStatus] = .ok before ∧
    load sha256Platform textOperators before refunds = .ok after ∧ Identifies [returns legacyStatus] refunds before after := by
  have sample := narrowingRun
  obtain ⟨reached,loaded,_⟩ := Option.map_eq_some_iff.mp sample
  have loaded := toOptionSome.mp loaded
  obtain ⟨before,first,rest⟩ := bindOk.mp loaded
  obtain ⟨after,second,_⟩ := bindOk.mp rest
  have alone : loadAll sha256Platform textOperators (registered narrowing) [returns legacyStatus] = .ok before :=
    bindOk.mpr ⟨before,first,rfl⟩
  exact ⟨by decide,before,after,alone,second,
    (typesIdentifiedWhen (by decide)).1 narrowingGuarded [returns legacyStatus] refunds [orders] rfl before after alone second⟩

end Sample

end CloudberryEtl.UserTypes
