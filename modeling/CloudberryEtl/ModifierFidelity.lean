import CloudberryEtl.TypeModifiers
import CloudberryEtl.TypeAdmission

/-! What becomes of the type modifier of a column when its type is planned. `resolve_type` reads the modifier of the
column only where the type of the column is a scalar: an array stores its element's modifier there, and a domain keeps
its own in `pg_type.typtypmod`. -/
namespace CloudberryEtl.ModifierFidelity
open Schema Result Settings Catalog SqlText TablePlan UserTypes TypeResolution TypeAdmission TypeModifiers

section Definitions

inductive SourceType (all : List TypeDescriptor) (typtypmod : Nat → Int) :
    TypeDescriptor → Int → List TypeDescriptor → String → Int → Prop
  | scalar {descriptor typmod} (named : nameValid descriptor) (base : descriptor.typtype = "b")
      (noElement : descriptor.elementOid = none) (registered : (scalarKind descriptor.name (-1)).isSupported)
      (stored : storable descriptor.name typmod) :
      SourceType all typtypmod descriptor typmod [] descriptor.name typmod
  | array {descriptor element typmod path name modifier} (named : nameValid descriptor) (kind : descriptor.typtype = "b")
      (linked : descriptor.elementOid.bind (typeOf all) = some element)
      (rest : SourceType all typtypmod element typmod path name modifier) :
      SourceType all typtypmod descriptor typmod (descriptor :: path) name modifier
  | domain {descriptor base path name modifier} (named : nameValid descriptor) (kind : descriptor.typtype = "d")
      (linked : descriptor.baseOid.bind (typeOf all) = some base)
      (rest : SourceType all typtypmod base (typtypmod descriptor.oid) path name modifier) :
      SourceType all typtypmod descriptor (-1) (descriptor :: path) name modifier

/- The built-in type at the bottom of a target type: brackets are taken off, and a quoted name stands for the domain that
the plan creates under it. -/
inductive Denotes (prerequisites : List UserTypePlan) : String → String → Prop
  | builtIn {text} (unquoted : text.toList.head? ≠ some '"') (single : text.toList.getLast? ≠ some ']') :
      Denotes prerequisites text text
  | array {sql leaf} (rest : Denotes prerequisites sql leaf) : Denotes prerequisites (sql ++ "[]") leaf
  | domain {plan sql baseSql leaf} (mem : plan ∈ prerequisites) (named : quoteQualifiedName plan.name = .ok sql)
      (definition : plan.definition = .domain baseSql) (rest : Denotes prerequisites baseSql leaf) :
      Denotes prerequisites sql leaf

def codeBelow : List TypeDescriptor → Int → Int
  | [],code => code
  | descriptor :: path,code => codeBelow path (if descriptor.typtype = "d" then code else -1)

def constrained (path : List TypeDescriptor) : Prop :=
  ∃ descriptor ∈ path, descriptor.typtype = "d" ∧ descriptor.constraints ≠ []

end Definitions

section Texts
variable {prerequisites : List UserTypePlan} {texts : List String} {text sql leaf : String}

def builtInText (text : String) : Prop := text.toList.head? ≠ some '"' ∧ text.toList.getLast? ≠ some ']'

structure ChainTexts (prerequisites : List UserTypePlan) (texts : List String) (text : String) : Prop where
  plans : ∀ plan ∈ prerequisites, ∃ base ∈ texts, plan.definition = .domain base
  each : ∀ sql ∈ texts, sql = text ∨ (∃ inner ∈ texts, sql = inner ++ "[]") ∨
    (sql.toList.head? = some '"' ∧ sql.toList.getLast? = some '"')

theorem ChainTexts.grow {more : List UserTypePlan} (chain : ChainTexts prerequisites texts text)
    (shape : (∃ inner ∈ texts, sql = inner ++ "[]") ∨ (sql.toList.head? = some '"' ∧ sql.toList.getLast? = some '"'))
    (planned : ∀ plan ∈ more, ∃ base ∈ texts, plan.definition = .domain base) :
    ChainTexts (prerequisites ++ more) (sql :: texts) text := by
  constructor
  · intro plan mem
    have known : ∃ base ∈ texts, plan.definition = .domain base :=
      (List.mem_append.mp mem).elim (chain.plans plan) (planned plan)
    obtain ⟨base,inside,definition⟩ := known
    exact ⟨base,List.mem_cons_of_mem _ inside,definition⟩
  · intro other mem
    have known : other = text ∨ (∃ inner ∈ texts, other = inner ++ "[]") ∨
        (other.toList.head? = some '"' ∧ other.toList.getLast? = some '"') := by
      rcases List.mem_cons.mp mem with rfl | mem
      · exact .inr shape
      · exact chain.each other mem
    rcases known with same | ⟨inner,inside,same⟩ | quoted
    · exact .inl same
    · exact .inr (.inl ⟨inner,List.mem_cons_of_mem _ inside,same⟩)
    · exact .inr (.inr quoted)

theorem bracketLast (sql : String) : (sql ++ "[]").toList.getLast? = some ']' := by
  simp

theorem denotesOnly (chain : ChainTexts prerequisites texts text) (plain : builtInText text)
    (denotes : Denotes prerequisites sql leaf) (mem : sql ∈ texts) : leaf = text := by
  induction denotes with
  | builtIn unquoted single =>
    rcases chain.each _ mem with same | ⟨inner,_,rfl⟩ | ⟨quoted,_⟩
    · exact same
    · exact absurd (bracketLast inner) single
    · exact absurd quoted unquoted
  | @array sql leaf rest ih =>
    rcases chain.each _ mem with rfl | ⟨inner,inside,same⟩ | ⟨_,quoted⟩
    · exact absurd (bracketLast sql) plain.2
    · exact ih (String.append_left_inj "[]" |>.mp same ▸ inside)
    · simp at quoted
  | domain planned _ definition _ ih =>
    obtain ⟨base,inside,same⟩ := chain.plans _ planned
    cases definition.symm.trans same
    exact ih inside

theorem denotesMore {more : List UserTypePlan} (denotes : Denotes prerequisites sql leaf) :
    Denotes (prerequisites ++ more) sql leaf := by
  induction denotes with
  | builtIn unquoted single => exact .builtIn unquoted single
  | array _ ih => exact .array ih
  | domain mem named definition _ ih => exact .domain (List.mem_append_left _ mem) named definition ih

theorem identifierQuoted {identifier quoted : String} (ok : quoteIdentifier identifier = .ok quoted) :
    quoted.toList.head? = some '"' ∧ quoted.toList.getLast? = some '"' := by
  unfold quoteIdentifier at ok
  split at ok <;> try contradiction
  split at ok <;> try contradiction
  cases Except.ok.inj ok
  rw [String.toList_ofList]
  exact ⟨rfl,List.getLast?_concat⟩

theorem nameQuoted {name : QualifiedName} {quoted : String} (ok : quoteQualifiedName name = .ok quoted) :
    quoted.toList.head? = some '"' ∧ quoted.toList.getLast? = some '"' := by
  obtain ⟨schema,schemaOk,ok⟩ := bindOk.mp ok
  obtain ⟨name,nameOk,ok⟩ := bindOk.mp ok
  cases Except.ok.inj ok
  have first := (identifierQuoted schemaOk).1
  have last := (identifierQuoted nameOk).2
  constructor
  · simp [first]
  · rw [String.toList_append,List.getLast?_append,last]
    rfl

theorem nameQuotes (name : QualifiedName) : ∃ quoted, quoteQualifiedName name = .ok quoted := by
  have quotes : ∀ identifier, IdentifierValid identifier → ∃ quoted, quoteIdentifier identifier = .ok quoted := by
    intro identifier valid
    exact ⟨_,by rw [quoteIdentifier,if_neg valid.1,if_neg valid.2.1]⟩
  obtain ⟨schema,schemaOk⟩ := quotes name.schema name.schemaValid
  obtain ⟨local',nameOk⟩ := quotes name.name name.nameValid
  exact ⟨schema ++ "." ++ local',bindOk.mpr ⟨schema,schemaOk,bindOk.mpr ⟨local',nameOk,rfl⟩⟩⟩

end Texts

section Leaf

theorem builtInWithout {text : String} (unquoted : '"' ∉ text.toList) (single : ']' ∉ text.toList) : builtInText text :=
  ⟨fun first => unquoted (List.mem_of_head? first),fun last => single (List.mem_of_getLast? last)⟩

theorem lengthBuiltIn {dataType text : String} {bound : Nat} {length : Option Nat}
    (plain : '"' ∉ dataType.toList ∧ ']' ∉ dataType.toList)
    (planned : lengthSql dataType bound length = .ok text) : builtInText text := by
  cases length with
  | none =>
    cases Except.ok.inj planned
    exact builtInWithout plain.1 plain.2
  | some n =>
    simp only [lengthSql] at planned
    split at planned <;> try contradiction
    cases Except.ok.inj planned
    apply builtInWithout <;> simp [plain.1,plain.2,digitsWithout n]

theorem suffixWithout {dataType suffix : String} {precision : Option Nat}
    (planned : precisionSuffix dataType precision = .ok suffix) :
    '"' ∉ suffix.toList ∧ ']' ∉ suffix.toList := by
  cases precision with
  | none =>
    cases Except.ok.inj planned
    decide
  | some n =>
    simp only [precisionSuffix] at planned
    split at planned <;> try contradiction
    cases Except.ok.inj planned
    simp [digitsWithout n]

theorem numericBuiltIn {precision : Option Nat} {scale : Option Int} {text : String}
    (planned : numericSql precision scale = .ok text) : builtInText text := by
  cases precision with
  | none =>
    cases scale with
    | none =>
      cases Except.ok.inj planned
      exact builtInWithout (by decide) (by decide)
    | some _ => contradiction
  | some p =>
    cases scale with
    | none =>
      obtain ⟨_,_,planned⟩ := bindOk.mp planned
      cases Except.ok.inj planned
      apply builtInWithout <;> simp [digitsWithout p]
    | some scale =>
      obtain ⟨_,_,planned⟩ := bindOk.mp planned
      obtain ⟨positive,planned⟩ := iteOk.mp planned
      obtain ⟨_,planned⟩ := iteOk.mp planned
      cases Except.ok.inj planned
      obtain ⟨bits,rfl⟩ := Int.eq_ofNat_of_zero_le (Int.not_lt.mp positive)
      have digits : (toString (bits : Int)).toList = Nat.toDigits 10 bits := Nat.toList_repr
      apply builtInWithout
      · simp only [String.toList_append,digits,List.mem_append,not_or]
        simp [digitsWithout p,digitsWithout bits]
      · simp only [String.toList_append,digits,List.mem_append,not_or]
        simp [digitsWithout p,digitsWithout bits]

theorem datetimeBuiltIn {words text : String} {precision : Option Nat} {zone : Bool}
    (plain : '"' ∉ words.toList ∧ ']' ∉ words.toList)
    (planned : datetimeSql words precision zone = .ok text) : builtInText text := by
  obtain ⟨suffix,suffixOk,planned⟩ := bindOk.mp planned
  cases Except.ok.inj planned
  obtain ⟨unquoted,single⟩ := suffixWithout suffixOk
  apply builtInWithout <;> cases zone <;> simp [plain.1,plain.2,unquoted,single]

theorem intervalBuiltIn {typeName : QualifiedName} {schema text : String} {precision : Option Nat}
    (planned : leafText typeName schema (.interval precision) = .ok text) : builtInText text := by
  cases suffixOk : precisionSuffix "interval" precision with
  | error _ =>
    simp only [leafText,planKindInner,suffixOk] at planned
    contradiction
  | ok suffix =>
    simp only [leafText,planKindInner,suffixOk] at planned
    cases Except.ok.inj planned
    obtain ⟨unquoted,single⟩ := suffixWithout suffixOk
    apply builtInWithout <;> simp [unquoted,single]

theorem leafSource {typeName : QualifiedName} {schema text : String} {kind : PgTypeKind} (planner : Except SchemaError String)
    (shape : leafText typeName schema kind = (do return (← planner,([] : List UserTypePlan))).map Prod.fst)
    (planned : leafText typeName schema kind = .ok text) : planner = .ok text := by
  rw [shape] at planned
  cases planner with
  | error _ => contradiction
  | ok _ => exact planned

theorem leafBuiltIn {typeName : QualifiedName} {schema name text : String} {code : Int}
    (planned : leafText typeName schema (scalarKind name code) = .ok text) : builtInText text := by
  have bare : ∀ words : String, '"' ∉ words.toList → ']' ∉ words.toList → .ok words = (.ok text : Except SchemaError String) →
      builtInText text := by
    intro words unquoted single same
    cases Except.ok.inj same
    exact builtInWithout unquoted single
  unfold scalarKind at planned
  split at planned
  all_goals first
    | contradiction
    | exact bare _ (by decide) (by decide) planned
    | skip
  · exact numericBuiltIn (leafSource (numericSql (numericTypmod code).1 (numericTypmod code).2) rfl planned)
  · exact lengthBuiltIn (by decide) (leafSource (characterSql "character varying" (typmodLength code)) rfl planned)
  · exact lengthBuiltIn (by decide) (leafSource (characterSql "character" (typmodLength code)) rfl planned)
  · exact datetimeBuiltIn (by decide) (leafSource (datetimeSql "time" (timePrecision code) false) rfl planned)
  · exact datetimeBuiltIn (by decide) (leafSource (datetimeSql "time" (timePrecision code) true) rfl planned)
  · exact datetimeBuiltIn (by decide) (leafSource (datetimeSql "timestamp" (timePrecision code) false) rfl planned)
  · exact datetimeBuiltIn (by decide) (leafSource (datetimeSql "timestamp" (timePrecision code) true) rfl planned)
  · exact intervalBuiltIn planned
  · exact lengthBuiltIn (by decide) (leafSource (bitSql (typmodLength code) false) rfl planned)
  · exact lengthBuiltIn (by decide) (leafSource (bitSql (typmodLength code) true) rfl planned)

end Leaf

section Planned
variable {all : List TypeDescriptor} {typtypmod : Nat → Int} {column : TypeDescriptor} {typmod modifier : Int}
  {path : List TypeDescriptor} {name : String}

def PlanOutcome (schema : String) (type : PgType) (path : List TypeDescriptor)
    (leafResult : Except SchemaError String) : Prop :=
  (∃ error, planTypeInner schema [] type = .error error ∧ ((∃ cause, leafResult = .error cause) ∨ constrained path)) ∨
  (∃ text sql prerequisites texts, planTypeInner schema [] type = .ok (sql,prerequisites) ∧ leafResult = .ok text ∧
    ¬ constrained path ∧ ChainTexts prerequisites texts text ∧ sql ∈ texts ∧ Denotes prerequisites sql text)

theorem constrainedBelow {descriptor : TypeDescriptor} (free : descriptor.typtype = "d" → descriptor.constraints = []) :
    constrained (descriptor :: path) ↔ constrained path := by
  simp only [constrained,List.mem_cons,exists_eq_or_imp]
  constructor
  · rintro (⟨domain,filled⟩ | below)
    · exact absurd (free domain) filled
    · exact below
  · exact .inr

theorem scalarOutcome {descriptor : TypeDescriptor} {typeName : QualifiedName} {schema : String} {code : Int} {oid : Nat} :
    PlanOutcome schema ⟨oid,typeName,scalarKind descriptor.name code⟩ []
      (leafText typeName schema (scalarKind descriptor.name code)) := by
  have free : ¬ constrained [] := by simp [constrained]
  have scalar : isScalar (scalarKind descriptor.name code) := by
    unfold scalarKind
    split <;> rfl
  have plain := scalarText typeName schema scalar []
  cases planned : planKindInner typeName schema [] (scalarKind descriptor.name code) with
  | error error =>
    have leaf : leafText typeName schema (scalarKind descriptor.name code) = .error error := by rw [leafText,planned]; rfl
    exact .inl ⟨error,planned,.inl ⟨error,leaf⟩⟩
  | ok result =>
    have leaf : leafText typeName schema (scalarKind descriptor.name code) = .ok result.1 := by rw [leafText,planned]; rfl
    have built := leafBuiltIn leaf
    have alone : planKindInner typeName schema [] (scalarKind descriptor.name code) = .ok (result.1,[]) := by
      rw [plain,planned]
      rfl
    refine .inr ⟨result.1,result.1,[],[result.1],alone,leaf,free,⟨by simp,?_⟩,by simp,.builtIn built.1 built.2⟩
    intro sql mem
    exact .inl (List.mem_singleton.mp mem)

theorem arrayOutcome {descriptor : TypeDescriptor} {schema : String} {oid : Nat} {qualifiedName : QualifiedName}
    {inner : PgType} {leafResult : Except SchemaError String} (kind : descriptor.typtype = "b")
    (outcome : PlanOutcome schema inner path leafResult) :
    PlanOutcome schema ⟨oid,qualifiedName,.array inner⟩ (descriptor :: path) leafResult := by
  have below : constrained (descriptor :: path) ↔ constrained path := constrainedBelow (by simp [kind])
  unfold PlanOutcome
  rw [below]
  obtain ⟨error,failed,cause⟩ | ⟨text,sql,prerequisites,texts,planned,leaf,free,chain,mem,denotes⟩ := outcome
  · exact .inl ⟨error,by simp [planTypeInner,planKindInner,failed,bind,Except.bind],cause⟩
  · have grown : ChainTexts prerequisites ((sql ++ "[]") :: texts) text := by
      have none' : ∀ plan ∈ ([] : List UserTypePlan), ∃ base ∈ texts, plan.definition = .domain base := by simp
      simpa using chain.grow (.inl ⟨sql,mem,rfl⟩) none'
    have whole : planTypeInner schema [] ⟨oid,qualifiedName,.array inner⟩ = .ok (sql ++ "[]",prerequisites) := by
      simp [planTypeInner,planKindInner,planned,bind,Except.bind]
    exact .inr ⟨text,sql ++ "[]",prerequisites,_,whole,leaf,free,grown,List.mem_cons_self,.array denotes⟩

theorem domainOutcome {descriptor : TypeDescriptor} {target qualifiedName : QualifiedName} {oid : Nat} {inner : PgType}
    {leafResult : Except SchemaError String} (kind : descriptor.typtype = "d")
    (outcome : PlanOutcome target.schema inner path leafResult) :
    PlanOutcome target.schema ⟨oid,qualifiedName,.domain inner descriptor.constraints⟩ (descriptor :: path) leafResult := by
  by_cases unconstrained : descriptor.constraints = []
  · have below : constrained (descriptor :: path) ↔ constrained path := constrainedBelow (fun _ => unconstrained)
    unfold PlanOutcome
    rw [below,unconstrained]
    obtain ⟨error,failed,cause⟩ | ⟨text,sql,prerequisites,texts,planned,leaf,free,chain,mem,denotes⟩ := outcome
    · exact .inl ⟨error,by simp [planTypeInner,planKindInner,failed,bind,Except.bind],cause⟩
    · obtain ⟨targetName,valid⟩ : ∃ name, QualifiedName.new target.schema qualifiedName.name = .ok name :=
        ⟨_,QualifiedName.newValid ⟨target.schema,qualifiedName.name,target.schemaValid,qualifiedName.nameValid⟩⟩
      obtain ⟨quoted,quotes⟩ := nameQuotes targetName
      have named : coreResult (QualifiedName.new target.schema qualifiedName.name) = .ok targetName := mapErrorOk.mpr valid
      have rendered : sqlResult (quoteQualifiedName targetName) = .ok quoted := mapErrorOk.mpr quotes
      let plan : UserTypePlan := ⟨targetName,"CREATE DOMAIN " ++ quoted ++ " AS " ++ sql,.domain sql⟩
      have whole : planTypeInner target.schema [] ⟨oid,qualifiedName,.domain inner []⟩ =
          .ok (quoted,prerequisites ++ [plan]) := by
        simp [plan,planTypeInner,planKindInner,planned,named,rendered,bind,Except.bind]
      have grown : ChainTexts (prerequisites ++ [plan]) (quoted :: texts) text := by
        apply chain.grow (.inr (nameQuoted quotes))
        intro other inside
        cases List.mem_singleton.mp inside
        exact ⟨sql,mem,rfl⟩
      have through : Denotes (prerequisites ++ [plan]) quoted text :=
        .domain (List.mem_append_right _ (List.mem_singleton_self plan)) quotes rfl (denotesMore denotes)
      exact .inr ⟨text,quoted,_,_,whole,leaf,free,grown,List.mem_cons_self,through⟩
  · have bad : constrained (descriptor :: path) := ⟨descriptor,List.mem_cons_self,kind,unconstrained⟩
    have refused : ¬ descriptor.constraints.isEmpty := by simpa using unconstrained
    exact .inl ⟨_,by simp only [planTypeInner,planKindInner]; exact if_pos refused,.inr bad⟩

theorem resolvedPlan (target : QualifiedName) (source : SourceType all typtypmod column typmod path name modifier)
    (code : Int) :
    ∃ type typeName, Resolved all column code type ∧
      PlanOutcome target.schema type path (leafText typeName target.schema (scalarKind name (codeBelow path code))) := by
  induction source generalizing code with
  | @scalar descriptor typmod named base noElement registered stored =>
    obtain ⟨typeName,qualifies⟩ := qualifiedIff.mpr named
    have plain : plain descriptor := ⟨by simp [base],by simp [base],fun _ => noElement⟩
    exact ⟨_,typeName,.scalar qualifies plain,scalarOutcome⟩
  | @array descriptor element typmod path name modifier named kind linked rest ih =>
    obtain ⟨qualifiedName,qualifies⟩ := qualifiedIff.mpr named
    obtain ⟨inner,typeName,resolved,outcome⟩ := ih (-1)
    have code' : codeBelow (descriptor :: path) code = codeBelow path (-1) := by simp [codeBelow,kind]
    rw [code']
    exact ⟨_,typeName,.array qualifies kind linked resolved,arrayOutcome kind outcome⟩
  | @domain descriptor base path name modifier named kind linked rest ih =>
    obtain ⟨qualifiedName,qualifies⟩ := qualifiedIff.mpr named
    obtain ⟨inner,typeName,resolved,outcome⟩ := ih code
    have code' : codeBelow (descriptor :: path) code = codeBelow path code := by simp [codeBelow,kind]
    rw [code']
    exact ⟨_,typeName,.domain qualifies kind linked resolved,domainOutcome kind outcome⟩

theorem codeBelowNone (path : List TypeDescriptor) : codeBelow path (-1) = -1 := by
  induction path with
  | nil => rfl
  | cons descriptor path ih => simpa [codeBelow] using ih

theorem codeReached (source : SourceType all typtypmod column typmod path name modifier) :
    codeBelow path typmod = if !path.isEmpty then -1 else modifier := by
  cases source with
  | scalar => rfl
  | array _ kind => simp [codeBelow,kind,codeBelowNone]
  | domain => simp [codeBelow,codeBelowNone]

theorem sourceStored (source : SourceType all typtypmod column typmod path name modifier) : storable name modifier := by
  induction source with
  | scalar _ _ _ _ stored => exact stored
  | array _ _ _ _ ih => exact ih
  | domain _ _ _ _ ih => exact ih

/-- A column type that is planned declares in the target the length, precision and scale it has in the source exactly
when its scalar family keeps the modifier where it stands, or a constraint of a domain around it refuses the type: the
length of a bit string is read four short, the precision of an interval and every modifier below an array or a domain
are not read, and `character` and `bit` without a length mean length one in the target. -/
theorem modifiersKept (all : List TypeDescriptor) (typtypmod : Nat → Int) (target : QualifiedName)
    (source : SourceType all typtypmod column typmod path name modifier) :
    (∀ type plan, resolveType all (all.length + 1) column typmod = .ok type → planType type target.schema = .ok plan →
      ∃ leaf, Denotes plan.prerequisites plan.sql leaf ∧ targetDeclares leaf = sourceDeclares name modifier) ↔
    keepsModifier (!path.isEmpty) name modifier ∨ constrained path := by
  obtain ⟨type,typeName,resolved,outcome⟩ := resolvedPlan target source typmod
  have typed := resolveTypeIff.mpr resolved
  rw [codeReached source] at outcome
  have kept : keeps typeName target.schema (if !path.isEmpty then -1 else modifier) name modifier ↔
      keepsModifier (!path.isEmpty) name modifier := leafKept (!path.isEmpty) (sourceStored source)
  rw [← kept]
  obtain ⟨error,failed,cause⟩ | ⟨text,sql,prerequisites,texts,planned,leaf,free,chain,mem,denotes⟩ := outcome
  · have refused : ∀ plan, planType type target.schema ≠ .ok plan := by
      intro plan ok
      obtain ⟨_,inner,_⟩ := bindOk.mp ok
      rw [failed] at inner
      contradiction
    constructor
    · intro _
      rcases cause with ⟨cause,refusedLeaf⟩ | bad
      · exact .inl (keepsRejected refusedLeaf)
      · exact .inr bad
    · intro _ other plan resolved' ok
      cases Except.ok.inj (typed.symm.trans resolved')
      exact absurd ok (refused plan)
  · have whole : planType type target.schema = .ok ⟨sql,prerequisites⟩ := by
      simp [planType,planned,bind,Except.bind,pure,Except.pure]
    rw [keepsText leaf,or_iff_left free]
    constructor
    · intro every
      obtain ⟨other,denoted,same⟩ := every type _ typed whole
      cases denotesOnly chain (leafBuiltIn leaf) denoted mem
      exact same
    · intro same other plan resolved' ok
      cases Except.ok.inj (typed.symm.trans resolved')
      cases Except.ok.inj (whole.symm.trans ok)
      exact ⟨text,denotes,same⟩

end Planned

section Sample

def bitDescriptor : TypeDescriptor := ⟨1560,"pg_catalog","bit","b",none,none,[],[]⟩

def varcharDescriptor : TypeDescriptor := ⟨1043,"pg_catalog","varchar","b",none,none,[],[]⟩

def noModifiers (_ : Nat) : Int := -1

theorem varcharNamed : nameValid varcharDescriptor := by
  unfold nameValid
  decide

theorem bitNamed : nameValid bitDescriptor := by
  unfold nameValid
  decide

theorem varcharTwelve : SourceType [varcharDescriptor] noModifiers varcharDescriptor 16 [] "varchar" 16 :=
  .scalar varcharNamed rfl rfl rfl (.inr ⟨12,by omega,by omega,rfl⟩)

theorem bitFive : SourceType [bitDescriptor] noModifiers bitDescriptor 5 [] "bit" 5 :=
  .scalar bitNamed rfl rfl rfl (.inr ⟨5,by omega,by omega,rfl⟩)

def warehouse : QualifiedName := ⟨"dw","orders",dwValid,ordersValid⟩

theorem varcharTwelveKept :
    ∃ leaf, Denotes [] "character varying(12)" leaf ∧ targetDeclares leaf = sourceDeclares "varchar" 16 :=
  (modifiersKept [varcharDescriptor] noModifiers warehouse varcharTwelve).mpr (.inl (.inl rfl)) _
    ⟨"character varying(12)",[]⟩ rfl (by decide)

theorem bitFiveShortened : SourceType [bitDescriptor] noModifiers bitDescriptor 5 [] "bit" 5 ∧
    ∃ type plan, resolveType [bitDescriptor] 2 bitDescriptor 5 = .ok type ∧ planType type warehouse.schema = .ok plan ∧
      plan.sql = "bit(1)" ∧
      ∀ leaf, Denotes plan.prerequisites plan.sql leaf → targetDeclares leaf ≠ sourceDeclares "bit" 5 := by
  refine ⟨bitFive,_,⟨"bit(1)",[]⟩,rfl,rfl,rfl,?_⟩
  intro leaf denotes
  have chain : ChainTexts [] ["bit(1)"] "bit(1)" := ⟨by simp,by simp⟩
  have plain : builtInText "bit(1)" := builtInWithout (by decide) (by decide)
  cases denotesOnly chain plain denotes (List.mem_singleton_self _)
  decide

end Sample

end CloudberryEtl.ModifierFidelity
