import CloudberryEtl.Resume

/-! Default target names of `core::mapping`: the joined name of a source's namespace, its shortening, and when two
namespaces share a target schema. -/
namespace CloudberryEtl.Namespaces
open Schema Change TablePlan StagedApply Result TargetStore Manifest ShadowLoad Activation Planning Resume

structure Namespace where
  sourcePrefix : String
  sourceDatabase : String
  schema : String
  deriving DecidableEq, Repr

def namespaceOf (job : JobSettings) (source : QualifiedName) : Namespace :=
  ⟨job.sourcePrefix,job.sourceDatabase,source.schema⟩

def prefixChar (c : Char) : Bool := ('a' ≤ c && c ≤ 'z') || c.isDigit || c = '_'

def newSourcePrefix (value : String) : Except CoreError String :=
  match value.toList with
  | [] => .error (.invalidPrefix value)
  | c :: rest =>
    if 'a' ≤ c ∧ c ≤ 'z' ∧ rest.all prefixChar ∧ value.utf8ByteSize ≤ 24 then .ok value else .error (.invalidPrefix value)

def rawSchema (space : Namespace) : String :=
  space.sourcePrefix ++ "__" ++ space.sourceDatabase ++ "__" ++ space.schema

def NameValid (name : String) : Prop :=
  name.toByteArray.IsValidUTF8 ∧ name ≠ "" ∧ name.utf8ByteSize ≤ postgresIdentifierMaxBytes

section Boundary

def isCharBoundary (value : List Char) (bytes : Nat) : Bool :=
  (List.range (value.length + 1)).any fun count => String.utf8Len (value.take count) = bytes

def floorBoundary (value : List Char) : Nat → Nat
  | 0 => 0
  | bytes + 1 => if isCharBoundary value (bytes + 1) then bytes + 1 else floorBoundary value bytes

theorem boundaryIff {value : List Char} {bytes : Nat} :
    isCharBoundary value bytes = true ↔ ∃ count, String.utf8Len (value.take count) = bytes := by
  simp only [isCharBoundary,List.any_eq_true,List.mem_range,decide_eq_true_eq]
  constructor
  · intro found
    obtain ⟨count,_,size⟩ := found
    exact ⟨count,size⟩
  · intro found
    obtain ⟨count,size⟩ := found
    have capped : value.take (min count value.length) = value.take count := by
      rw [← List.take_take,List.take_length]
    exact ⟨min count value.length,by omega,by rw [capped]; exact size⟩

theorem charPrefixBytes (room : Nat) (value : List Char) : String.utf8Len (charPrefix room value) ≤ room := by
  induction value generalizing room with
  | nil => simp [charPrefix]
  | cons c rest ih =>
    unfold charPrefix
    split
    next fits =>
      have tail := ih (room - c.utf8Size)
      rw [String.utf8Len_cons]
      omega
    next => simp

theorem charPrefixTake (room : Nat) (value : List Char) : ∃ count, charPrefix room value = value.take count := by
  induction value generalizing room with
  | nil => exact ⟨0,rfl⟩
  | cons c rest ih =>
    unfold charPrefix
    split
    next =>
      obtain ⟨count,tail⟩ := ih (room - c.utf8Size)
      exact ⟨count + 1,by rw [tail,List.take_succ_cons]⟩
    next => exact ⟨0,rfl⟩

theorem charPrefixLargest (room count : Nat) (value : List Char) (fits : String.utf8Len (value.take count) ≤ room) :
    String.utf8Len (value.take count) ≤ String.utf8Len (charPrefix room value) := by
  induction value generalizing room count with
  | nil => simp
  | cons c rest ih =>
    cases count with
    | zero => simp
    | succ count =>
      rw [List.take_succ_cons,String.utf8Len_cons] at fits ⊢
      have first : c.utf8Size ≤ room := by omega
      have tail := ih (room - c.utf8Size) count (by omega)
      rw [charPrefix,if_pos first,String.utf8Len_cons]
      omega

theorem floorBoundaryExact (value : List Char) (least most : Nat) (below : least ≤ most)
    (boundary : isCharBoundary value least = true)
    (last : ∀ bytes, isCharBoundary value bytes = true → bytes ≤ most → bytes ≤ least) :
    floorBoundary value most = least := by
  induction most with
  | zero => exact (Nat.le_zero.mp below).symm
  | succ most ih =>
    unfold floorBoundary
    split
    next here => exact le_antisymm (last (most + 1) here le_rfl) below
    next apart =>
      have smaller : least ≤ most := by
        rcases Nat.lt_or_eq_of_le below with less | same
        · omega
        · exact absurd (same ▸ boundary) apart
      exact ih smaller fun bytes at' within => last bytes at' (by omega)

/-- The characters that are kept are the bytes before the boundary at which the loop of the source stops, so the
cut never falls into a character. -/
theorem shortenCut (room : Nat) (value : List Char) :
    String.utf8Len (charPrefix room value) = floorBoundary value (min room (String.utf8Len value)) ∧
      ∃ count, charPrefix room value = value.take count := by
  obtain ⟨count,taken⟩ := charPrefixTake room value
  have whole : String.utf8Len (charPrefix room value) ≤ String.utf8Len value := by
    rw [taken]
    exact String.utf8Len_le_of_prefix (List.take_prefix count value)
  have within := charPrefixBytes room value
  constructor
  · refine (floorBoundaryExact value _ _ (le_min within whole) (boundaryIff.mpr ⟨count,by rw [taken]⟩) ?_).symm
    intro bytes boundary below
    obtain ⟨kept,size⟩ := boundaryIff.mp boundary
    rw [← size]
    exact charPrefixLargest room kept value (by omega)
  · exact ⟨count,taken⟩

end Boundary

section Shortened
variable {sha256 : Bytes → Bytes}

theorem hexByteSize (octet : UInt8) : String.utf8Len (hexByte octet) = 2 := by
  have bound := octet.toNat_lt
  have high := (digitAscii (octet.toNat / 16) (by omega)).1
  have low := (digitAscii (octet.toNat % 16) (by omega)).1
  simp [hexByte,high,low]

theorem hexBytesSize (bytes : Bytes) : String.utf8Len (bytes.flatMap hexByte) = 2 * bytes.length := by
  induction bytes with
  | nil => rfl
  | cons octet bytes ih =>
    rw [List.flatMap_cons,String.utf8Len_append,hexByteSize,ih,List.length_cons]
    omega

def nameDigest (sha256 : Bytes → Bytes) (value : String) : List Char :=
  ((sha256 (strBytes value)).take hashSuffixBytes).flatMap hexByte

theorem shortenedValid (value : String) (present : value ≠ "") : NameValid (shortenIdentifier sha256 value) := by
  have utf8 := (shortenIdentifier sha256 value).isValidUTF8
  refine ⟨utf8,?_,?_⟩
  · unfold shortenIdentifier
    split
    next => exact present
    next =>
      intro empty
      have chars := congrArg String.toList empty
      simp at chars
  · unfold shortenIdentifier
    split
    next short => exact short
    next =>
      have suffixBytes := hexBytesSize ((sha256 (strBytes value)).take hashSuffixBytes)
      have suffixLength := hexBytesLength ((sha256 (strBytes value)).take hashSuffixBytes)
      have suffixShort : ((sha256 (strBytes value)).take hashSuffixBytes).length ≤ 12 := List.length_take_le _ _
      have stem := charPrefixBytes (postgresIdentifierMaxBytes - 1 -
        (((sha256 (strBytes value)).take hashSuffixBytes).flatMap hexByte).length) value.toList
      have underscore : '_'.utf8Size = 1 := rfl
      simp only [String.utf8ByteSize_ofList,String.utf8Len_append,String.utf8Len_cons,postgresIdentifierMaxBytes] at stem ⊢
      omega

theorem shortenedLong (width : ∀ input, (sha256 input).length = 32) {value : String}
    (long : ¬ value.utf8ByteSize ≤ postgresIdentifierMaxBytes) :
    (shortenIdentifier sha256 value).toList = charPrefix 38 value.toList ++ '_' :: nameDigest sha256 value := by
  have size : (((sha256 (strBytes value)).take hashSuffixBytes).flatMap hexByte).length = 24 := by
    rw [hexBytesLength,List.length_take,width]
    rfl
  rw [shortenIdentifier,if_neg long,String.toList_ofList,size]
  rfl

def Mimics (sha256 : Bytes → Bytes) (short long : String) : Prop :=
  short.utf8ByteSize ≤ postgresIdentifierMaxBytes ∧ postgresIdentifierMaxBytes < long.utf8ByteSize ∧
    short.toList = charPrefix 38 long.toList ++ '_' :: nameDigest sha256 long

def CollisionFree (sha256 : Bytes → Bytes) (left right : String) : Prop :=
  (sha256 (strBytes left)).take hashSuffixBytes = (sha256 (strBytes right)).take hashSuffixBytes → left = right

theorem shortenedEqual (width : ∀ input, (sha256 input).length = 32) {left right : String}
    (free : CollisionFree sha256 left right) :
    shortenIdentifier sha256 left = shortenIdentifier sha256 right ↔
      left = right ∨ Mimics sha256 left right ∨ Mimics sha256 right left := by
  constructor
  · intro same
    by_cases short : left.utf8ByteSize ≤ postgresIdentifierMaxBytes
    · by_cases short' : right.utf8ByteSize ≤ postgresIdentifierMaxBytes
      · rw [shortenIdentifier,if_pos short,shortenIdentifier,if_pos short'] at same
        exact .inl same
      · have chars := shortenedLong width short'
        rw [← same,shortenIdentifier,if_pos short] at chars
        exact .inr (.inl ⟨short,not_le.mp short',chars⟩)
    · by_cases short' : right.utf8ByteSize ≤ postgresIdentifierMaxBytes
      · have chars := shortenedLong width short
        rw [same,shortenIdentifier,if_pos short'] at chars
        exact .inr (.inr ⟨short',not_le.mp short,chars⟩)
      · have chars := congrArg String.toList same
        rw [shortenedLong width short,shortenedLong width short'] at chars
        have sizes : ('_' :: nameDigest sha256 left).length = ('_' :: nameDigest sha256 right).length := by
          simp only [nameDigest,List.length_cons,hexBytesLength,List.length_take,width]
        have digests := (List.append_inj' chars sizes).2
        exact .inl (free (hexBytesInjective _ (List.cons.inj digests).2))
  · intro alike
    rcases alike with same | mimics | mimics
    · rw [same]
    · obtain ⟨short,long,chars⟩ := mimics
      rw [← String.toList_inj,shortenedLong width (not_le.mpr long),shortenIdentifier,if_pos short,chars]
    · obtain ⟨short,long,chars⟩ := mimics
      rw [← String.toList_inj,shortenedLong width (not_le.mpr long),shortenIdentifier,if_pos short,chars]

end Shortened

section Joined

/- The text on one side of a separator goes on where the other has the separator: a part of it, or half of the
separator itself, has moved over. -/
def Shifted (left right left' right' : String) : Prop :=
  (left' = left ++ "_" ∧ right = "_" ++ right') ∨
    ∃ moved, left' = left ++ "__" ++ moved ∧ right = moved ++ "__" ++ right'

theorem shiftedJoined {left right left' right'} (shifted : Shifted left right left' right') :
    left ++ "__" ++ right = left' ++ "__" ++ right' := by
  have doubled : "__" = "_" ++ "_" := rfl
  rcases shifted with half | whole
  · rw [half.1,half.2,doubled]
    simp only [String.append_assoc]
  · obtain ⟨moved,before,after⟩ := whole
    rw [before,after]
    simp only [String.append_assoc]

theorem laterSeparator {left right left' right' : List Char} {between : List Char}
    (before : left' = left ++ between) (after : '_' :: '_' :: right = between ++ '_' :: '_' :: right') :
    (left' = left ∧ right = right') ∨ (left' = left ++ ['_'] ∧ right = '_' :: right') ∨
      ∃ moved, left' = left ++ '_' :: '_' :: moved ∧ right = moved ++ '_' :: '_' :: right' := by
  cases between with
  | nil => exact .inl (by simpa using And.intro before after)
  | cons first between =>
    cases between with
    | nil =>
      simp only [List.cons_append,List.nil_append,List.cons.injEq] at after
      exact .inr (.inl ⟨by rw [before,← after.1],after.2.2⟩)
    | cons second moved =>
      simp only [List.cons_append,List.cons.injEq] at after
      exact .inr (.inr ⟨moved,by rw [before,← after.1,← after.2.1],after.2.2⟩)

theorem joinedEqual (left right left' right' : String) :
    left ++ "__" ++ right = left' ++ "__" ++ right' ↔
      (left = left' ∧ right = right') ∨ Shifted left right left' right' ∨ Shifted left' right' left right := by
  have separator : "__".toList = ['_','_'] := rfl
  have single : "_".toList = ['_'] := rfl
  constructor
  · intro same
    have chars := congrArg String.toList same
    simp only [String.toList_append,separator,List.append_assoc,List.cons_append,List.nil_append] at chars
    have asShift : ∀ {l r l' r' : String},
        ((l'.toList = l.toList ∧ r.toList = r'.toList) ∨ (l'.toList = l.toList ++ ['_'] ∧ r.toList = '_' :: r'.toList) ∨
          ∃ moved, l'.toList = l.toList ++ '_' :: '_' :: moved ∧ r.toList = moved ++ '_' :: '_' :: r'.toList) →
        (l = l' ∧ r = r') ∨ Shifted l r l' r' := by
      intro l r l' r' cases'
      rcases cases' with same | half | whole
      · exact .inl ⟨String.toList_inj.mp same.1.symm,String.toList_inj.mp same.2⟩
      · refine .inr (.inl ⟨String.toList_inj.mp ?_,String.toList_inj.mp ?_⟩)
        · rw [half.1,String.toList_append,single]
        · rw [half.2,String.toList_append,single,List.singleton_append]
      · obtain ⟨moved,before,after⟩ := whole
        refine .inr (.inr ⟨String.ofList moved,String.toList_inj.mp ?_,String.toList_inj.mp ?_⟩)
        · simp only [before,String.toList_append,String.toList_ofList,separator,List.append_assoc,List.cons_append,
            List.nil_append]
        · simp only [after,String.toList_append,String.toList_ofList,separator,List.append_assoc,List.cons_append,
            List.nil_append]
    rcases List.append_eq_append_iff.mp chars with later | earlier
    · obtain ⟨between,before,after⟩ := later
      rcases asShift (laterSeparator before after) with same | shifted
      · exact .inl same
      · exact .inr (.inl shifted)
    · obtain ⟨between,before,after⟩ := earlier
      rcases asShift (laterSeparator before after) with same | shifted
      · exact .inl ⟨same.1.symm,same.2.symm⟩
      · exact .inr (.inr shifted)
  · intro cases'
    rcases cases' with same | shifted | shifted
    · rw [same.1,same.2]
    · exact shiftedJoined shifted
    · exact (shiftedJoined shifted).symm

def Regrouped (left right : Namespace) : Prop :=
  Shifted left.sourcePrefix (left.sourceDatabase ++ "__" ++ left.schema) right.sourcePrefix
      (right.sourceDatabase ++ "__" ++ right.schema) ∨
    (left.sourcePrefix = right.sourcePrefix ∧ Shifted left.sourceDatabase left.schema right.sourceDatabase right.schema)

theorem rawSchemaEqual (left right : Namespace) :
    rawSchema left = rawSchema right ↔ left = right ∨ Regrouped left right ∨ Regrouped right left := by
  have grouped : ∀ space : Namespace, rawSchema space =
      space.sourcePrefix ++ "__" ++ (space.sourceDatabase ++ "__" ++ space.schema) := by
    intro space
    simp only [rawSchema,String.append_assoc]
  rw [grouped,grouped,joinedEqual,joinedEqual]
  obtain ⟨sourcePrefix,database,schema⟩ := left
  obtain ⟨sourcePrefix',database',schema'⟩ := right
  simp only [Regrouped,Namespace.mk.injEq]
  constructor
  · intro joined
    rcases joined with ⟨samePrefix,same | shifted | shifted⟩ | shifted | shifted
    · exact .inl ⟨samePrefix,same⟩
    · exact .inr (.inl (.inr ⟨samePrefix,shifted⟩))
    · exact .inr (.inr (.inr ⟨samePrefix.symm,shifted⟩))
    · exact .inr (.inl (.inl shifted))
    · exact .inr (.inr (.inl shifted))
  · intro regrouped
    rcases regrouped with same | (shifted | shifted) | (shifted | shifted)
    · exact .inl ⟨same.1,.inl same.2⟩
    · exact .inr (.inl shifted)
    · exact .inl ⟨shifted.1,.inr (.inl shifted.2)⟩
    · exact .inr (.inr shifted)
    · exact .inl ⟨shifted.1.symm,.inr (.inr shifted.2)⟩

end Joined

section Mapped
variable {sha256 : Bytes → Bytes} {toVec : Json → Bytes}

theorem mapNameSource {job : JobSettings} {source target : QualifiedName} (ok : mapName sha256 job source = .ok target) :
    target.schema = shortenIdentifier sha256 (rawSchema (namespaceOf job source)) ∧ target.name = source.name := by
  obtain ⟨_,_,ok⟩ := bindOk.mp ok
  obtain ⟨_,_,ok⟩ := bindOk.mp ok
  exact QualifiedName.newSource ok

def PlannedValid (table : PlannedTable) : Prop :=
  NameValid table.target.schema ∧ NameValid table.shadow.schema ∧ NameValid table.shadow.name ∧
    NameValid table.stagingName

theorem identifierNameValid {name : String} (valid : IdentifierValid name) : NameValid name :=
  ⟨name.isValidUTF8,valid.1,valid.2.2⟩

theorem stageNameValid (job : JobSettings) (attempt : Nat) (source : TableSchema) :
    NameValid (stageName sha256 job attempt source) := by
  refine shortenedValid _ ?_
  intro empty
  have chars := congrArg String.toList empty
  rw [String.toList_append] at chars
  cases chars

theorem planTableValid {job attempt planned source planned'}
    (ok : planTable sha256 toVec job attempt planned source = .ok planned') :
    ∃ table, planned' = planned ++ [table] ∧ PlannedValid table := by
  unfold planTable at ok
  cases explicit : explicitTarget job source.name <;> simp only [explicit] at ok
  all_goals
    obtain ⟨target,_,ok⟩ := bindOk.mp ok
    obtain ⟨_,ok⟩ := iteOk.mp ok
    obtain ⟨shadow,_,ok⟩ := bindOk.mp ok
    obtain ⟨_,ok⟩ := iteOk.mp ok
    obtain ⟨_,ok⟩ := iteOk.mp ok
    have staging := @stageNameValid sha256 job attempt source
    have targetSchema := identifierNameValid target.schemaValid
    have shadowSchema := identifierNameValid shadow.schemaValid
    have shadowNamed := identifierNameValid shadow.nameValid
    refine ⟨_,(Except.ok.inj ok).symm,?_⟩
    simp only [PlannedValid,targetSchema,shadowSchema,shadowNamed,staging,and_true]

theorem planTablesValid {job attempt tables planned} (ok : planTables sha256 toVec job attempt tables = .ok planned) :
    ∀ table ∈ planned, PlannedValid table := by
  unfold planTables at ok
  split at ok
  next => contradiction
  next =>
    refine @foldlMInvariant _ _ _ _ (fun _ (planned : List PlannedTable) => ∀ table ∈ planned, PlannedValid table)
      (fun past state source state' before step => ?_) tables [] [] planned (by simp) ok
    obtain ⟨table,rfl,valid⟩ := planTableValid step
    intro other mem
    rcases List.mem_append.mp mem with mem | mem
    · exact before other mem
    · rw [List.mem_singleton.mp mem]
      exact valid

/-- Every name of a plan is one that the target accepts. Two different namespaces keep different target schemas
exactly when no text can move over a separator of their joined names and neither name, kept whole, reads like the
shortened form of the other. -/
theorem namespacesApart (width : ∀ input, (sha256 input).length = 32) :
    (∀ toVec job attempt tables planned, planTables sha256 toVec job attempt tables = .ok planned →
      ∀ table ∈ planned, PlannedValid table) ∧
    ∀ job job' source source' target target', mapName sha256 job source = .ok target →
      mapName sha256 job' source' = .ok target' → namespaceOf job source ≠ namespaceOf job' source' →
      CollisionFree sha256 (rawSchema (namespaceOf job source)) (rawSchema (namespaceOf job' source')) →
      (target.schema ≠ target'.schema ↔
        ¬ Regrouped (namespaceOf job source) (namespaceOf job' source') ∧
        ¬ Regrouped (namespaceOf job' source') (namespaceOf job source) ∧
        ¬ Mimics sha256 (rawSchema (namespaceOf job source)) (rawSchema (namespaceOf job' source')) ∧
        ¬ Mimics sha256 (rawSchema (namespaceOf job' source')) (rawSchema (namespaceOf job source))) := by
  constructor
  · intro toVec job attempt tables planned ok
    exact planTablesValid ok
  · intro job job' source source' target target' mapped mapped' different free
    rw [Ne,(mapNameSource mapped).1,(mapNameSource mapped').1,shortenedEqual width free,rawSchemaEqual]
    simp only [different,false_or,not_or,and_assoc]

end Mapped

section Sample

theorem shopValid : IdentifierValid "shop" := by decide

theorem itemsValid : IdentifierValid "items" := by decide

def items : QualifiedName := ⟨"shop","items",shopValid,itemsValid⟩

def erp : JobSettings := ⟨7,1,"erp","app","dw",[]⟩

def crm : JobSettings := ⟨8,1,"crm","app","dw",[]⟩

theorem plannedAndApart : (∃ planned, planTables Sha256.digest compactBytes settings 1 [accounts] = .ok planned ∧
      ∀ table ∈ planned, PlannedValid table) ∧
    ∃ target target', mapName Sha256.digest erp items = .ok target ∧ mapName Sha256.digest crm items = .ok target' ∧
      (target.schema ≠ target'.schema ↔
        ¬ Regrouped (namespaceOf erp items) (namespaceOf crm items) ∧
        ¬ Regrouped (namespaceOf crm items) (namespaceOf erp items) ∧
        ¬ Mimics Sha256.digest (rawSchema (namespaceOf erp items)) (rawSchema (namespaceOf crm items)) ∧
        ¬ Mimics Sha256.digest (rawSchema (namespaceOf crm items)) (rawSchema (namespaceOf erp items))) := by
  constructor
  · obtain ⟨planned,ok⟩ := okOfToOption
      (show (planTables Sha256.digest compactBytes settings 1 [accounts]).toOption.isSome by decide +kernel)
    exact ⟨planned,ok,(namespacesApart Sha256.digestLength).1 compactBytes settings 1 [accounts] planned ok⟩
  · obtain ⟨target,mapped⟩ := okOfToOption (show (mapName Sha256.digest erp items).toOption.isSome by decide +kernel)
    obtain ⟨target',mapped'⟩ := okOfToOption (show (mapName Sha256.digest crm items).toOption.isSome by decide +kernel)
    have free : CollisionFree Sha256.digest (rawSchema (namespaceOf erp items)) (rawSchema (namespaceOf crm items)) := by
      intro same
      exact absurd same (by decide +kernel)
    exact ⟨target,target',mapped,mapped',
      (namespacesApart Sha256.digestLength).2 erp crm items items target target' mapped mapped' (by decide) free⟩

def erpApp : JobSettings := ⟨8,1,"erp__app","shop","dw",[]⟩

theorem europeValid : IdentifierValid "eu" := by decide

theorem shopEuropeValid : IdentifierValid "shop__eu" := by decide

theorem mergedValid : IdentifierValid "erp__app__shop__eu" := by decide

def europe : QualifiedName := ⟨"eu","items",europeValid,itemsValid⟩

def shopEurope : QualifiedName := ⟨"shop__eu","items",shopEuropeValid,itemsValid⟩

theorem prefixesMerged : newSourcePrefix erp.sourcePrefix = .ok "erp" ∧
    newSourcePrefix erpApp.sourcePrefix = .ok "erp__app" ∧ namespaceOf erp shopEurope ≠ namespaceOf erpApp europe ∧
    mapName Sha256.digest erp shopEurope = .ok ⟨"erp__app__shop__eu","items",mergedValid,itemsValid⟩ ∧
    mapName Sha256.digest erpApp europe = .ok ⟨"erp__app__shop__eu","items",mergedValid,itemsValid⟩ := by
  decide +kernel

def longSchema : String := String.ofList (List.replicate 63 's')

def mimicSchema : String :=
  String.ofList ((shortenIdentifier Sha256.digest ("erp__app__" ++ longSchema)).toList.drop 10)

example : ((QualifiedName.new longSchema "items").bind (mapName Sha256.digest erp)).toOption.isSome ∧
    (QualifiedName.new longSchema "items").bind (mapName Sha256.digest erp) =
      (QualifiedName.new mimicSchema "items").bind (mapName Sha256.digest erp) ∧ longSchema ≠ mimicSchema := by
  decide +kernel

end Sample

end CloudberryEtl.Namespaces
