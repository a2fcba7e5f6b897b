import CloudberryEtl.Adapter

/-! The source settings of `engine::runtime::settings`, and the three places that decide whether a schema belongs to
the source: the settings, the catalog scan and the DDL scope of the job. -/
namespace CloudberryEtl.Settings
open Schema Change Result Adapter

inductive SettingsError where
  | invalid (path reason : String)
  deriving DecidableEq, Repr

inductive TlsMode where
  | disable | allow | prefer | require | verifyCa | verifyFull
  deriving DecidableEq, Repr

structure ConnectionSettings where
  host : String
  port : Nat
  username : String
  tlsMode : TlsMode
  deriving DecidableEq, Repr

structure TransactionSettings where
  maxChanges : Nat := 1000000
  maxBytes : Nat := 512 * 1024 * 1024
  deriving DecidableEq, Repr

structure WalRetentionSettings where
  checkIntervalSeconds : Nat := 10
  warningBytes : Nat := 8 * 1024 ^ 3
  rebuildBytes : Nat := 16 * 1024 ^ 3
  minimumSafeBytes : Nat := 1024 ^ 3
  deriving DecidableEq, Repr

def systemSchemas : List String := ["pg_catalog","information_schema","pg_toast","pg_temp","pg_toast_temp"]

def defaultSourceMetadataSchema : String := "pg2cb_meta"

def defaultExcludedSchemas : List String := systemSchemas ++ [defaultSourceMetadataSchema]

structure SourceSettings where
  connection : Option ConnectionSettings := none
  includeSchemas : Option (List String) := none
  excludeSchemas : List String := defaultExcludedSchemas
  metadataSchema : String := defaultSourceMetadataSchema
  transaction : TransactionSettings := {}
  walRetention : WalRetentionSettings := {}
  deriving DecidableEq, Repr

def startsWith (pattern value : String) : Bool := pattern.toList.isPrefixOf value.toList

def isSystemSchema (schema : String) : Bool :=
  decide (schema ∈ systemSchemas) || startsWith "pg_toast_" schema || startsWith "pg_temp_" schema

-- The characters with the property White_Space, which `trim` removes.
def isWhitespace (character : Char) : Bool :=
  let code := character.toNat
  (9 ≤ code && code ≤ 13) || code = 0x20 || code = 0x85 || code = 0xA0 || code = 0x1680 ||
    (0x2000 ≤ code && code ≤ 0x200A) || code = 0x2028 || code = 0x2029 || code = 0x202F || code = 0x205F || code = 0x3000

def blankOrNul (value : String) : Bool := value.toList.all isWhitespace || '\x00' ∈ value.toList

def ConnectionSettings.validate (connection : ConnectionSettings) (path : String) : Except SettingsError Unit :=
  if blankOrNul connection.host then .error (.invalid (path ++ ".host") "must not be empty or contain NUL")
  else if connection.port = 0 then .error (.invalid (path ++ ".port") "must be between 1 and 65535")
  else if blankOrNul connection.username then
    .error (.invalid (path ++ ".username") "must not be empty or contain NUL")
  else .ok ()

-- The length is part of `validate_identifier`, so the second check never fails.
def validateSchemaName (path value : String) : Except SettingsError Unit := do
  (validateIdentifier value).mapError (fun _ => .invalid path "must not be empty or contain NUL")
  if postgresIdentifierMaxBytes < value.utf8ByteSize then .error (.invalid path "must be at most 63 UTF-8 bytes")
  else .ok ()

def indexed (path : String) (index : Nat) : String := path ++ "[" ++ toString index ++ "]"

def validateSchemaList (path : String) (schemas : List String) : Except SettingsError Unit :=
  schemas.zipIdx.forM (fun (schema,index) => validateSchemaName (indexed path index) schema)

def validateNoDuplicates (path : String) (values : List String) : Except SettingsError Unit :=
  values.zipIdx.forM (fun (value,index) =>
    if value ∈ values.take index then .error (.invalid (indexed path index) ("duplicate schema `" ++ value ++ "`"))
    else .ok ())

def validateRange (path : String) (limit value : Nat) : Except SettingsError Unit :=
  if 1 ≤ value ∧ value ≤ limit then .ok ()
  else .error (.invalid path ("must be between 1 and " ++ toString limit))

def maxTransactionChanges : Nat := 10000000

def maxTransactionBytes : Nat := 2 ^ 36

def maxWalCheckIntervalSeconds : Nat := 3600

def maxWalRetentionBytes : Nat := 2 ^ 50

def TransactionSettings.validate (settings : TransactionSettings) (path : String) : Except SettingsError Unit := do
  validateRange (path ++ ".max_changes") maxTransactionChanges settings.maxChanges
  validateRange (path ++ ".max_bytes") maxTransactionBytes settings.maxBytes

def WalRetentionSettings.validate (settings : WalRetentionSettings) (path : String) : Except SettingsError Unit := do
  validateRange (path ++ ".check_interval_seconds") maxWalCheckIntervalSeconds settings.checkIntervalSeconds
  validateRange (path ++ ".warning_bytes") maxWalRetentionBytes settings.warningBytes
  validateRange (path ++ ".rebuild_bytes") maxWalRetentionBytes settings.rebuildBytes
  validateRange (path ++ ".minimum_safe_bytes") maxWalRetentionBytes settings.minimumSafeBytes
  if settings.rebuildBytes ≤ settings.warningBytes then
    .error (.invalid (path ++ ".warning_bytes") "must be smaller than rebuild_bytes")
  else .ok ()

def listed (schema : String) : String := "include_schemas[" ++ schema ++ "]"

def SourceSettings.validateInclude (settings : SourceSettings) (included : List String) : Except SettingsError Unit := do
  if included = [] then .error (.invalid "include_schemas" "must contain at least one schema when set")
  else
    validateNoDuplicates "include_schemas" included
    match included.find? (fun schema => schema ∈ settings.excludeSchemas) with
    | some schema => .error (.invalid (listed schema) "schema is also listed in exclude_schemas")
    | none =>
      match included.find? (fun schema => isSystemSchema schema || schema = settings.metadataSchema) with
      | some schema => .error (.invalid (listed schema) "system and metadata schemas are never eligible")
      | none => .ok ()

def SourceSettings.validate (settings : SourceSettings) : Except SettingsError Unit := do
  settings.connection.forM (fun connection => connection.validate "connection")
  validateSchemaName "metadata_schema" settings.metadataSchema
  if isSystemSchema settings.metadataSchema then
    .error (.invalid "metadata_schema" "must be a dedicated non-system schema")
  else
    settings.includeSchemas.forM (validateSchemaList "include_schemas")
    validateSchemaList "exclude_schemas" settings.excludeSchemas
    validateNoDuplicates "exclude_schemas" settings.excludeSchemas
    settings.includeSchemas.forM settings.validateInclude
    settings.transaction.validate "transaction"
    settings.walRetention.validate "wal_retention"

def SourceSettings.includesSchema (settings : SourceSettings) (schema : String) : Bool :=
  !isSystemSchema schema && schema ≠ settings.metadataSchema && schema ∉ settings.excludeSchemas &&
    match settings.includeSchemas with
    | some included => decide (schema ∈ included)
    | none => true

structure CatalogOptions where
  metadataSchema : String
  includeSchemas : Option (List String)
  excludeSchemas : List String
  includePartitions : Bool
  deriving DecidableEq, Repr

def catalogOptions (settings : SourceSettings) : CatalogOptions :=
  ⟨settings.metadataSchema,settings.includeSchemas,settings.excludeSchemas,false⟩

def eligibleSchema (schema : String) (options : CatalogOptions) : Bool :=
  if schema = options.metadataSchema ∨ schema ∈ options.excludeSchemas then false
  else match options.includeSchemas with
  | some included => schema ∈ included
  | none => true

def ddlScope (settings : SourceSettings) : DdlScope :=
  (DdlScope.fromLists settings.includeSchemas settings.excludeSchemas).exclude settings.metadataSchema

theorem validateSource {settings : SourceSettings} (valid : settings.validate = .ok ()) :
    isSystemSchema settings.metadataSchema = false ∧
      ∀ included, settings.includeSchemas = some included → ∀ schema ∈ included, isSystemSchema schema = false := by
  obtain ⟨_,_,valid⟩ := bindOk.mp valid
  obtain ⟨_,_,valid⟩ := bindOk.mp valid
  obtain ⟨metadata,valid⟩ := iteOk.mp valid
  obtain ⟨_,_,valid⟩ := bindOk.mp valid
  obtain ⟨_,_,valid⟩ := bindOk.mp valid
  obtain ⟨_,_,valid⟩ := bindOk.mp valid
  obtain ⟨_,selection,_⟩ := bindOk.mp valid
  refine ⟨by simpa using metadata,fun included chosen schema mem => ?_⟩
  rw [chosen] at selection
  obtain ⟨_,selection⟩ := iteOk.mp selection
  obtain ⟨_,_,selection⟩ := bindOk.mp selection
  split at selection <;> try contradiction
  split at selection <;> try contradiction
  rename_i noSystem
  have fits := List.find?_eq_none.mp noSystem schema mem
  simp only [Bool.or_eq_true,not_or,Bool.not_eq_true] at fits
  exact fits.1

theorem barrierIffEligible (settings : SourceSettings) {schema : String} {message : DdlMessage}
    (affected : message.affectedSchemas = [schema]) :
    (ddlScope settings).requiresBarrier message = eligibleSchema schema (catalogOptions settings) := by
  simp only [DdlScope.requiresBarrier,affected,List.isEmpty_cons,Bool.false_or,List.any_cons,List.any_nil,Bool.or_false,
    ddlScope,DdlScope.exclude,DdlScope.fromLists,DdlScope.covers,eligibleSchema,catalogOptions,List.mem_cons]
  cases settings.includeSchemas with
  | none => by_cases out : schema = settings.metadataSchema ∨ schema ∈ settings.excludeSchemas <;> simp [out]
  | some included => by_cases out : schema = settings.metadataSchema ∨ schema ∈ settings.excludeSchemas <;> simp [out]

theorem includesSplit (settings : SourceSettings) (schema : String) :
    settings.includesSchema schema = (!isSystemSchema schema && eligibleSchema schema (catalogOptions settings)) := by
  simp only [SourceSettings.includesSchema,eligibleSchema,catalogOptions]
  by_cases metadata : schema = settings.metadataSchema
  · simp [metadata]
  · by_cases out : schema ∈ settings.excludeSchemas
    · simp [out]
    · simp only [metadata,out,or_self,if_false]
      cases settings.includeSchemas <;> simp [metadata]

/-- The three predicates agree on a schema exactly when it is no system schema, or is listed as excluded, or the
settings select by an include list. -/
theorem scopesAgreeIff {settings : SourceSettings} (valid : settings.validate = .ok ()) (schema : String)
    {message : DdlMessage} (affected : message.affectedSchemas = [schema]) :
    (settings.includesSchema schema = eligibleSchema schema (catalogOptions settings) ∧
      eligibleSchema schema (catalogOptions settings) = (ddlScope settings).requiresBarrier message) ↔
    settings.includeSchemas.isSome ∨ isSystemSchema schema = false ∨ schema ∈ settings.excludeSchemas := by
  obtain ⟨metadata,selection⟩ := validateSource valid
  rw [barrierIffEligible settings affected,includesSplit]
  cases system : isSystemSchema schema with
  | false => simp
  | true =>
    have other : schema ≠ settings.metadataSchema := by
      rintro rfl
      rw [metadata] at system
      contradiction
    by_cases out : schema ∈ settings.excludeSchemas
    · simp [eligibleSchema,catalogOptions,out]
    · cases chosen : settings.includeSchemas with
      | none => simp [eligibleSchema,catalogOptions,chosen,out,other]
      | some included =>
        have absent : schema ∉ included := by
          intro mem
          rw [selection included chosen schema mem] at system
          contradiction
        simp [eligibleSchema,catalogOptions,chosen,out,other,absent]

def dropTable (schema : String) : DdlMessage := ⟨1,"DROP TABLE",[],[schema],""⟩

def salesSettings : SourceSettings := {includeSchemas := some ["sales"]}

/- A temporary schema beside an include list, and a system schema that the default settings exclude by name. -/
theorem scopesAgreeOnSystemSchemas : (salesSettings.includesSchema "pg_temp_3" =
      eligibleSchema "pg_temp_3" (catalogOptions salesSettings) ∧
    eligibleSchema "pg_temp_3" (catalogOptions salesSettings) =
      (ddlScope salesSettings).requiresBarrier (dropTable "pg_temp_3")) ∧
    (({} : SourceSettings).includesSchema "pg_catalog" = eligibleSchema "pg_catalog" (catalogOptions {}) ∧
    eligibleSchema "pg_catalog" (catalogOptions {}) = (ddlScope {}).requiresBarrier (dropTable "pg_catalog")) :=
  ⟨(scopesAgreeIff (by decide +kernel) "pg_temp_3" rfl).mpr (.inl rfl),
    (scopesAgreeIff (by decide +kernel) "pg_catalog" rfl).mpr (.inr (.inr (by decide +kernel)))⟩

theorem temporarySchemaDisagrees : ({} : SourceSettings).validate = .ok () ∧
    ({} : SourceSettings).includesSchema "pg_temp_3" = false ∧
    eligibleSchema "pg_temp_3" (catalogOptions {}) = true ∧
    (ddlScope {}).requiresBarrier (dropTable "pg_temp_3") = true := by decide +kernel

end CloudberryEtl.Settings
