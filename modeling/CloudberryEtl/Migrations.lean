import CloudberryEtl.VersionedScripts
import CloudberryEtl.Sha256
import CloudberryEtl.Manifest

/-! The migrations of the control database and of the target's metadata, from `metadata::migration` and
`target-cloudberry::migration`. Both take an advisory lock that ends with the transaction, so a script is one step. -/
namespace CloudberryEtl.Migrations
open Change Result VersionedScripts
open Manifest (strBytes)

structure Migration where
  version : Int
  name : String
  sql : String
  deriving DecidableEq, Repr

structure MigrationRow where
  version : Int
  name : String
  checksum : Bytes
  deriving DecidableEq, Repr

def scheme {Data : Type} (execute : String → Data → Option Data) :
    Scheme Migration Int Bytes MigrationRow Data where
  version := Migration.version
  checksum := fun migration => Sha256.digest (strBytes migration.sql)
  row := fun migration => ⟨migration.version,migration.name,Sha256.digest (strBytes migration.sql)⟩
  rowVersion := MigrationRow.version
  rowChecksum := MigrationRow.checksum
  execute := fun migration => execute migration.sql
  versionKept := fun _ => rfl
  checksumKept := fun _ => rfl

section Scripts

def controlV1 : String := "
CREATE SCHEMA IF NOT EXISTS cloudberry_etl_control;

CREATE TABLE IF NOT EXISTS cloudberry_etl_control.schema_migrations (
    version bigint PRIMARY KEY,
    name text NOT NULL,
    checksum bytea NOT NULL,
    applied_at timestamptz NOT NULL DEFAULT clock_timestamp()
);

CREATE TABLE IF NOT EXISTS cloudberry_etl_control.sources (
    id uuid PRIMARY KEY,
    name text NOT NULL UNIQUE,
    prefix text NOT NULL UNIQUE,
    database_name text NOT NULL,
    topology text NOT NULL CHECK (topology IN ('standalone', 'physical_ha', 'citus')),
    dsn_key_version integer NOT NULL,
    dsn_nonce bytea NOT NULL,
    dsn_ciphertext bytea NOT NULL,
    settings jsonb NOT NULL DEFAULT '\x7b\x7d'::jsonb,
    enabled boolean NOT NULL DEFAULT true,
    created_at timestamptz NOT NULL DEFAULT clock_timestamp(),
    updated_at timestamptz NOT NULL DEFAULT clock_timestamp()
);

CREATE TABLE IF NOT EXISTS cloudberry_etl_control.targets (
    id uuid PRIMARY KEY,
    name text NOT NULL UNIQUE,
    database_name text NOT NULL,
    dsn_key_version integer NOT NULL,
    dsn_nonce bytea NOT NULL,
    dsn_ciphertext bytea NOT NULL,
    settings jsonb NOT NULL DEFAULT '\x7b\x7d'::jsonb,
    enabled boolean NOT NULL DEFAULT true,
    created_at timestamptz NOT NULL DEFAULT clock_timestamp(),
    updated_at timestamptz NOT NULL DEFAULT clock_timestamp()
);

CREATE TABLE IF NOT EXISTS cloudberry_etl_control.pipelines (
    id uuid PRIMARY KEY,
    name text NOT NULL UNIQUE,
    source_id uuid NOT NULL REFERENCES cloudberry_etl_control.sources(id),
    target_id uuid NOT NULL REFERENCES cloudberry_etl_control.targets(id),
    desired_running boolean NOT NULL DEFAULT false,
    config_revision bigint NOT NULL DEFAULT 1 CHECK (config_revision > 0),
    settings jsonb NOT NULL DEFAULT '\x7b\x7d'::jsonb,
    created_at timestamptz NOT NULL DEFAULT clock_timestamp(),
    updated_at timestamptz NOT NULL DEFAULT clock_timestamp(),
    UNIQUE (source_id, target_id)
);

CREATE TABLE IF NOT EXISTS cloudberry_etl_control.config_revisions (
    pipeline_id uuid NOT NULL REFERENCES cloudberry_etl_control.pipelines(id) ON DELETE CASCADE,
    revision bigint NOT NULL,
    definition jsonb NOT NULL,
    created_at timestamptz NOT NULL DEFAULT clock_timestamp(),
    PRIMARY KEY (pipeline_id, revision)
);

CREATE TABLE IF NOT EXISTS cloudberry_etl_control.pipeline_leases (
    pipeline_id uuid PRIMARY KEY REFERENCES cloudberry_etl_control.pipelines(id) ON DELETE CASCADE,
    holder_id uuid NOT NULL,
    fencing_token bigint NOT NULL CHECK (fencing_token > 0),
    expires_at timestamptz NOT NULL,
    updated_at timestamptz NOT NULL DEFAULT clock_timestamp()
);

CREATE TABLE IF NOT EXISTS cloudberry_etl_control.operations (
    id uuid PRIMARY KEY,
    pipeline_id uuid REFERENCES cloudberry_etl_control.pipelines(id) ON DELETE SET NULL,
    operation_type text NOT NULL,
    state text NOT NULL,
    detail jsonb NOT NULL DEFAULT '\x7b\x7d'::jsonb,
    created_at timestamptz NOT NULL DEFAULT clock_timestamp(),
    updated_at timestamptz NOT NULL DEFAULT clock_timestamp()
);

CREATE TABLE IF NOT EXISTS cloudberry_etl_control.audit_log (
    id bigint GENERATED ALWAYS AS IDENTITY PRIMARY KEY,
    occurred_at timestamptz NOT NULL DEFAULT clock_timestamp(),
    action text NOT NULL,
    object_type text NOT NULL,
    object_id text,
    detail jsonb NOT NULL DEFAULT '\x7b\x7d'::jsonb
);
"

def controlV2 : String := "
ALTER TABLE cloudberry_etl_control.pipelines
    ADD COLUMN IF NOT EXISTS snapshot_generation bigint NOT NULL DEFAULT 1;

DO $$
BEGIN
    IF NOT EXISTS (
        SELECT 1
          FROM pg_constraint
         WHERE conrelid = 'cloudberry_etl_control.pipelines'::regclass
           AND conname = 'pipelines_snapshot_generation_positive'
    ) THEN
        ALTER TABLE cloudberry_etl_control.pipelines
            ADD CONSTRAINT pipelines_snapshot_generation_positive
            CHECK (snapshot_generation > 0);
    END IF;
END
$$;
"

def targetV1Sql : String := "
CREATE SCHEMA IF NOT EXISTS pg2cb_meta;

CREATE TABLE IF NOT EXISTS pg2cb_meta.schema_migrations (
    version bigint PRIMARY KEY,
    name text NOT NULL,
    checksum bytea NOT NULL,
    applied_at timestamptz NOT NULL DEFAULT clock_timestamp()
)
USING heap
DISTRIBUTED BY (version);

CREATE TABLE IF NOT EXISTS pg2cb_meta.pipeline_state (
    pipeline_id uuid PRIMARY KEY,
    topology_generation bigint NOT NULL CHECK (topology_generation >= 0),
    fencing_token bigint NOT NULL CHECK (fencing_token > 0),
    updated_at timestamptz NOT NULL DEFAULT clock_timestamp()
)
USING heap
DISTRIBUTED BY (pipeline_id);

CREATE TABLE IF NOT EXISTS pg2cb_meta.node_checkpoints (
    pipeline_id uuid NOT NULL,
    topology_generation bigint NOT NULL CHECK (topology_generation >= 0),
    node_id integer NOT NULL,
    system_identifier numeric(20, 0) NOT NULL CHECK (system_identifier >= 0),
    timeline bigint NOT NULL CHECK (timeline > 0 AND timeline <= 4294967295),
    slot_name text NOT NULL CHECK (slot_name <> ''),
    applied_lsn pg_lsn NOT NULL,
    fencing_token bigint NOT NULL CHECK (fencing_token > 0),
    updated_at timestamptz NOT NULL DEFAULT clock_timestamp(),
    PRIMARY KEY (pipeline_id, topology_generation, node_id)
)
USING heap
DISTRIBUTED BY (pipeline_id, topology_generation, node_id);

CREATE TABLE IF NOT EXISTS pg2cb_meta.managed_tables (
    target_schema text NOT NULL,
    target_table text NOT NULL,
    pipeline_id uuid NOT NULL,
    source_relation_id bigint NOT NULL CHECK (source_relation_id > 0),
    table_generation bigint NOT NULL CHECK (table_generation >= 0),
    schema_fingerprint text NOT NULL CHECK (schema_fingerprint <> ''),
    state text NOT NULL CHECK (state IN ('shadow', 'active', 'blocked', 'quarantined')),
    fencing_token bigint NOT NULL CHECK (fencing_token > 0),
    updated_at timestamptz NOT NULL DEFAULT clock_timestamp(),
    PRIMARY KEY (target_schema, target_table)
)
USING heap
DISTRIBUTED BY (target_schema, target_table);
"

def targetV2Sql : String := "
CREATE TABLE IF NOT EXISTS pg2cb_meta.managed_types (
    type_schema text NOT NULL,
    type_name text NOT NULL,
    pipeline_id uuid NOT NULL,
    definition_checksum bytea NOT NULL CHECK (octet_length(definition_checksum) = 32),
    fencing_token bigint NOT NULL CHECK (fencing_token > 0),
    updated_at timestamptz NOT NULL DEFAULT clock_timestamp(),
    PRIMARY KEY (type_schema, type_name)
)
USING heap
DISTRIBUTED BY (type_schema, type_name);
"

def targetV3Sql : String := "
ALTER TABLE pg2cb_meta.managed_tables
    ADD COLUMN IF NOT EXISTS snapshot_group_id uuid;

CREATE TABLE IF NOT EXISTS pg2cb_meta.snapshot_groups (
    snapshot_group_id uuid PRIMARY KEY,
    pipeline_id uuid NOT NULL,
    topology_generation bigint NOT NULL CHECK (topology_generation >= 0),
    fencing_token bigint NOT NULL CHECK (fencing_token > 0),
    state text NOT NULL CHECK (state IN ('loading', 'active')),
    table_count bigint NOT NULL CHECK (table_count > 0),
    node_count bigint NOT NULL CHECK (node_count > 0),
    manifest_checksum bytea NOT NULL CHECK (octet_length(manifest_checksum) = 32),
    created_at timestamptz NOT NULL DEFAULT clock_timestamp(),
    updated_at timestamptz NOT NULL DEFAULT clock_timestamp(),
    activated_at timestamptz
)
USING heap
DISTRIBUTED BY (snapshot_group_id);

CREATE INDEX IF NOT EXISTS snapshot_groups_pipeline_generation_idx
    ON pg2cb_meta.snapshot_groups (pipeline_id, topology_generation);

CREATE TABLE IF NOT EXISTS pg2cb_meta.snapshot_group_tables (
    snapshot_group_id uuid NOT NULL,
    target_schema text NOT NULL,
    target_table text NOT NULL,
    shadow_schema text NOT NULL,
    shadow_table text NOT NULL,
    source_relation_id bigint NOT NULL CHECK (source_relation_id > 0),
    table_generation bigint NOT NULL CHECK (table_generation >= 0),
    schema_fingerprint text NOT NULL CHECK (schema_fingerprint <> ''),
    PRIMARY KEY (snapshot_group_id, target_schema, target_table),
    UNIQUE (snapshot_group_id, shadow_schema, shadow_table),
    UNIQUE (snapshot_group_id, source_relation_id)
)
USING heap
DISTRIBUTED BY (snapshot_group_id);

CREATE TABLE IF NOT EXISTS pg2cb_meta.snapshot_group_nodes (
    snapshot_group_id uuid NOT NULL,
    node_id integer NOT NULL,
    system_identifier numeric(20, 0) NOT NULL CHECK (system_identifier >= 0),
    timeline bigint NOT NULL CHECK (timeline > 0 AND timeline <= 4294967295),
    slot_name text NOT NULL CHECK (slot_name <> ''),
    consistent_lsn pg_lsn NOT NULL,
    PRIMARY KEY (snapshot_group_id, node_id)
)
USING heap
DISTRIBUTED BY (snapshot_group_id);
"

def targetV4Sql : String := "
CREATE TABLE IF NOT EXISTS pg2cb_meta.snapshot_reconciliation_log (
    snapshot_group_id uuid NOT NULL,
    original_schema text NOT NULL,
    original_table text NOT NULL,
    quarantine_schema text NOT NULL,
    quarantine_table text NOT NULL,
    pipeline_id uuid NOT NULL,
    topology_generation bigint NOT NULL CHECK (topology_generation >= 0),
    source_relation_id bigint NOT NULL CHECK (source_relation_id > 0),
    previous_snapshot_group_id uuid,
    table_generation bigint NOT NULL CHECK (table_generation >= 0),
    schema_fingerprint text NOT NULL CHECK (schema_fingerprint <> ''),
    reason text NOT NULL CHECK (reason IN ('replaced', 'stale')),
    fencing_token bigint NOT NULL CHECK (fencing_token > 0),
    recorded_at timestamptz NOT NULL DEFAULT clock_timestamp(),
    PRIMARY KEY (snapshot_group_id, original_schema, original_table)
)
USING heap
DISTRIBUTED BY (snapshot_group_id);
"

def targetV5Sql : String := "
ALTER TABLE pg2cb_meta.managed_tables
    ADD COLUMN IF NOT EXISTS relation_oid bigint;

ALTER TABLE pg2cb_meta.snapshot_reconciliation_log
    ADD COLUMN IF NOT EXISTS quarantine_relation_oid bigint,
    ADD COLUMN IF NOT EXISTS previous_fencing_token bigint,
    ADD COLUMN IF NOT EXISTS purged_at timestamptz,
    ADD COLUMN IF NOT EXISTS purged_by_fencing_token bigint;

CREATE INDEX IF NOT EXISTS managed_tables_pipeline_group_state_idx
    ON pg2cb_meta.managed_tables (pipeline_id, snapshot_group_id, state);

CREATE INDEX IF NOT EXISTS snapshot_reconciliation_gc_idx
    ON pg2cb_meta.snapshot_reconciliation_log (pipeline_id, recorded_at, snapshot_group_id);

CREATE INDEX IF NOT EXISTS snapshot_groups_loading_idx
    ON pg2cb_meta.snapshot_groups (pipeline_id, topology_generation, state, created_at);
"

end Scripts

section Databases

def controlMigrations : List Migration :=
  [⟨1,"initial_control_schema",controlV1⟩,⟨2,"pipeline_snapshot_generation",controlV2⟩]

def targetMigrations : List Migration :=
  [⟨1,"initial_target_metadata",targetV1Sql⟩,⟨2,"managed_user_types",targetV2Sql⟩,
    ⟨3,"snapshot_group_manifests",targetV3Sql⟩,⟨4,"snapshot_reconciliation_log",targetV4Sql⟩,
    ⟨5,"identity_safe_snapshot_cleanup",targetV5Sql⟩]

def controlSchemaVersion : Int := 2

variable {Data : Type} (execute : String → Data → Option Data)

def migrateControlDatabase (store : Store MigrationRow Data) : Store MigrationRow Data × Except (Failure Int) Unit :=
  applyAll (scheme execute) controlMigrations store

def migrateTargetDatabase (store : Store MigrationRow Data) : Store MigrationRow Data × Except (Failure Int) Unit :=
  applyAll (scheme execute) targetMigrations store

def latestVersion (rows : List MigrationRow) : Int := (rows.map MigrationRow.version).max?.getD 0

def ensureControlDatabaseMigrated (store : Store MigrationRow Data) : Except String Unit :=
  match store.history with
  | none => .error "control database is not migrated; run `etl-server-cloudberry migrate`"
  | some rows =>
    if latestVersion rows ≠ controlSchemaVersion then
      .error ("unsupported control database migration version " ++ toString (latestVersion rows) ++ "; expected " ++
        toString controlSchemaVersion)
    else .ok ()

inductive StoreError where
  | database
  | incompatibleSchemaVersion (expected actual : Int)
  | readOnly
  deriving DecidableEq, Repr

def checkReadiness (readOnly : Bool) (store : Store MigrationRow Data) : Except StoreError Unit :=
  match store.history with
  | none => .error .database
  | some rows =>
    if latestVersion rows ≠ controlSchemaVersion then
      .error (.incompatibleSchemaVersion controlSchemaVersion (latestVersion rows))
    else if readOnly then .error .readOnly
    else .ok ()

end Databases

section Sessions
variable {Data : Type} {execute : String → Data → Option Data}

def migrated (execute : String → Data → Option Data) (start : Data) (events : List (Event Migration Data)) :
    System Migration Int MigrationRow Data :=
  run (scheme execute) (initial Migration Int MigrationRow start) events

/-- Whatever scripts the sessions bring, wherever they are killed and whatever other programs change in between: each
recorded version has been executed once, the database is what these scripts have made of it in the order of the history,
a session that is through has seen the checksum of each of its scripts recorded, and one that a checksum has stopped has
another text than the one executed. -/
theorem scriptsRunOnce (start : Data) (events : List (Event Migration Data)) :
    let system := migrated execute start events
    system.store.rows = system.executed.map (scheme execute).row ∧ (system.executed.map Migration.version).Nodup ∧
    Built (scheme execute) start system.executed system.store.data ∧
    (∀ id listed, system.sessions id = some (.running listed []) → ∀ migration ∈ listed, ∃ ran ∈ system.executed,
      ran.version = migration.version ∧ Sha256.digest (strBytes ran.sql) = Sha256.digest (strBytes migration.sql)) ∧
    ∀ id done migration rest version,
      system.sessions id = some (.stopped done migration rest (.checksumMismatch version)) → version = migration.version ∧
        ∃ ran ∈ system.executed, ran.version = version ∧ ran.sql ≠ migration.sql := by
  intro system
  have sound : Sound (scheme execute) start system := runSound events (initialSound start)
  refine ⟨sound.rows,sound.once,sound.built,?_,?_⟩
  · intro id listed through migration mem
    obtain ⟨row,there,version,checksum⟩ := sound.sessions id _ through migration mem
    rw [sound.rows] at there
    obtain ⟨ran,member,rfl⟩ := List.mem_map.mp there
    exact ⟨ran,member,version,checksum⟩
  · intro id done migration rest version stopped
    obtain ⟨same,row,there,taken,differs⟩ := (sound.sessions id _ stopped).2 version rfl
    rw [sound.rows] at there
    obtain ⟨ran,member,rfl⟩ := List.mem_map.mp there
    exact ⟨same,ran,member,taken.trans same.symm,fun text => differs (congrArg (Sha256.digest ∘ strBytes) text)⟩

theorem controlLatest {executed : List Migration} (before : executed <+: controlMigrations) :
    latestVersion (executed.map (scheme execute).row) = controlSchemaVersion ↔ executed = controlMigrations := by
  have beginning := List.prefix_iff_eq_take.mp before
  have short : executed.length ≤ 2 := before.length_le
  rw [beginning]
  interval_cases executed.length <;> simp [controlMigrations,latestVersion,scheme,controlSchemaVersion]

theorem laterLatest {executed : List Migration} (increasing : (executed.map Migration.version).Pairwise (· < ·))
    (release : controlMigrations <+: executed) :
    latestVersion (executed.map (scheme execute).row) = controlSchemaVersion ↔ executed = controlMigrations := by
  obtain ⟨later,rfl⟩ := release
  cases later with
  | nil => rw [List.append_nil]; exact controlLatest (List.prefix_refl _)
  | cons migration later =>
    have after : controlSchemaVersion < migration.version := by
      rw [List.map_append,List.pairwise_append] at increasing
      exact increasing.2.2 controlSchemaVersion (by decide) migration.version (by simp)
    refine iff_of_false (fun latest => ?_) (by simp)
    have most : ∀ latest, ((controlMigrations ++ migration :: later).map Migration.version).max? = some latest →
        migration.version ≤ latest := fun latest found => (List.max?_eq_some_iff.mp found).2 _ (by simp)
    have versions : ((controlMigrations ++ migration :: later).map (scheme execute).row).map MigrationRow.version =
        (controlMigrations ++ migration :: later).map Migration.version := by rw [List.map_map]; rfl
    rw [latestVersion,versions] at latest
    cases found : ((controlMigrations ++ migration :: later).map Migration.version).max? with
    | none => simp at found
    | some last =>
      rw [found,Option.getD_some] at latest
      have above := most last found
      omega

theorem latestOfPrefix {all executed : List Migration} (increasing : (all.map Migration.version).Pairwise (· < ·))
    (release : controlMigrations <+: all) (before : executed <+: all) :
    latestVersion (executed.map (scheme execute).row) = controlSchemaVersion ↔ executed = controlMigrations := by
  rcases le_total executed.length controlMigrations.length with shorter | longer
  · exact controlLatest (List.prefix_of_prefix_length_le before release shorter)
  · exact laterLatest (increasing.sublist (before.sublist.map _)) (List.prefix_of_prefix_length_le release before longer)

/-- Releases whose lists are beginnings of one list with increasing versions never stop each other: the scripts executed
are a beginning of the list too, and they contain the list of each session that is through. The control database passes
the checks of this release exactly when its scripts, and no later ones, have been executed. -/
theorem releasesInOrder {all : List Migration} (increasing : (all.map Migration.version).Pairwise (· < ·))
    (release : controlMigrations <+: all) (start : Data) (events : List (Event Migration Data))
    (beginnings : Beginnings all events) (readOnly : Bool) :
    let system := migrated execute start events
    system.executed <+: all ∧
    (∀ id listed, system.sessions id = some (.running listed []) → listed <+: system.executed) ∧
    (∀ id done migration rest failure, system.sessions id = some (.stopped done migration rest failure) →
      failure = .database) ∧
    (ensureControlDatabaseMigrated system.store = .ok () ↔ system.executed = controlMigrations) ∧
    (checkReadiness readOnly system.store = .ok () ↔ system.executed = controlMigrations ∧ readOnly = false) ∧
    ∀ store, migrateControlDatabase execute system.store = (store,.ok ()) →
      controlMigrations.map (scheme execute).row <+: store.rows := by
  intro system
  have distinct : (all.map (scheme execute).version).Nodup := increasing.imp fun less => ne_of_lt less
  have sound : Sound (scheme execute) start system := runSound events (initialSound start)
  have released : Released all system :=
    runReleased distinct events beginnings (initialSound start) (initialReleased all start)
  have latest := @latestOfPrefix Data execute all system.executed increasing release released.executed
  refine ⟨released.executed,fun id listed through => (released.sessions id _ through).2,
    fun id done migration rest failure stopped => (released.sessions id _ stopped).2,?_,?_,?_⟩
  · rw [← latest,← sound.rows]
    cases recorded : system.store.history with
    | none => simp [ensureControlDatabaseMigrated,recorded,Store.rows,latestVersion,controlSchemaVersion]
    | some rows => simp [ensureControlDatabaseMigrated,recorded,Store.rows]
  · rw [← latest,← sound.rows]
    cases recorded : system.store.history with
    | none => simp [checkReadiness,recorded,Store.rows,latestVersion,controlSchemaVersion]
    | some rows =>
      simp only [checkReadiness,recorded,Store.rows,Option.getD_some]
      by_cases current : latestVersion rows = controlSchemaVersion <;> simp [current]
  · intro store through
    obtain ⟨executed,listed,rows⟩ := loopReleased distinct sound released release through
    exact rows ▸ listed.map _

def laterMigrations : List Migration := controlMigrations ++ [⟨3,"pipeline_notes","CREATE TABLE notes (id bigint);"⟩]

def sampleEvents : List (Event Migration (List String)) :=
  [.start 0 controlMigrations,.turn 0,.start 1 laterMigrations,.kill 0,.turn 1,.other (fun log => log ++ ["VACUUM"]),
    .start 2 controlMigrations,.turn 2,.turn 1,.turn 2,.turn 1]

def logged (sql : String) (log : List String) : Option (List String) := some (log ++ [sql])

theorem sampleBeginnings : Beginnings laterMigrations sampleEvents := by
  intro id scripts mem
  simp only [sampleEvents,List.mem_cons,Event.start.injEq,reduceCtorEq,List.not_mem_nil,or_false,false_or] at mem
  rcases mem with ⟨_,rfl⟩ | ⟨_,rfl⟩ | ⟨_,rfl⟩
  · exact List.prefix_append _ _
  · exact List.prefix_refl _
  · exact List.prefix_append _ _

theorem sampleInOrder : (migrated logged [] sampleEvents).executed <+: laterMigrations ∧
    (ensureControlDatabaseMigrated (migrated logged [] sampleEvents).store = .ok () ↔
      (migrated logged [] sampleEvents).executed = controlMigrations) := by
  have released := @releasesInOrder _ logged laterMigrations (by decide) (List.prefix_append _ _) [] sampleEvents
    sampleBeginnings false
  exact ⟨released.1,released.2.2.2.1⟩

end Sessions

end CloudberryEtl.Migrations
