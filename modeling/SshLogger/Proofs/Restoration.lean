import SshLogger.Backup

/-! A snapshot of the store has the current schema version, which the operator's
restore script does not know: it refuses every snapshot that the server can
produce. What it would go on to run gives back the same tables. -/

namespace SshLogger
open Library Library.Schema Library.History

variable {db after : Database}

theorem schemaVersion_congr (same : after.table? "schema_version" = db.table? "schema_version") :
    schemaVersion after = schemaVersion db := by
  simp only [schemaVersion, selectFirst, same]

/-- Everything `schemaVersion` has found. -/
theorem schemaVersion_eq_ok {version : Int} : schemaVersion db = .ok version ↔
    ∃ t i row rest, db.table? "schema_version" = some t ∧ t.position "version" = some i ∧ t.rows = row :: rest ∧
      row[i]? = some (.integer version) := by
  constructor
  · intro found
    simp only [schemaVersion, selectFirst] at found
    cases there : db.table? "schema_version" with
    | none => simp [there] at found
    | some t =>
      simp only [there] at found
      cases at_column : t.position "version" with
      | none => simp [at_column] at found
      | some i =>
        cases rows : t.rows with
        | nil => simp [at_column, rows] at found
        | cons row rest =>
          refine ⟨t, i, row, rest, rfl, at_column, rows, ?_⟩
          simp only [at_column, rows, Option.isNone_some, Bool.false_eq_true, if_false, List.head?_cons, Option.map_some,
            Table.cell, Option.bind_some] at found
          cases value : row[i]? with
          | none => simp [value] at found
          | some value' => cases value' <;> simp_all
  · rintro ⟨t, i, row, rest, there, at_column, rows, value⟩
    simp [schemaVersion, selectFirst, there, at_column, rows, Table.cell, value]

theorem setVersion_version {version old : Int} (found : schemaVersion db = .ok old)
    (ran : setVersion version db = .ok after) : schemaVersion after = .ok version := by
  obtain ⟨t, i, row, rest, there, at_column, rows, value⟩ := schemaVersion_eq_ok.mp found
  obtain ⟨t', there', done⟩ := onTable_ok ran
  obtain rfl : t' = t := Option.some.inj (there'.symm.trans there)
  simp only [at_column, Option.isNone_some, Bool.false_eq_true, if_false] at done
  obtain rfl := Except.ok.inj done
  refine schemaVersion_eq_ok.mpr ⟨{ t' with rows := t'.rows.map (t'.assign "version" (.integer version)) }, i,
    row.set i (.integer version), rest.map (t'.assign "version" (.integer version)), ?_, at_column, ?_, ?_⟩
  · rw [table?_modify _ (by exact fun _ => rfl), if_pos rfl, there]
    rfl
  · simp [rows, Table.assign, at_column]
  · have inside : i < row.length := (List.getElem?_eq_some_iff.mp value).1
    simp [inside]

def migratedTables : List String :=
  ["events", "auth_sessions", "server_control", "session_terminations", "admin_roles", "admin_servers",
    "firewall_policies", "firewall_history", "account_auth", "passkeys", "auth_pending", "auth_limits"]

def migrationBodies : List (List Statement) := [addPids, renewSessions, addTerminations, addRoles, addPasskeys]

theorem migration_frame {kept : String} (absent : kept ∉ migratedTables) :
    ∀ body ∈ migrationBodies, ∀ statement ∈ body, ∀ db after, statement db = .ok after → Frame kept db after := by
  simp only [migratedTables, List.mem_cons, List.not_mem_nil, or_false, not_or] at absent
  obtain ⟨events, sessions, control, terminations, roles, servers, policies, history, auth, keys, pending, limits⟩ := absent
  have column : ∀ {name column db after}, kept ≠ name → addColumn name column db = .ok after → Frame kept db after :=
    fun other ran => (addColumn_effect ran).frame other
  have table : ∀ {again name columns constraints db after}, kept ≠ name →
      createTable again name columns constraints db = .ok after → Frame kept db after :=
    fun other ran => (createTable_effect ran).1.frame other
  have index : ∀ {again index name keys db after}, kept ≠ name →
      createIndex again index name keys db = .ok after → Frame kept db after :=
    fun other ran => (createIndex_effect ran).1.frame other
  simp only [migrationBodies, addPids, renewSessions, addTerminations, addRoles, addPasskeys, List.forall_mem_cons]
  refine ⟨⟨?_, ?_, by simp⟩, ⟨?_, ?_, ?_, by simp⟩, ⟨?_, ?_, ?_, by simp⟩, ⟨?_, ?_, ?_, ?_, ?_, ?_, by simp⟩,
    ⟨?_, ?_, ?_, ?_, ?_, ?_, by simp⟩, by simp⟩
  · exact fun _ _ => column events
  · exact fun _ _ => column events
  · exact fun _ _ ran => dropTable_frame ran sessions
  · exact fun _ _ => table sessions
  · exact fun _ _ => index sessions
  · exact fun _ _ => table control
  · exact fun _ _ => table terminations
  · exact fun _ _ => index terminations
  · exact fun _ _ => table roles
  · exact fun _ _ => insertSelect_related fun _ _ effect => effect.frame roles
  · exact fun _ _ => table servers
  · exact fun _ _ => table policies
  · exact fun _ _ => table history
  · exact fun _ _ => index history
  · exact fun _ _ => table auth
  · exact fun _ _ => table keys
  · exact fun _ _ => index keys
  · exact fun _ _ => table pending
  · exact fun _ _ => index pending
  · exact fun _ _ => table limits

theorem migration_version {body : List Statement} (listed : body ∈ migrationBodies) {version old : Int}
    (found : schemaVersion db = .ok old) (ran : run (body ++ [setVersion version]) db = .ok after) :
    schemaVersion after = .ok version := by
  obtain ⟨middle, first, last⟩ := run_append.mp ran
  obtain ⟨_, set, rest⟩ := run_cons.mp last
  obtain rfl := Except.ok.inj rest
  have framed : Frame "schema_version" db middle := run_related (migration_frame (by decide) body listed) first
  exact setVersion_version ((schemaVersion_congr framed).trans found) set

theorem setVersion_grows {version : Int} (ran : setVersion version db = .ok after) : Grows db after :=
  fun _ => (updateAll_effect ran).has

theorem migration_grows {body : List Statement} (listed : body ∈ migrationBodies) (ran : run body db = .ok after) :
    Grows db after := by
  have table : ∀ {again name columns constraints db after},
      createTable again name columns constraints db = .ok after → Grows db after :=
    fun ran _ => (createTable_effect ran).1.has
  have index : ∀ {again index name keys db after}, createIndex again index name keys db = .ok after → Grows db after :=
    fun ran _ => (createIndex_effect ran).1.has
  have column : ∀ {name column db after}, addColumn name column db = .ok after → Grows db after :=
    fun ran _ => (addColumn_effect ran).has
  simp only [migrationBodies, List.mem_cons, List.not_mem_nil, or_false] at listed
  rcases listed with rfl | rfl | rfl | rfl | rfl
  · refine run_related ?_ ran
    simp only [addPids, List.forall_mem_cons]
    exact ⟨fun _ _ => column, fun _ _ => column, by simp⟩
  · -- the table that is dropped is created again
    obtain ⟨dropped, drop, rest⟩ := run_cons.mp ran
    obtain ⟨created, create, rest⟩ := run_cons.mp rest
    obtain ⟨indexed, makes, rest⟩ := run_cons.mp rest
    obtain rfl := Except.ok.inj rest
    intro name there
    refine index makes name ?_
    by_cases same : name = "auth_sessions"
    · exact same ▸ (createTable_effect create).2
    · refine table create name ?_
      rw [Database.has, dropTable_frame drop same]
      exact there
  · refine run_related ?_ ran
    simp only [addTerminations, List.forall_mem_cons]
    exact ⟨fun _ _ => table, fun _ _ => table, fun _ _ => index, by simp⟩
  · refine run_related ?_ ran
    simp only [addRoles, List.forall_mem_cons]
    exact ⟨fun _ _ => table, fun _ _ => insertSelect_related fun _ _ effect _ => effect.has, fun _ _ => table,
      fun _ _ => table, fun _ _ => table, fun _ _ => index, by simp⟩
  · refine run_related ?_ ran
    simp only [addPasskeys, List.forall_mem_cons]
    exact ⟨fun _ _ => table, fun _ _ => table, fun _ _ => index, fun _ _ => table, fun _ _ => index, fun _ _ => table,
      by simp⟩

/-- What the migrations leave: a version, the tables there were, and the settings. -/
structure Migrated (db after : Database) : Prop where
  version : (∃ old, schemaVersion db = .ok old) → ∃ version, schemaVersion after = .ok version
  grows : Grows db after
  settings : Frame "settings" db after

instance : IsPreorder Database Migrated where
  refl db := ⟨id, refl_of Grows db, rfl⟩
  trans _ _ _ first second := ⟨fun old => second.version (first.version old), trans_of Grows first.grows second.grows,
    trans_of (Frame "settings") first.settings second.settings⟩

theorem migration_migrated {body : List Statement} (listed : body ∈ migrationBodies) {version : Int}
    (ran : run (body ++ [setVersion version]) db = .ok after) : Migrated db after := by
  refine ⟨fun ⟨old, found⟩ => ⟨version, migration_version listed found ran⟩, ?_, ?_⟩
  all_goals
    obtain ⟨middle, first, last⟩ := run_append.mp ran
    obtain ⟨_, set, rest⟩ := run_cons.mp last
    obtain rfl := Except.ok.inj rest
  · exact trans_of Grows (migration_grows listed first) (setVersion_grows set)
  · have framed : Frame "settings" db middle := run_related (migration_frame (by decide) body listed) first
    exact trans_of (Frame "settings") framed ((updateAll_effect set).frame (by decide))

/-- The migrations of an older file end with the newest version. -/
theorem migrations_run {version : Int} (found : schemaVersion db = .ok version) (known : version ≤ 6)
    (ran : run (migrations version) db = .ok after) : Migrated db after ∧ schemaVersion after = .ok 6 := by
  have optional : ∀ {due : Prop} [Decidable due] {body : List Statement} {next : Int} {db after : Database},
      body ∈ migrationBodies → run (if due then body ++ [setVersion next] else []) db = .ok after → Migrated db after := by
    intro due _ body next db after listed ran
    split at ran
    · exact migration_migrated listed ran
    · exact Except.ok.inj ran ▸ refl_of Migrated db
  obtain ⟨fifth, ran, last⟩ := run_append.mp ran
  obtain ⟨fourth, ran, roles⟩ := run_append.mp ran
  obtain ⟨third, ran, terminations⟩ := run_append.mp ran
  obtain ⟨second, pids, sessions⟩ := run_append.mp ran
  have before : Migrated db fifth :=
    trans_of Migrated (optional (by simp [migrationBodies]) pids) (trans_of Migrated (optional (by simp [migrationBodies]) sessions)
      (trans_of Migrated (optional (by simp [migrationBodies]) terminations) (optional (by simp [migrationBodies]) roles)))
  refine ⟨trans_of Migrated before (optional (by simp [migrationBodies]) last), ?_⟩
  obtain ⟨old, there⟩ := before.version ⟨version, found⟩
  split at last
  next => exact migration_version (by simp [migrationBodies]) there last
  next newest =>
    -- nothing was to be done
    obtain rfl : version = 6 := by omega
    obtain rfl := Except.ok.inj last
    obtain rfl : db = second := Except.ok.inj pids
    obtain rfl : db = third := Except.ok.inj sessions
    obtain rfl : db = fourth := Except.ok.inj terminations
    obtain rfl : db = fifth := Except.ok.inj roles
    exact found

def baseTables : List String :=
  ["schema_version", "admins", "auth_sessions", "settings", "servers", "sessions", "events", "login_attempts"]

def HasSettings (db : Database) : Prop :=
  ∃ t, db.table? "settings" = some t ∧
    t.rows.any (fun old => t.cell "id" old == t.cell "id" [.integer 1, .integer 30]) = true

structure UpToDate (db : Database) : Prop where
  version : schemaVersion db = .ok 6
  tables : ∀ name ∈ baseTables, db.has name = true
  settings : HasSettings db

theorem insertSettings_settings (ran : insertOrIgnore "settings" "id" [.integer 1, .integer 30] db = .ok after) :
    HasSettings after := by
  obtain ⟨t, there, done⟩ := onTable_ok ran
  split at done
  next present =>
    obtain rfl := Except.ok.inj done
    exact ⟨t, there, present⟩
  · obtain rfl := Except.ok.inj done
    refine ⟨{ t with rows := t.rows ++ [[.integer 1, .integer 30]] }, ?_, ?_⟩
    · rw [table?_modify _ (by exact fun _ => rfl), if_pos rfl, there]
      rfl
    · rw [List.any_append]
      simp [Table.cell, Table.position]

theorem HasSettings.congr (settings : HasSettings db) (framed : Frame "settings" db after) : HasSettings after := by
  obtain ⟨t, there, present⟩ := settings
  exact ⟨t, framed.trans there, present⟩

theorem baseSchema_opens (ran : run baseSchema db = .ok after) :
    (∀ name ∈ baseTables, after.has name = true) ∧ HasSettings after := by
  have effects : ∀ statement ∈ baseSchema, ∀ db after, statement db = .ok after →
      Grows db after ∧ (HasSettings db → HasSettings after) := by
    have table : ∀ {again name columns constraints db after}, "settings" ≠ name →
        createTable again name columns constraints db = .ok after → Grows db after ∧ (HasSettings db → HasSettings after) :=
      fun other ran => ⟨fun _ => (createTable_effect ran).1.has, fun there => there.congr ((createTable_effect ran).1.frame other)⟩
    have index : ∀ {again index name keys db after}, "settings" ≠ name →
        createIndex again index name keys db = .ok after → Grows db after ∧ (HasSettings db → HasSettings after) :=
      fun other ran => ⟨fun _ => (createIndex_effect ran).1.has, fun there => there.congr ((createIndex_effect ran).1.frame other)⟩
    simp only [baseSchema, List.forall_mem_cons]
    refine ⟨fun _ _ => table (by decide), fun _ _ ran => ?_, fun _ _ => table (by decide), fun _ _ => table (by decide),
      fun db after ran => ?_, fun _ _ ran => ?_, fun _ _ => table (by decide), fun _ _ => table (by decide),
      fun _ _ => table (by decide), fun _ _ => index (by decide), fun _ _ => index (by decide), fun _ _ => index (by decide),
      fun _ _ => index (by decide), fun _ _ => index (by decide), fun _ _ => table (by decide), by simp⟩
    · exact ⟨fun _ => (insertIfEmpty_effect ran).has, fun there => there.congr ((insertIfEmpty_effect ran).frame (by decide))⟩
    · refine ⟨fun _ => (createTable_effect ran).1.has, fun settings => ?_⟩
      obtain ⟨t, there, -⟩ := id settings
      exact createTable_present (by simp [Database.has, there]) ran ▸ settings
    · exact ⟨fun _ => (insertOrIgnore_effect ran).has, fun _ => insertSettings_settings ran⟩
  have created : ∀ {name columns constraints}, createTable true name columns constraints ∈ baseSchema →
      after.has name = true :=
    fun listed => run_establishes listed (fun _ _ ran => (createTable_effect ran).2)
      (fun statement member _ _ ran => (effects statement member _ _ ran).1 _) ran
  refine ⟨?_, ?_⟩
  · simp only [baseTables, List.forall_mem_cons]
    exact ⟨created (List.mem_of_getElem? (i := 0) rfl), created (List.mem_of_getElem? (i := 2) rfl),
      created (List.mem_of_getElem? (i := 3) rfl), created (List.mem_of_getElem? (i := 4) rfl),
      created (List.mem_of_getElem? (i := 6) rfl), created (List.mem_of_getElem? (i := 7) rfl),
      created (List.mem_of_getElem? (i := 8) rfl), created (List.mem_of_getElem? (i := 14) rfl), by simp⟩
  · exact run_establishes (List.mem_of_getElem? (i := 5) rfl) (fun _ _ => insertSettings_settings)
      (fun statement member _ _ ran => (effects statement member _ _ ran).2) ran

theorem migrate_ok (ran : migrate db = .ok after) : ∃ version, schemaVersion db = .ok version ∧ version ≤ 6 ∧
    run (migrations version) db = .ok after := by
  simp only [migrate] at ran
  split at ran
  · cases ran
  next version found =>
    split at ran
    · cases ran
    next inside =>
      simp only [currentSchemaVersion, gt_iff_lt, Bool.or_eq_true, decide_eq_true_eq, not_or, not_lt] at inside
      exact ⟨version, found, inside.2, ran⟩

theorem openStore_upToDate (ran : openStore db = .ok after) : UpToDate after := by
  simp only [openStore] at ran
  split at ran
  · cases ran
  next based created =>
    obtain ⟨tables, settings⟩ := baseSchema_opens created
    obtain ⟨version, found, known, migrated⟩ := migrate_ok ran
    obtain ⟨kept, newest⟩ := migrations_run found known migrated
    exact ⟨newest, fun name listed => kept.grows name (tables name listed), settings.congr kept.settings⟩

/-- `openStore` creates nothing in a file that has the tables already. -/
theorem baseSchema_still (tables : ∀ name ∈ baseTables, db.has name = true) {version : Int}
    (found : schemaVersion db = .ok version) (settings : HasSettings db) :
    ∃ again, run baseSchema db = .ok again ∧ again.tables = db.tables := by
  have same_table : ∀ {other : Database} {name}, other.tables = db.tables → other.table? name = db.table? name :=
    fun same => congrArg (List.find? _) same
  have table : ∀ {name columns constraints}, name ∈ baseTables → ∀ other : Database, other.tables = db.tables →
      ∃ after, createTable true name columns constraints other = .ok after ∧ after.tables = db.tables := by
    intro name columns constraints listed other same
    have there : other.has name = true := by
      rw [Database.has, same_table same]
      exact tables name listed
    exact ⟨other, by simp [createTable, there], same⟩
  have index : ∀ {index name keys}, name ∈ baseTables → ∀ other : Database, other.tables = db.tables →
      ∃ after, createIndex true index name keys other = .ok after ∧ after.tables = db.tables := by
    intro index name keys listed other same
    obtain ⟨t, there⟩ := Option.isSome_iff_exists.mp (tables name listed)
    have there : other.table? name = some t := (same_table same).trans there
    simp only [createIndex, onTable, there]
    split
    · exact ⟨_, rfl, same⟩
    · exact ⟨_, rfl, same⟩
  refine run_still ?_ rfl
  simp only [baseSchema, List.forall_mem_cons]
  refine ⟨table (by decide), fun other same => ?_, table (by decide), table (by decide), table (by decide),
    fun other same => ?_, table (by decide), table (by decide), table (by decide), index (by decide), index (by decide),
    index (by decide), index (by decide), index (by decide), table (by decide), by simp⟩
  · obtain ⟨t, i, row, rest, there, -, rows, -⟩ := schemaVersion_eq_ok.mp found
    have there : other.table? "schema_version" = some t := (same_table same).trans there
    exact ⟨other, by simp [insertIfEmpty, onTable, there, rows], same⟩
  · obtain ⟨t, there, present⟩ := settings
    have there : other.table? "settings" = some t := (same_table same).trans there
    exact ⟨other, by simp only [insertOrIgnore, onTable, there, present, if_true], same⟩

theorem UpToDate.again (opened : UpToDate db) : ∃ again, openStore db = .ok again ∧ again.tables = db.tables := by
  obtain ⟨again, ran, same⟩ := baseSchema_still opened.tables opened.version opened.settings
  have version : schemaVersion again = .ok 6 :=
    (schemaVersion_congr (congrArg (List.find? _) same)).trans opened.version
  refine ⟨again, ?_, same⟩
  simp only [openStore, ran, migrate, version]
  rfl

theorem UpToDate.step {act : StoreAct} (opened : UpToDate db) (moved : StoreStep db act after) : UpToDate after := by
  cases moved with
  | reopen _ ran => exact openStore_upToDate ran
  | write table rows other also =>
    have effect : Effect table db (db.modify table fun t => { t with rows }) := .changed _ fun _ => rfl
    refine ⟨?_, fun name listed => effect.has (opened.tables name listed), opened.settings.congr (effect.frame also.symm)⟩
    exact (schemaVersion_congr (effect.frame other.symm)).trans opened.version
  | saveSettings days =>
    have effect : Effect "settings" db (db.modify "settings" (saveRetention days)) := .changed _ fun _ => rfl
    refine ⟨(schemaVersion_congr (effect.frame (by decide))).trans opened.version,
      fun name listed => effect.has (opened.tables name listed), ?_⟩
    obtain ⟨t, there, present⟩ := opened.settings
    refine ⟨saveRetention days t, by rw [table?_modify _ (by exact fun _ => rfl), if_pos rfl, there]; rfl, ?_⟩
    obtain ⟨row, member, keyed⟩ := List.any_eq_true.mp present
    refine List.any_eq_true.mpr ⟨_, List.mem_map_of_mem member, ?_⟩
    have same : (saveRetention days t).cell = t.cell := rfl
    simp only [same]
    split
    · rw [t.cell_assign (by decide)]
      exact keyed
    · exact keyed

theorem store_upToDate {history : List (Transition Database StoreAct)} (run : Run store history db) : UpToDate db := by
  refine run.invariant UpToDate ?_ fun _ _ _ opened moved => opened.step moved
  rintro db ⟨file, ran⟩
  exact openStore_upToDate ran

/-- The restored store has the rows of the one the snapshot was made of, in every table. -/
def RestoresContents (db : Database) : Prop :=
  ∃ restored, restore (backup db) = .ok restored ∧
    ∀ name, (restored.table? name).map Table.rows = (db.table? name).map Table.rows

/-- The script refuses what the server it stops to restore would take as it is. -/
theorem restore_refuses {history : List (Transition Database StoreAct)} (run : Run store history db) :
    ¬ RestoresContents db ∧ restore (backup db) = .error "지원하지 않는 백업 스키마" ∧ restoreSnapshot (backup db) = .ok db ∧
      ∃ again, openStore db = .ok again ∧ again.tables = db.tables := by
  have opened := store_upToDate run
  have refused : restore (backup db) = .error "지원하지 않는 백업 스키마" := by
    obtain ⟨t, i, row, rest, there, at_column, rows, value⟩ := schemaVersion_eq_ok.mp opened.version
    have found : selectFirst "schema_version" "version" db = .ok (some (.integer 6)) := by
      simp [selectFirst, there, at_column, rows, Table.cell, value]
    simp [restore, backup, found]
  refine ⟨?_, refused, ?_, opened.again⟩
  · rintro ⟨restored, accepted, -⟩
    rw [refused] at accepted
    cases accepted
  · simp [restoreSnapshot, backup, opened.version, currentSchemaVersion]

theorem newStore_opens : ∃ db, openStore ⟨[], []⟩ = .ok db := by
  cases opened : openStore ⟨[], []⟩ with
  | ok db => exact ⟨db, rfl⟩
  | error problem =>
    have succeeds : (openStore ⟨[], []⟩).isOk = true := by decide +kernel
    rw [opened] at succeeds
    cases succeeds

theorem restore_refuses_new : ∃ db, Run store [] db ∧ restore (backup db) = .error "지원하지 않는 백업 스키마" := by
  obtain ⟨db, ran⟩ := newStore_opens
  have run : Run store [] db := .start ⟨_, ran⟩
  exact ⟨db, run, (restore_refuses run).2.1⟩

theorem restore_not_identity : ¬ ∀ history db, Run store history db → RestoresContents db := by
  intro restores
  obtain ⟨db, ran⟩ := newStore_opens
  have run : Run store [] db := .start ⟨_, ran⟩
  obtain ⟨restored, accepted, -⟩ := restores _ _ run
  have gate : (match openStore ⟨[], []⟩ with
    | .ok db => match restore (backup db) with
      | .ok _ => false
      | .error _ => true
    | .error _ => true) = true := by decide +kernel
  simp [ran, accepted] at gate

end SshLogger
