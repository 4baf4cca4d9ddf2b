import SshLogger.Startup
import SshLogger.Proofs.Restoration
import Mathlib.Data.List.Forall2

/-! A file that an older server has written opens, and holds what it held: every
record reads as before, the sessions of no account are gone, and the accounts of a
time without roles are super administrators. -/

namespace SshLogger
open Library Library.Bytes Library.Schema

variable {db after file : Database} {version : Int}

def passkeyTables : List String := ["account_auth", "passkeys", "auth_pending", "auth_limits"]

/-- A file as a server of this schema version leaves it. -/
structure Released (version : Int) (file : Database) : Prop where
  found : schemaVersion file = .ok version
  known : 1 ≤ version ∧ version ≤ 6
  tables : ∀ name ∈ baseTables, file.has name = true
  settings : HasSettings file
  accounts : ∀ t, file.table? "admins" = some t → t.columns.map Column.name = ["username", "password_hash"]
  records : ∀ t, file.table? "events" = some t → ∀ row ∈ t.rows, row.length = t.columns.length
  pids : version = 1 → ∀ t, file.table? "events" = some t → t.position "pid" = none ∧ t.position "ppid" = none
  owners : version < 3 → ∀ i ∈ file.indexes, i.name = "auth_sessions_username" → i.table = "auth_sessions"
  roles : (5 ≤ version → file.has "admin_roles" = true) ∧ ∀ t, file.table? "admin_roles" = some t →
    t.columns.map Column.name = ["username", "role"] ∧ (version < 5 → t.rows = [])
  passkeys : version < 6 → (∀ name ∈ passkeyTables, file.has name = false) ∧
    file.hasIndex "passkeys_username" = false ∧ file.hasIndex "auth_pending_username" = false

/-- The tables in which an upgrade from this version changes rows. -/
def upgradedTables (version : Int) : List String :=
  (if version = 1 then ["events"] else []) ++ (if version < 3 then ["auth_sessions"] else []) ++
    (if version < 5 then ["admin_roles"] else [])

/-- What the current server finds of an older file. -/
structure Upgraded (version : Int) (file db : Database) : Prop where
  current : schemaVersion db = .ok 6
  kept : ∀ name t, name ≠ "schema_version" → name ∉ upgradedTables version → file.table? name = some t →
    db.table? name = some t
  events : version = 1 → ∀ t, file.table? "events" = some t → ∃ now, db.table? "events" = some now ∧
    List.Forall₂ (fun old new => (∀ column, (t.position column).isSome = true → now.cell column new = t.cell column old) ∧
      now.cell "pid" new = .null ∧ now.cell "ppid" new = .null) t.rows now.rows
  sessions : version < 3 → ∃ now, db.table? "auth_sessions" = some now ∧ (now.position "username").isSome = true ∧ now.rows = []
  roles : version < 5 → ∀ t, file.table? "admins" = some t → ∃ now, db.table? "admin_roles" = some now ∧
    now.columns.map Column.name = ["username", "role"] ∧ (∀ account ∈ t.rows, ∃ row ∈ now.rows, now.cell "username" row = t.cell "username" account) ∧
    ∀ row ∈ now.rows, now.cell "role" row = .text (utf8 "super_admin") ∧
      ∃ account ∈ t.rows, now.cell "username" row = t.cell "username" account

theorem addPids_changes (ran : run addPids db = .ok after) : Changes ["events"] [] [] db after := by
  refine run_related ?_ ran
  simp only [addPids, List.forall_mem_cons]
  exact ⟨fun _ _ ran => addColumn_changes ran (by decide), fun _ _ ran => addColumn_changes ran (by decide), by simp⟩

theorem renewSessions_changes (ran : run renewSessions db = .ok after) :
    Changes ["auth_sessions"] ["auth_sessions"] ["auth_sessions_username"] db after := by
  refine run_related ?_ ran
  simp only [renewSessions, List.forall_mem_cons]
  exact ⟨fun _ _ ran => (dropTable_changes ran (by decide)).1, fun _ _ ran => createTable_changes ran (by decide),
    fun _ _ ran => createIndex_changes ran (by decide), by simp⟩

theorem addTerminations_changes (ran : run addTerminations db = .ok after) :
    Changes [] ["server_control", "session_terminations"] ["termination_session"] db after := by
  refine run_related ?_ ran
  simp only [addTerminations, List.forall_mem_cons]
  exact ⟨fun _ _ ran => createTable_changes ran (by decide), fun _ _ ran => createTable_changes ran (by decide),
    fun _ _ ran => createIndex_changes ran (by decide), by simp⟩

theorem addRoles_changes (ran : run addRoles db = .ok after) :
    Changes ["admin_roles"] ["admin_roles", "admin_servers", "firewall_policies", "firewall_history"]
      ["firewall_history_server"] db after := by
  refine run_related ?_ ran
  simp only [addRoles, List.forall_mem_cons]
  exact ⟨fun _ _ ran => createTable_changes ran (by decide), fun _ _ ran => insertSelect_changes ran (by decide),
    fun _ _ ran => createTable_changes ran (by decide), fun _ _ ran => createTable_changes ran (by decide),
    fun _ _ ran => createTable_changes ran (by decide), fun _ _ ran => createIndex_changes ran (by decide), by simp⟩

theorem addPasskeys_changes (ran : run addPasskeys db = .ok after) :
    Changes [] passkeyTables ["passkeys_username", "auth_pending_username"] db after := by
  refine run_related ?_ ran
  simp only [addPasskeys, List.forall_mem_cons]
  exact ⟨fun _ _ ran => createTable_changes ran (by decide), fun _ _ ran => createTable_changes ran (by decide),
    fun _ _ ran => createIndex_changes ran (by decide), fun _ _ ran => createTable_changes ran (by decide),
    fun _ _ ran => createIndex_changes ran (by decide), fun _ _ ran => createTable_changes ran (by decide), by simp⟩

structure Stage (due : Prop) (body : List Statement) (touched created indexes : List String) (db after : Database) :
    Prop where
  done : due → ∃ middle, run body db = .ok middle ∧ Changes touched created indexes db middle ∧
    Changes ["schema_version"] [] [] middle after
  idle : ¬ due → after = db
  migrated : Migrated db after

section
variable {due : Prop} [Decidable due] {body : List Statement} {touched created indexes : List String} {next : Int}

theorem stage_of_run (listed : body ∈ migrationBodies)
    (changes : ∀ {db after}, run body db = .ok after → Changes touched created indexes db after)
    (ran : run (if due then body ++ [setVersion next] else []) db = .ok after) :
    Stage due body touched created indexes db after := by
  by_cases now : due
  · rw [if_pos now] at ran
    refine ⟨fun _ => ?_, fun late => absurd now late, migration_migrated listed ran⟩
    obtain ⟨middle, first, last⟩ := run_append.mp ran
    obtain ⟨_, set, rest⟩ := run_cons.mp last
    obtain rfl := Except.ok.inj rest
    exact ⟨middle, first, changes first, updateAll_changes set (by decide)⟩
  · rw [if_neg now] at ran
    obtain rfl := Except.ok.inj ran
    exact ⟨fun also => absurd also now, fun _ => rfl, refl_of Migrated db⟩

/-- The version can be set after a migration. -/
theorem stage_runs (listed : body ∈ migrationBodies) (readable : ∃ old, schemaVersion db = .ok old)
    (runs : due → ∃ after, run body db = .ok after) :
    ∃ after, run (if due then body ++ [setVersion next] else []) db = .ok after := by
  by_cases now : due
  · rw [if_pos now]
    obtain ⟨middle, first⟩ := runs now
    obtain ⟨old, found⟩ := readable
    have framed : Frame "schema_version" db middle := run_related (migration_frame (by decide) body listed) first
    obtain ⟨t, i, row, rest, there, known, -⟩ := schemaVersion_eq_ok.mp ((schemaVersion_congr framed).trans found)
    obtain ⟨after, set⟩ := @updateAll_runs _ _ _ (.integer next) _ there (by rw [known]; rfl)
    exact ⟨after, run_append.mpr ⟨middle, first, run_cons.mpr ⟨after, set, rfl⟩⟩⟩
  · rw [if_neg now]
    exact ⟨db, rfl⟩

end

section
variable {due : Prop} {body : List Statement} {touched created indexes : List String}

theorem Stage.keeps (stage : Stage due body touched created indexes db after) {name : String} {t : Table}
    (other : name ≠ "schema_version") (outside : due → name ∉ touched) (there : db.table? name = some t) :
    after.table? name = some t := by
  by_cases now : due
  · obtain ⟨middle, -, changes, versioned⟩ := stage.done now
    exact versioned.keeps name t (by simpa using other) (changes.keeps name t (outside now) there)
  · rw [stage.idle now, there]

theorem Stage.missing (stage : Stage due body touched created indexes db after) {name : String}
    (outside : name ∉ created) (missing : db.has name = false) : after.has name = false := by
  by_cases now : due
  · obtain ⟨middle, -, changes, versioned⟩ := stage.done now
    exact versioned.adds name (by simp) (changes.adds name outside missing)
  · rw [stage.idle now, missing]

theorem Stage.indexed (stage : Stage due body touched created indexes db after) :
    ∀ i ∈ after.indexes, i ∈ db.indexes ∨ i.name ∈ indexes := by
  intro i member
  by_cases now : due
  · obtain ⟨middle, -, changes, versioned⟩ := stage.done now
    exact (versioned.indexed i member).elim (changes.indexed i) fun none => absurd none (by simp)
  · exact .inl (stage.idle now ▸ member)

end

structure Upgrading (version : Int) (db first second third fourth after : Database) : Prop where
  pids : Stage ((version == 1) = true) addPids ["events"] [] [] db first
  sessions : Stage (version < 3) renewSessions ["auth_sessions"] ["auth_sessions"] ["auth_sessions_username"] first second
  terminations : Stage (version < 4) addTerminations [] ["server_control", "session_terminations"] ["termination_session"]
    second third
  roles : Stage (version < 5) addRoles ["admin_roles"]
    ["admin_roles", "admin_servers", "firewall_policies", "firewall_history"] ["firewall_history_server"] third fourth
  passkeys : Stage (version < 6) addPasskeys [] passkeyTables ["passkeys_username", "auth_pending_username"] fourth after

theorem migrations_stages (ran : run (migrations version) db = .ok after) :
    ∃ first second third fourth, Upgrading version db first second third fourth after := by
  obtain ⟨fourth, ran, last⟩ := run_append.mp ran
  obtain ⟨third, ran, roles⟩ := run_append.mp ran
  obtain ⟨second, ran, terminations⟩ := run_append.mp ran
  obtain ⟨first, pids, sessions⟩ := run_append.mp ran
  exact ⟨first, second, third, fourth, stage_of_run (by simp [migrationBodies]) addPids_changes pids,
    stage_of_run (by simp [migrationBodies]) renewSessions_changes sessions,
    stage_of_run (by simp [migrationBodies]) addTerminations_changes terminations,
    stage_of_run (by simp [migrationBodies]) addRoles_changes roles,
    stage_of_run (by simp [migrationBodies]) addPasskeys_changes last⟩

theorem addPids_events (ran : run addPids db = .ok after) {t : Table} (there : db.table? "events" = some t) :
    t.position "pid" = none ∧ t.position "ppid" = none ∧
      ∃ pid ppid, pid.name = "pid" ∧ ppid.name = "ppid" ∧ after.table? "events" = some (t.widen [pid, ppid]) := by
  obtain ⟨middle, first, rest⟩ := run_cons.mp ran
  obtain ⟨last, second, rest⟩ := run_cons.mp rest
  obtain rfl := Except.ok.inj rest
  obtain ⟨nopid, once⟩ := addColumn_widens first there
  obtain ⟨noppid, twice⟩ := addColumn_widens second once
  have missing : t.position "ppid" = none := by
    cases found : t.position "ppid" with
    | none => rfl
    | some i => exact absurd ((Table.position_widen found).symm.trans noppid) (by simp)
  rw [Table.widen_widen] at twice
  exact ⟨nopid, missing, _, _, rfl, rfl, twice⟩

theorem renewSessions_sessions (ran : run renewSessions db = .ok after) :
    ∃ t, after.table? "auth_sessions" = some t ∧ (t.position "username").isSome = true ∧ t.rows = [] := by
  obtain ⟨dropped, drop, rest⟩ := run_cons.mp ran
  obtain ⟨created, create, rest⟩ := run_cons.mp rest
  obtain ⟨indexed, makes, rest⟩ := run_cons.mp rest
  obtain rfl := Except.ok.inj rest
  have made := createTable_new (dropTable_gone drop) create
  have kept := (createIndex_effect makes).2
  exact ⟨_, (congrArg (List.find? _) kept).trans made, by decide, rfl⟩

theorem role_cells {t : Table} (names : t.columns.map Column.name = ["username", "role"]) (user role : Value) :
    t.cell "username" [user, role] = user ∧ t.cell "role" [user, role] = role := by
  simp only [Table.cell, Table.position_names, names]
  exact ⟨rfl, rfl⟩

theorem addRoles_roles (ran : run addRoles db = .ok after) {t : Table} (given : db.table? "admins" = some t)
    (shaped : ∀ old, db.table? "admin_roles" = some old → old.columns.map Column.name = ["username", "role"] ∧ old.rows = []) :
    ∃ now, after.table? "admin_roles" = some now ∧ now.columns.map Column.name = ["username", "role"] ∧
      (∀ account ∈ t.rows, ∃ row ∈ now.rows, now.cell "username" row = t.cell "username" account) ∧
      ∀ row ∈ now.rows, now.cell "role" row = .text (utf8 "super_admin") ∧
        ∃ account ∈ t.rows, now.cell "username" row = t.cell "username" account := by
  obtain ⟨tabled, table, rest⟩ := run_cons.mp ran
  obtain ⟨filled, fill, rest⟩ := run_cons.mp rest
  have later : Changes [] ["admin_servers", "firewall_policies", "firewall_history"] ["firewall_history_server"] filled after := by
    refine run_related ?_ rest
    simp only [List.forall_mem_cons]
    exact ⟨fun _ _ ran => createTable_changes ran (by decide), fun _ _ ran => createTable_changes ran (by decide),
      fun _ _ ran => createTable_changes ran (by decide), fun _ _ ran => createIndex_changes ran (by decide), by simp⟩
  obtain ⟨old, there, names, empty⟩ : ∃ old, tabled.table? "admin_roles" = some old ∧
      old.columns.map Column.name = ["username", "role"] ∧ old.rows = [] := by
    cases present : db.table? "admin_roles" with
    | none => exact ⟨_, createTable_new (by simp [Database.has, present]) table, rfl, rfl⟩
    | some old =>
      have same := createTable_present (by simp [Database.has, present]) table
      exact ⟨old, same ▸ present, shaped old present⟩
  have given : tabled.table? "admins" = some t := by
    rw [(createTable_effect table).1.frame (by decide), given]
  obtain ⟨added, stored, listed, keyed⟩ := insertSelect_rows fill there given
  simp only [empty, List.nil_append] at stored keyed
  have cells := role_cells names
  refine ⟨_, later.keeps _ _ (by decide) stored, names, ?_, ?_⟩
  · intro account member
    obtain ⟨row, own, same⟩ := keyed account member
    exact ⟨row, own, same.trans (cells _ _).1⟩
  · intro row member
    obtain ⟨account, own, rfl⟩ := listed row member
    exact ⟨(cells _ _).2, account, own, (cells _ _).1⟩

variable {first second third fourth : Database}

theorem Upgrading.kept (stages : Upgrading version db first second third fourth after) {name : String} {t : Table}
    (other : name ≠ "schema_version") (outside : name ∉ upgradedTables version) (there : db.table? name = some t) :
    after.table? name = some t := by
  simp only [upgradedTables, List.mem_append, not_or] at outside
  obtain ⟨⟨events, sessions⟩, roles⟩ := outside
  refine stages.passkeys.keeps other (by simp) (stages.roles.keeps other ?_ (stages.terminations.keeps other (by simp)
    (stages.sessions.keeps other ?_ (stages.pids.keeps other ?_ there))))
  · intro due
    rwa [if_pos due] at roles
  · intro due
    rwa [if_pos due] at sessions
  · intro due
    rwa [if_pos (by simpa using due)] at events

theorem Upgrading.events (stages : Upgrading version db first second third fourth after) (due : version = 1) {t : Table}
    (there : db.table? "events" = some t) : t.position "pid" = none ∧ t.position "ppid" = none ∧
      ∃ pid ppid, pid.name = "pid" ∧ ppid.name = "ppid" ∧ after.table? "events" = some (t.widen [pid, ppid]) := by
  obtain ⟨middle, ran, -, versioned⟩ := stages.pids.done (by simpa using due)
  obtain ⟨nopid, noppid, pid, ppid, named, also, widened⟩ := addPids_events ran there
  refine ⟨nopid, noppid, pid, ppid, named, also, ?_⟩
  refine stages.passkeys.keeps (by decide) (fun _ => by decide) (stages.roles.keeps (by decide) (fun _ => by decide)
    (stages.terminations.keeps (by decide) (fun _ => by decide) (stages.sessions.keeps (by decide) (fun _ => by decide) ?_)))
  exact versioned.keeps _ _ (by decide) widened

theorem Upgrading.renewed (stages : Upgrading version db first second third fourth after) (due : version < 3) :
    ∃ now, after.table? "auth_sessions" = some now ∧ (now.position "username").isSome = true ∧ now.rows = [] := by
  obtain ⟨middle, ran, -, versioned⟩ := stages.sessions.done due
  obtain ⟨now, there, owned, empty⟩ := renewSessions_sessions ran
  refine ⟨now, ?_, owned, empty⟩
  refine stages.passkeys.keeps (by decide) (fun _ => by decide) (stages.roles.keeps (by decide) (fun _ => by decide)
    (stages.terminations.keeps (by decide) (fun _ => by decide) ?_))
  exact versioned.keeps _ _ (by decide) there

theorem Upgrading.promoted (stages : Upgrading version db first second third fourth after) (due : version < 5)
    (shaped : ∀ old, db.table? "admin_roles" = some old → old.columns.map Column.name = ["username", "role"] ∧ old.rows = [])
    {t : Table} (there : db.table? "admins" = some t) : ∃ now, after.table? "admin_roles" = some now ∧
      now.columns.map Column.name = ["username", "role"] ∧
      (∀ account ∈ t.rows, ∃ row ∈ now.rows, now.cell "username" row = t.cell "username" account) ∧
      ∀ row ∈ now.rows, now.cell "role" row = .text (utf8 "super_admin") ∧
        ∃ account ∈ t.rows, now.cell "username" row = t.cell "username" account := by
  have keeps : ∀ {name t}, name ≠ "schema_version" → name ∉ ["events", "auth_sessions"] → db.table? name = some t →
      third.table? name = some t := by
    intro name t other outside there
    simp only [List.mem_cons, List.not_mem_nil, or_false, not_or] at outside
    exact stages.terminations.keeps other (by simp) (stages.sessions.keeps other (by simpa using fun _ => outside.2)
      (stages.pids.keeps other (by simpa using fun _ => outside.1) there))
  obtain ⟨middle, ran, -, versioned⟩ := stages.roles.done due
  obtain ⟨now, stored, named, all, only⟩ := addRoles_roles ran (keeps (by decide) (by decide) there) fun old present => by
    cases before : db.table? "admin_roles" with
    | none =>
      have gone : third.has "admin_roles" = false :=
        stages.terminations.missing (by decide) (stages.sessions.missing (by decide)
          (stages.pids.missing (by decide) (by simp [Database.has, before])))
      simp [Database.has, present] at gone
    | some t =>
      obtain rfl : t = old := Option.some.inj ((keeps (by decide) (by decide) before).symm.trans present)
      exact shaped t before
  exact ⟨now, stages.passkeys.keeps (by decide) (fun _ => by decide) (versioned.keeps _ _ (by decide) stored), named,
    all, only⟩

theorem Released.upgraded (released : Released version file) (opened : openStore file = .ok db) : Upgraded version file db := by
  obtain ⟨based, ran, same⟩ := baseSchema_still released.tables released.found released.settings
  have same_table : ∀ name, based.table? name = file.table? name := fun name => congrArg (List.find? _) same
  simp only [openStore, ran] at opened
  obtain ⟨old, found, newest, migrated⟩ := migrate_ok opened
  obtain rfl : version = old :=
    Except.ok.inj (released.found.symm.trans ((schemaVersion_congr (same_table _)).symm.trans found))
  obtain ⟨first, second, third, fourth, stages⟩ := migrations_stages migrated
  refine ⟨(migrations_run found newest migrated).2, fun name t other outside there => ?_, fun due t there => ?_,
    stages.renewed, fun due t there => ?_⟩
  · exact stages.kept other outside ((same_table name).trans there)
  · obtain ⟨nopid, noppid, pid, ppid, named, also, widened⟩ := stages.events due ((same_table _).trans there)
    refine ⟨_, widened, List.forall₂_map_right_iff.mpr (List.forall₂_same.mpr fun row member => ?_)⟩
    have fits : row.length ≤ t.columns.length := (released.records t there row member).le
    exact ⟨fun column known => t.cell_widen known row, t.cell_added nopid fits, t.cell_added noppid fits⟩
  · refine stages.promoted due (fun old present => ?_) ((same_table _).trans there)
    obtain ⟨names, empty⟩ := released.roles.2 old ((same_table _).symm.trans present)
    exact ⟨names, empty due⟩

theorem addPids_runs {t : Table} (there : db.table? "events" = some t) (nopid : t.position "pid" = none)
    (noppid : t.position "ppid" = none) : ∃ after, run addPids db = .ok after := by
  refine run_next (addColumn_runs there nopid) fun first once => ?_
  obtain ⟨-, widened⟩ := addColumn_widens once there
  refine run_next (addColumn_runs widened ?_) fun second _ => run_done
  exact Table.position_widen_none noppid (by simp)

theorem renewSessions_runs (there : db.has "auth_sessions" = true)
    (owners : ∀ i ∈ db.indexes, i.name = "auth_sessions_username" → i.table = "auth_sessions") :
    ∃ after, run renewSessions db = .ok after := by
  refine run_next (dropTable_runs there) fun dropped drop => ?_
  have dropped_indexes : Changes ["auth_sessions"] [] [] db dropped ∧ _ := dropTable_changes drop (by decide)
  have free : dropped.hasIndex "auth_sessions_username" = false := by
    simp only [Database.hasIndex, List.any_eq_false, beq_iff_eq]
    intro i member own
    obtain ⟨old, other⟩ := dropped_indexes.2 i member
    exact other (owners i old own)
  refine run_next (createTable_runs (.inr (dropTable_gone drop))) fun created create => ?_
  have kept : Changes [] ["auth_sessions"] [] dropped created := createTable_changes create (by decide)
  exact run_next (createIndex_runs (createTable_effect create).2 (.inr (hasIndex_free kept.indexed (by simp) free))) fun _ _ => run_done

theorem addTerminations_runs : ∃ after, run addTerminations db = .ok after := by
  refine run_next (createTable_runs (.inl rfl)) fun _ _ => ?_
  refine run_next (createTable_runs (.inl rfl)) fun _ create => ?_
  exact run_next (createIndex_runs (createTable_effect create).2 (.inl rfl)) fun _ _ => run_done

theorem addRoles_runs (there : db.has "admins" = true) : ∃ after, run addRoles db = .ok after := by
  refine run_next (createTable_runs (.inl rfl)) fun _ create => ?_
  refine run_next (insertSelect_runs (createTable_effect create).2 ((createTable_effect create).1.has there)) fun _ _ => ?_
  refine run_next (createTable_runs (.inl rfl)) fun _ _ => ?_
  refine run_next (createTable_runs (.inl rfl)) fun _ _ => ?_
  refine run_next (createTable_runs (.inl rfl)) fun _ create => ?_
  exact run_next (createIndex_runs (createTable_effect create).2 (.inl rfl)) fun _ _ => run_done

theorem addPasskeys_runs (missing : ∀ name ∈ passkeyTables, db.has name = false)
    (free : db.hasIndex "passkeys_username" = false) (also : db.hasIndex "auth_pending_username" = false) :
    ∃ after, run addPasskeys db = .ok after := by
  simp only [passkeyTables, List.forall_mem_cons] at missing
  obtain ⟨auth, keys, pending, limits, -⟩ := missing
  refine run_next (createTable_runs (.inr auth)) fun first create => ?_
  have keys := (createTable_effect create).1.misses (by decide) keys
  refine run_next (createTable_runs (.inr keys)) fun second tabled => ?_
  have before : Changes [] ["account_auth", "passkeys"] ["passkeys_username"] db second :=
    trans_of (Changes _ _ _) (createTable_changes create (by decide)) (createTable_changes tabled (by decide))
  have unindexed : second.hasIndex "passkeys_username" = false := by
    have first : Changes [] ["account_auth", "passkeys"] [] db second :=
      trans_of (Changes _ _ _) (createTable_changes create (by decide)) (createTable_changes tabled (by decide))
    exact hasIndex_free first.indexed (by decide) free
  refine run_next (createIndex_runs (createTable_effect tabled).2 (.inr unindexed)) fun third makes => ?_
  have before : Changes [] ["account_auth", "passkeys"] ["passkeys_username"] db third :=
    trans_of (Changes _ _ _) before (createIndex_changes makes (by decide))
  refine run_next (createTable_runs (.inr (before.adds _ (by decide) pending))) fun fourth create => ?_
  have created : Changes [] ["auth_pending"] [] third fourth := createTable_changes create (by decide)
  have unindexed := hasIndex_free created.indexed (by decide) (hasIndex_free before.indexed (by decide) also)
  refine run_next (createIndex_runs (createTable_effect create).2 (.inr unindexed)) fun fifth makes => ?_
  refine run_next (createTable_runs (.inr ?_)) fun _ _ => run_done
  exact (createIndex_effect makes).1.misses (by decide) (created.adds _ (by decide) (before.adds _ (by decide) limits))

theorem baseSchema_changes (ran : run baseSchema db = .ok after) :
    Changes ["schema_version", "settings"] baseTables
      ["events_time", "events_server_time", "events_user_time", "events_session", "sessions_time"] db after := by
  refine run_related ?_ ran
  simp only [baseSchema, List.forall_mem_cons]
  refine ⟨?_, ?_, ?_, ?_, ?_, ?_, ?_, ?_, ?_, ?_, ?_, ?_, ?_, ?_, ?_, by simp⟩
  all_goals intro db after ran
  · exact createTable_changes ran (by decide)
  · exact insertIfEmpty_changes ran (by decide)
  · exact createTable_changes ran (by decide)
  · exact createTable_changes ran (by decide)
  · exact createTable_changes ran (by decide)
  · exact insertOrIgnore_changes ran (by decide)
  · exact createTable_changes ran (by decide)
  · exact createTable_changes ran (by decide)
  · exact createTable_changes ran (by decide)
  · exact createIndex_changes ran (by decide)
  · exact createIndex_changes ran (by decide)
  · exact createIndex_changes ran (by decide)
  · exact createIndex_changes ran (by decide)
  · exact createIndex_changes ran (by decide)
  · exact createTable_changes ran (by decide)

theorem Released.inside (released : Released version file) :
    (decide (version < 1) || decide (version > currentSchemaVersion)) = false := by
  obtain ⟨low, high⟩ := released.known
  simp only [currentSchemaVersion, Bool.or_eq_false_iff, decide_eq_false_iff_not, not_lt, gt_iff_lt]
  exact ⟨low, high⟩

theorem Released.opens (released : Released version file) : ∃ db, openStore file = .ok db := by
  obtain ⟨based, ran, same⟩ := baseSchema_still released.tables released.found released.settings
  have same_table : ∀ name, based.table? name = file.table? name := fun name => congrArg (List.find? _) same
  have same_has : ∀ name, based.has name = file.has name := fun name => congrArg Option.isSome (same_table name)
  have found : schemaVersion based = .ok version := (schemaVersion_congr (same_table _)).trans released.found
  have indexes := baseSchema_changes ran
  obtain ⟨first, pids⟩ := @stage_runs based ((version == 1) = true) _ addPids 2 (by simp [migrationBodies]) ⟨version, found⟩ fun due => by
    obtain ⟨t, there⟩ := Option.isSome_iff_exists.mp (released.tables "events" (by decide))
    obtain ⟨nopid, noppid⟩ := released.pids (by simpa using due) t there
    exact addPids_runs ((same_table _).trans there) nopid noppid
  have one := stage_of_run (by simp [migrationBodies]) addPids_changes pids
  obtain ⟨second, sessions⟩ := @stage_runs first (version < 3) _ renewSessions 3 (by simp [migrationBodies])
    (one.migrated.version ⟨version, found⟩) fun due => by
    refine renewSessions_runs (one.migrated.grows _ ((same_has _).trans (released.tables _ (by decide)))) fun i member own => ?_
    rcases one.indexed i member with old | new
    · rcases indexes.indexed i old with mine | new
      · exact released.owners due i mine own
      · exact absurd (own ▸ new) (by decide)
    · cases new
  have two := stage_of_run (by simp [migrationBodies]) renewSessions_changes sessions
  have both := trans_of Migrated one.migrated two.migrated
  obtain ⟨third, terminations⟩ := @stage_runs second (version < 4) _ addTerminations 4 (by simp [migrationBodies])
    (both.version ⟨version, found⟩) fun _ => addTerminations_runs
  have three := stage_of_run (by simp [migrationBodies]) addTerminations_changes terminations
  have all := trans_of Migrated both three.migrated
  obtain ⟨fourth, roles⟩ := @stage_runs third (version < 5) _ addRoles 5 (by simp [migrationBodies])
    (all.version ⟨version, found⟩) fun _ =>
      addRoles_runs (all.grows _ ((same_has _).trans (released.tables _ (by decide))))
  have four := stage_of_run (by simp [migrationBodies]) addRoles_changes roles
  obtain ⟨fifth, passkeys⟩ := @stage_runs fourth (version < 6) _ addPasskeys 6 (by simp [migrationBodies])
    ((trans_of Migrated all four.migrated).version ⟨version, found⟩) fun due => by
    obtain ⟨missing, free, also⟩ := released.passkeys due
    have unindexed : ∀ {index}, index ∈ ["passkeys_username", "auth_pending_username"] → file.hasIndex index = false →
        fourth.hasIndex index = false := by
      intro index listed free
      have apart : index ∉ ["events_time", "events_server_time", "events_user_time", "events_session", "sessions_time"] ∧
          index ∉ ["auth_sessions_username"] ∧ index ∉ ["termination_session"] ∧ index ∉ ["firewall_history_server"] := by
        clear free
        revert index
        decide
      exact hasIndex_free four.indexed apart.2.2.2 (hasIndex_free three.indexed apart.2.2.1 (hasIndex_free two.indexed apart.2.1
        (hasIndex_free one.indexed (by simp) (hasIndex_free indexes.indexed apart.1 free))))
    refine addPasskeys_runs (fun name listed => ?_) (unindexed (by decide) free) (unindexed (by decide) also)
    have apart : name ∉ ["auth_sessions"] ∧ name ∉ ["server_control", "session_terminations"] ∧
        name ∉ ["admin_roles", "admin_servers", "firewall_policies", "firewall_history"] := by
      revert name
      decide
    exact four.missing apart.2.2 (three.missing apart.2.1 (two.missing apart.1 (one.missing (by simp)
      ((same_has name).trans (missing name listed)))))
  refine ⟨fifth, ?_⟩
  simp only [openStore, ran, migrate, found, released.inside, Bool.false_eq_true, if_false]
  exact run_append.mpr ⟨fourth, run_append.mpr ⟨third, run_append.mpr ⟨second, run_append.mpr ⟨first, pids, sessions⟩,
    terminations⟩, roles⟩, passkeys⟩

theorem Released.copied (released : Released version file) : restoreSnapshot (backup file) = .ok file := by
  simp [restoreSnapshot, backup, released.found, released.inside]

/-- Every file of an older server opens with what it held. A snapshot of it is put back
as it was, by the operator's script up to version 4. -/
theorem upgrade_preserves (released : Released version file) : ∃ db, openStore file = .ok db ∧ Upgraded version file db ∧
    restoreSnapshot (backup file) = .ok file ∧ (version ≤ 4 → restore (backup file) = .ok db) := by
  obtain ⟨db, opened⟩ := released.opens
  refine ⟨db, opened, released.upgraded opened, released.copied, fun older => ?_⟩
  obtain ⟨t, i, row, rest, there, known, rows, value⟩ := schemaVersion_eq_ok.mp released.found
  have found : selectFirst "schema_version" "version" file = .ok (some (.integer version)) := by
    simp [selectFirst, there, known, rows, Table.cell, value]
  have accepted : [Value.integer 1, .integer 2, .integer 3, .integer 4].contains (.integer version) = true := by
    have range : version = 1 ∨ version = 2 ∨ version = 3 ∨ version = 4 := by
      have := released.known
      omega
    rcases range with rfl | rfl | rfl | rfl <;> decide
  have checked : ((backup file).integrity != "ok") = false := rfl
  have contents : (backup file).contents = file := rfl
  simp only [restore, checked, contents, found, accepted, released.copied, opened, Bool.false_eq_true, Bool.not_true,
    if_false]

/-- A file of the first version, with an account, a session and a record. -/
def legacyFile : Database :=
  match run baseSchema ⟨[], []⟩ with
  | .error _ => ⟨[], []⟩
  | .ok db => [("admins", [.text (utf8 "existing-admin"), .text (utf8 "existing-hash")]),
      ("auth_sessions", [.text (utf8 "old"), .text (utf8 "csrf"), .integer 9999999999999]),
      ("events", [.integer 1, .text (utf8 "s"), .text (utf8 "old"), .integer 1, .integer 1, .text (utf8 "exec"), .text [],
        .text (utf8 "alice"), .text (utf8 "1000"), .text (utf8 "alice"), .text [], .text (utf8 "/usr/bin/id"),
        .text (utf8 "[\"id\"]"), .text (utf8 "id"), .text (utf8 "yes")])].foldl
    (fun db entry => db.modify entry.1 fun t => { t with rows := [entry.2] }) db

theorem legacyFile_released : Released 1 legacyFile := by
  have check : ∀ {name : String} {p : Table → Bool}, ((legacyFile.table? name).all p) = true →
      ∀ t, legacyFile.table? name = some t → p t = true := by
    intro name p all t there
    simpa [there] using all
  have records : ∀ t, legacyFile.table? "events" = some t →
      decide ((∀ row ∈ t.rows, row.length = t.columns.length) ∧ t.position "pid" = none ∧ t.position "ppid" = none) = true :=
    check (by decide +kernel)
  have accounts : ∀ t, legacyFile.table? "admins" = some t →
      decide (t.columns.map Column.name = ["username", "password_hash"]) = true := check (by decide +kernel)
  have settings : (legacyFile.table? "settings").any (fun t =>
      t.rows.any fun old => t.cell "id" old == t.cell "id" [.integer 1, .integer 30]) = true := by decide +kernel
  refine ⟨?_, by decide, by decide +kernel, ?_, fun t there => of_decide_eq_true (accounts t there),
    fun t there => (of_decide_eq_true (records t there)).1, fun _ t there => (of_decide_eq_true (records t there)).2,
    fun _ => by decide +kernel, ⟨by omega, ?_⟩, fun _ => by decide +kernel⟩
  · cases found : schemaVersion legacyFile with
    | ok version =>
      have one : (match schemaVersion legacyFile with
        | .ok version => version == 1
        | .error _ => false) = true := by decide +kernel
      simp only [found, beq_iff_eq] at one
      rw [one]
    | error problem =>
      have readable : (schemaVersion legacyFile).isOk = true := by decide +kernel
      rw [found] at readable
      cases readable
  · obtain ⟨t, there, present⟩ := (Option.any_eq_true _ _).mp settings
    exact ⟨t, there, present⟩
  · intro t there
    have none : legacyFile.table? "admin_roles" = none := by decide +kernel
    rw [none] at there
    cases there

theorem upgrade_preserves_legacy : ∃ db, openStore legacyFile = .ok db ∧ Upgraded 1 legacyFile db ∧
    restoreSnapshot (backup legacyFile) = .ok legacyFile ∧ restore (backup legacyFile) = .ok db := by
  obtain ⟨db, opened, upgraded, copied, restored⟩ := upgrade_preserves legacyFile_released
  exact ⟨db, opened, upgraded, copied, restored (by decide)⟩

def HasSuper (db : Database) : Prop :=
  ∃ accounts roles, db.table? "admins" = some accounts ∧ db.table? "admin_roles" = some roles ∧
    ∃ account ∈ accounts.rows, ∃ row ∈ roles.rows, roles.cell "username" row = accounts.cell "username" account ∧
      roles.cell "role" row = .text (utf8 "super_admin")

def HasAccounts (db : Database) : Prop :=
  (∀ t, db.table? "admins" = some t → t.columns.map Column.name = ["username", "password_hash"]) ∧
    ∀ t, db.table? "admin_roles" = some t → t.columns.map Column.name = ["username", "role"]

theorem firstAdmin_super {user passwordHash : Bytes} (shaped : HasAccounts db)
    (ran : run (firstAdmin user passwordHash) db = .ok after) : HasSuper after := by
  obtain ⟨middle, first, rest⟩ := run_cons.mp ran
  obtain ⟨last, second, rest⟩ := run_cons.mp rest
  obtain rfl := Except.ok.inj rest
  obtain ⟨accounts, there, stored, others⟩ := insert_rows first
  obtain ⟨roles, present, written, kept⟩ := insert_rows second
  rw [others _ (by decide)] at present
  obtain ⟨mine, role⟩ := role_cells (shaped.2 roles present) (.text user) (.text (utf8 "super_admin"))
  refine ⟨_, _, (kept _ (by decide)).trans stored, written, [.text user, .text passwordHash], by simp,
    [.text user, .text (utf8 "super_admin")], by simp, ?_, role⟩
  have own : accounts.cell "username" [.text user, .text passwordHash] = .text user := by
    simp only [Table.cell, Table.position_names, shaped.1 accounts there]
    rfl
  exact mine.trans own.symm

theorem bootstrap_ok {bcrypt : Bytes → Except String Bytes} {e : Environment} (done : bootstrap bcrypt e db = .ok after) :
    ∃ pass passwordHash, initialPassword e = .ok pass ∧ 12 ≤ pass.length ∧ pass.length ≤ 72 ∧ bcrypt pass = .ok passwordHash ∧
      run (firstAdmin (env e.adminUser (utf8 "admin")) passwordHash) db = .ok after := by
  simp only [bootstrap] at done
  split at done
  · cases done
  next pass given =>
    split at done
    · cases done
    next fits =>
      simp only [Bool.or_eq_true, decide_eq_true_eq, not_or, not_lt, gt_iff_lt] at fits
      split at done
      · cases done
      next passwordHash hashed => exact ⟨pass, passwordHash, given, fits.1, fits.2, hashed, done⟩

/-- What starting leaves: the store as it was opened, or with its first account. -/
theorem start_ok {bcrypt : Bytes → Except String Bytes} {e : Environment} (started : start bcrypt e file = .ok after) :
    ∃ db accounts, openStore file = .ok db ∧ db.table? "admins" = some accounts ∧
      (accounts.rows ≠ [] ∧ after = db ∨ accounts.rows = [] ∧ bootstrap bcrypt e db = .ok after) := by
  simp only [start] at started
  split at started
  · cases started
  next db opened =>
    simp only [countAdmins] at started
    cases there : db.table? "admins" with
    | none => simp [there] at started
    | some accounts =>
      simp only [there, beq_iff_eq, List.length_eq_zero_iff] at started
      refine ⟨db, accounts, opened, there, ?_⟩
      split at started
      next empty => exact .inr ⟨empty, started⟩
      next some => exact .inl ⟨some, (Except.ok.inj started).symm⟩

theorem newStore_accounts (opened : openStore ⟨[], []⟩ = .ok db) :
    HasAccounts db ∧ ∃ t, db.table? "admins" = some t ∧ t.rows = [] := by
  have shape : (match openStore ⟨[], []⟩ with
    | .ok db => [db.table? "admins", db.table? "admin_roles"].map fun t => t.map fun t => (t.columns.map Column.name, t.rows)
    | .error _ => []) = [some (["username", "password_hash"], []), some (["username", "role"], [])] := by decide +kernel
  simp only [opened, List.map_cons, List.map_nil, List.cons.injEq, Option.map_eq_some_iff, Prod.mk.injEq, and_true] at shape
  obtain ⟨⟨accounts, there, names, empty⟩, roles, present, also, -⟩ := shape
  refine ⟨⟨fun t found => ?_, fun t found => ?_⟩, accounts, there, empty⟩
  · rwa [← Option.some.inj (there.symm.trans found)]
  · rwa [← Option.some.inj (present.symm.trans found)]

theorem Released.admins (released : Released version file) (opened : openStore file = .ok db) :
    db.table? "admins" = file.table? "admins" := by
  obtain ⟨t, there⟩ := Option.isSome_iff_exists.mp (released.tables "admins" (by decide))
  have outside : "admins" ∉ upgradedTables version := by
    simp only [upgradedTables, List.mem_append]
    split <;> split <;> split <;> decide
  rw [there]
  exact (released.upgraded opened).kept _ t (by decide) outside there

theorem Released.hasAccounts (released : Released version file) (opened : openStore file = .ok db) : HasAccounts db := by
  refine ⟨fun t there => released.accounts t ((released.admins opened).symm.trans there), fun t there => ?_⟩
  have upgraded := released.upgraded opened
  by_cases older : version < 5
  · obtain ⟨accounts, known⟩ := Option.isSome_iff_exists.mp (released.tables "admins" (by decide))
    obtain ⟨now, stored, names, -⟩ := upgraded.roles older accounts known
    rwa [← Option.some.inj (stored.symm.trans there)]
  · obtain ⟨old, present⟩ := Option.isSome_iff_exists.mp (released.roles.1 (by omega))
    have kept : db.table? "admin_roles" = some old := by
      refine upgraded.kept _ old (by decide) ?_ present
      simp only [upgradedTables, if_neg older, List.append_nil, List.mem_append]
      split <;> split <;> decide
    rw [← Option.some.inj (kept.symm.trans there)]
    exact (released.roles.2 old present).1

/-- A server that has started on a new file, on one from before roles or on one without
accounts has a super administrator. -/
theorem start_super {bcrypt : Bytes → Except String Bytes} {e : Environment}
    (installed : file = ⟨[], []⟩ ∨ ∃ version, Released version file ∧
      (version < 5 ∨ ∀ t, file.table? "admins" = some t → t.rows = []))
    (started : start bcrypt e file = .ok after) : HasSuper after := by
  obtain ⟨db, accounts, opened, there, outcome⟩ := start_ok started
  rcases outcome with ⟨some, rfl⟩ | ⟨empty, made⟩
  · rcases installed with rfl | ⟨version, released, old | none⟩
    · obtain ⟨-, t, found, empty⟩ := newStore_accounts opened
      exact absurd (Option.some.inj (there.symm.trans found) ▸ empty) some
    · -- every account has become one
      obtain ⟨now, stored, -, all, only⟩ :=
        (released.upgraded opened).roles old accounts ((released.admins opened).symm.trans there)
      obtain ⟨account, member⟩ := List.exists_mem_of_ne_nil _ some
      obtain ⟨row, listed, own⟩ := all account member
      exact ⟨accounts, now, there, stored, account, member, row, listed, own, (only row listed).1⟩
    · exact absurd (none accounts ((released.admins opened).symm.trans there)) some
  · obtain ⟨pass, passwordHash, -, -, -, -, ran⟩ := bootstrap_ok made
    refine firstAdmin_super ?_ ran
    rcases installed with rfl | ⟨version, released, -⟩
    · exact (newStore_accounts opened).1
    · exact released.hasAccounts opened

theorem start_super_new : ∃ db, start .ok ⟨[], utf8 "correct horse", none⟩ ⟨[], []⟩ = .ok db ∧ HasSuper db := by
  cases started : start .ok ⟨[], utf8 "correct horse", none⟩ ⟨[], []⟩ with
  | ok db => exact ⟨db, rfl, start_super (.inl rfl) started⟩
  | error problem =>
    have succeeds : (start .ok ⟨[], utf8 "correct horse", none⟩ ⟨[], []⟩).isOk = true := by decide +kernel
    rw [started] at succeeds
    cases succeeds

end SshLogger
