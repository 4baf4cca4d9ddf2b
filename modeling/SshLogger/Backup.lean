import SshLogger.Library.Schema
import SshLogger.Library.History

/-! The store's file: opening and migrating it (`server/store.go`,
`server/migrations.go`), snapshots of it (`server/main.go`, `scripts/backup.py`)
and putting one back (`scripts/restore.py`, `server/restore.go`). -/

namespace SshLogger
open Library Library.Schema Library.History

def currentSchemaVersion : Int := 6

/-- The statements of `openStore`. -/
def baseSchema : List Statement := [
  createTable true "schema_version" [⟨"version", "INTEGER NOT NULL"⟩] [],
  insertIfEmpty "schema_version" [.integer 1],
  createTable true "admins" [⟨"username", "TEXT PRIMARY KEY"⟩, ⟨"password_hash", "TEXT NOT NULL"⟩] [],
  createTable true "auth_sessions" [⟨"token_hash", "TEXT PRIMARY KEY"⟩, ⟨"csrf", "TEXT NOT NULL"⟩,
    ⟨"expires", "INTEGER NOT NULL"⟩] [],
  createTable true "settings" [⟨"id", "INTEGER PRIMARY KEY CHECK(id=1)"⟩, ⟨"retention_days", "INTEGER NOT NULL"⟩] [],
  insertOrIgnore "settings" "id" [.integer 1, .integer 30],
  createTable true "servers" [⟨"id", "TEXT PRIMARY KEY"⟩, ⟨"name", "TEXT NOT NULL UNIQUE"⟩,
    ⟨"token_hash", "TEXT NOT NULL UNIQUE"⟩, ⟨"created", "INTEGER NOT NULL"⟩, ⟨"last_seen", "INTEGER NOT NULL DEFAULT 0"⟩,
    ⟨"health", "TEXT NOT NULL DEFAULT 'waiting'"⟩, ⟨"backlog", "INTEGER NOT NULL DEFAULT 0"⟩,
    ⟨"dropped", "INTEGER NOT NULL DEFAULT 0"⟩, ⟨"revoked", "INTEGER NOT NULL DEFAULT 0"⟩] [],
  createTable true "sessions" [⟨"server_id", "TEXT NOT NULL REFERENCES servers(id)"⟩, ⟨"id", "TEXT NOT NULL"⟩,
    ⟨"user", "TEXT NOT NULL"⟩, ⟨"ip", "TEXT NOT NULL"⟩, ⟨"started", "INTEGER NOT NULL"⟩, ⟨"ended", "INTEGER"⟩,
    ⟨"live", "INTEGER NOT NULL DEFAULT 0"⟩] ["PRIMARY KEY(server_id,id)"],
  createTable true "events" [⟨"seq", "INTEGER PRIMARY KEY AUTOINCREMENT"⟩,
    ⟨"server_id", "TEXT NOT NULL REFERENCES servers(id)"⟩, ⟨"id", "TEXT NOT NULL"⟩, ⟨"time", "INTEGER NOT NULL"⟩,
    ⟨"received", "INTEGER NOT NULL"⟩, ⟨"kind", "TEXT NOT NULL"⟩, ⟨"session_id", "TEXT NOT NULL"⟩, ⟨"user", "TEXT NOT NULL"⟩,
    ⟨"login_uid", "TEXT NOT NULL"⟩, ⟨"effective_user", "TEXT NOT NULL"⟩, ⟨"ip", "TEXT NOT NULL"⟩,
    ⟨"program", "TEXT NOT NULL"⟩, ⟨"args", "TEXT NOT NULL"⟩, ⟨"command", "TEXT NOT NULL"⟩, ⟨"outcome", "TEXT NOT NULL"⟩]
    ["UNIQUE(server_id,id)"],
  createIndex true "events_time" "events" ["time DESC", "seq DESC"],
  createIndex true "events_server_time" "events" ["server_id", "time DESC"],
  createIndex true "events_user_time" "events" ["user", "time DESC"],
  createIndex true "events_session" "events" ["server_id", "session_id", "time"],
  createIndex true "sessions_time" "sessions" ["started DESC"],
  createTable true "login_attempts" [⟨"ip", "TEXT PRIMARY KEY"⟩, ⟨"count", "INTEGER NOT NULL"⟩, ⟨"reset", "INTEGER NOT NULL"⟩] []]

def setVersion (version : Int) : Statement := updateAll "schema_version" "version" (.integer version)

def addPids : List Statement := [
  addColumn "events" ⟨"pid", "INTEGER CHECK(pid IS NULL OR pid BETWEEN 1 AND 2147483647)"⟩,
  addColumn "events" ⟨"ppid", "INTEGER CHECK(ppid IS NULL OR ppid BETWEEN 0 AND 2147483647)"⟩]

/-- Legacy sessions have no account; they are dropped. -/
def renewSessions : List Statement := [
  dropTable "auth_sessions",
  createTable false "auth_sessions" [⟨"token_hash", "TEXT PRIMARY KEY"⟩, ⟨"csrf", "TEXT NOT NULL"⟩,
    ⟨"expires", "INTEGER NOT NULL"⟩, ⟨"username", "TEXT NOT NULL REFERENCES admins(username)"⟩] [],
  createIndex false "auth_sessions_username" "auth_sessions" ["username"]]

def addTerminations : List Statement := [
  createTable true "server_control" [⟨"server_id", "TEXT PRIMARY KEY REFERENCES servers(id)"⟩,
    ⟨"enabled", "INTEGER NOT NULL"⟩] [],
  createTable true "session_terminations" [⟨"id", "TEXT PRIMARY KEY"⟩,
    ⟨"server_id", "TEXT NOT NULL REFERENCES servers(id)"⟩, ⟨"session_id", "TEXT NOT NULL"⟩, ⟨"requested_by", "TEXT NOT NULL"⟩,
    ⟨"created", "INTEGER NOT NULL"⟩, ⟨"expires", "INTEGER NOT NULL"⟩, ⟨"status", "TEXT NOT NULL"⟩,
    ⟨"error", "TEXT NOT NULL DEFAULT ''"⟩] [],
  createIndex true "termination_session" "session_terminations" ["server_id", "session_id", "created DESC"]]

/-- Every account there is becomes a super administrator. -/
def addRoles : List Statement := [
  createTable true "admin_roles" [⟨"username", "TEXT PRIMARY KEY REFERENCES admins(username)"⟩,
    ⟨"role", "TEXT NOT NULL CHECK(role IN ('super_admin','admin'))"⟩] [],
  insertSelect "admin_roles" "username" "admins" fun t row => [t.cell "username" row, .text (Bytes.utf8 "super_admin")],
  createTable true "admin_servers" [⟨"username", "TEXT NOT NULL REFERENCES admins(username)"⟩,
    ⟨"server_id", "TEXT NOT NULL REFERENCES servers(id)"⟩] ["PRIMARY KEY(username,server_id)"],
  createTable true "firewall_policies" [⟨"server_id", "TEXT PRIMARY KEY REFERENCES servers(id)"⟩,
    ⟨"revision", "TEXT NOT NULL"⟩, ⟨"policy", "TEXT NOT NULL"⟩, ⟨"applied_revision", "TEXT NOT NULL DEFAULT ''"⟩,
    ⟨"error", "TEXT NOT NULL DEFAULT ''"⟩, ⟨"reported", "INTEGER NOT NULL DEFAULT 0"⟩,
    ⟨"capable", "INTEGER NOT NULL DEFAULT 0"⟩] [],
  createTable true "firewall_history" [⟨"id", "TEXT PRIMARY KEY"⟩, ⟨"server_id", "TEXT NOT NULL REFERENCES servers(id)"⟩,
    ⟨"revision", "TEXT NOT NULL"⟩, ⟨"ip", "TEXT NOT NULL"⟩, ⟨"action", "TEXT NOT NULL"⟩, ⟨"requested_by", "TEXT NOT NULL"⟩,
    ⟨"created", "INTEGER NOT NULL"⟩, ⟨"status", "TEXT NOT NULL DEFAULT 'pending'"⟩, ⟨"error", "TEXT NOT NULL DEFAULT ''"⟩] [],
  createIndex true "firewall_history_server" "firewall_history" ["server_id", "created DESC"]]

def addPasskeys : List Statement := [
  createTable false "account_auth" [⟨"username", "TEXT PRIMARY KEY REFERENCES admins(username) ON DELETE CASCADE"⟩,
    ⟨"user_id", "TEXT NOT NULL UNIQUE"⟩, ⟨"version", "INTEGER NOT NULL DEFAULT 0"⟩] [],
  createTable false "passkeys" [⟨"id", "TEXT PRIMARY KEY"⟩,
    ⟨"username", "TEXT NOT NULL REFERENCES admins(username) ON DELETE CASCADE"⟩, ⟨"rp_id", "TEXT NOT NULL"⟩,
    ⟨"credential", "TEXT NOT NULL"⟩, ⟨"name", "TEXT NOT NULL"⟩, ⟨"created", "INTEGER NOT NULL"⟩,
    ⟨"last_used", "INTEGER NOT NULL DEFAULT 0"⟩] [],
  createIndex false "passkeys_username" "passkeys" ["username"],
  createTable false "auth_pending" [⟨"id_hash", "TEXT PRIMARY KEY"⟩,
    ⟨"username", "TEXT NOT NULL REFERENCES admins(username) ON DELETE CASCADE"⟩, ⟨"expires", "INTEGER NOT NULL"⟩,
    ⟨"data", "TEXT NOT NULL"⟩] [],
  createIndex false "auth_pending_username" "auth_pending" ["username"],
  createTable false "auth_limits" [⟨"key", "TEXT PRIMARY KEY"⟩, ⟨"count", "INTEGER NOT NULL"⟩, ⟨"reset", "INTEGER NOT NULL"⟩] []]

def migrations (version : Int) : List Statement :=
  (if version == 1 then addPids ++ [setVersion 2] else []) ++
    (if version < 3 then renewSessions ++ [setVersion 3] else []) ++
    (if version < 4 then addTerminations ++ [setVersion 4] else []) ++
    (if version < 5 then addRoles ++ [setVersion 5] else []) ++
    (if version < 6 then addPasskeys ++ [setVersion 6] else [])

/-- `SELECT version FROM schema_version`. -/
def schemaVersion (db : Database) : Except String Int :=
  match selectFirst "schema_version" "version" db with
  | .error problem => .error problem
  | .ok (some (.integer version)) => .ok version
  | .ok (some _) => .error "sql: Scan error on column index 0"
  | .ok none => .error "sql: no rows in result set"

def migrate (db : Database) : Except String Database :=
  match schemaVersion db with
  | .error problem => .error problem
  | .ok version =>
    if version < 1 || version > currentSchemaVersion then .error ("unsupported schema version: " ++ toString version)
    else run (migrations version) db

def openStore (db : Database) : Except String Database :=
  match run baseSchema db with
  | .error problem => .error problem
  | .ok db => migrate db

/-- A file and what `PRAGMA integrity_check` says about it. -/
structure Snapshot where
  integrity : String
  contents : Database

/-- `VACUUM INTO`, which `server -backup` runs for `scripts/backup.py`. -/
def backup (db : Database) : Snapshot := ⟨"ok", db⟩

def restoreSnapshot (source : Snapshot) : Except String Database :=
  if source.integrity != "ok" then .error ("invalid backup: " ++ source.integrity)
  else match schemaVersion source.contents with
    | .error problem => .error ("unsupported schema: " ++ problem)
    | .ok version =>
      if version < 1 || version > currentSchemaVersion then .error ("unsupported schema: " ++ toString version)
      else .ok source.contents

/-- `scripts/restore.py`: its own checks, then `server -restore` and a start of the server. -/
def restore (source : Snapshot) : Except String Database :=
  if source.integrity != "ok" then .error "백업 파일 무결성 검사 실패"
  else match selectFirst "schema_version" "version" source.contents with
    | .error problem => .error problem
    | .ok none => .error "'NoneType' object is not subscriptable"
    | .ok (some version) =>
      if !([Value.integer 1, .integer 2, .integer 3, .integer 4].contains version) then .error "지원하지 않는 백업 스키마"
      else match restoreSnapshot source with
        | .error _ => .error "복원 실패. 서비스는 중지 상태입니다. 기존 백업을 확인하세요."
        | .ok db => openStore db

inductive StoreAct
  | reopen
  | write (table : String) (rows : List (List Value))
  | saveSettings (days : Int)

/-- `UPDATE settings SET retention_days=? WHERE id=1` -/
def saveRetention (days : Int) (t : Table) : Table :=
  { t with rows := t.rows.map fun row =>
      if t.cell "id" row == .integer 1 then t.assign "retention_days" (.integer days) row else row }

/-- The requests of a running server write rows of any table but `schema_version`, and
of `settings` only the retention. -/
inductive StoreStep (db : Database) : StoreAct → Database → Prop
  | reopen (after) : openStore db = .ok after → StoreStep db .reopen after
  | write (table rows) : table ≠ "schema_version" → table ≠ "settings" →
      StoreStep db (.write table rows) (db.modify table fun t => { t with rows })
  | saveSettings (days) : StoreStep db (.saveSettings days) (db.modify "settings" (saveRetention days))

/-- The server has opened a file, of whatever version and contents. -/
def store : System Database StoreAct where
  init db := ∃ file, openStore file = .ok db
  step := StoreStep

end SshLogger
