import SshLogger.Backup
import SshLogger.Library.Numerals

/-! The start of the server on a file (`server/main.go`): it opens the store and, when
no account is there, makes the first administrator. -/

namespace SshLogger
open Library Library.Bytes Library.Schema

/-- The variables `main` reads for the first account. There is no password file when
`ADMIN_PASSWORD_FILE` is empty; reading it can fail. -/
structure Environment where
  adminUser : Bytes
  adminPassword : Bytes
  adminPasswordFile : Option (Except String Bytes)

def env (value fallback : Bytes) : Bytes := if value = [] then fallback else value

def initialPassword (e : Environment) : Except String Bytes :=
  match e.adminPasswordFile with
  | none => .ok e.adminPassword
  | some (.error problem) => .error problem
  | some (.ok content) => .ok (trimSpace content)

def firstAdmin (user passwordHash : Bytes) : List Statement := [
  insert "admins" "username" [.text user, .text passwordHash],
  insert "admin_roles" "username" [.text user, .text (utf8 "super_admin")]]

/-- `SELECT COUNT(*) FROM admins`. -/
def countAdmins (db : Database) : Except String Nat :=
  match db.table? "admins" with
  | none => .error "no such table: admins"
  | some t => .ok t.rows.length

def bootstrap (bcrypt : Bytes → Except String Bytes) (e : Environment) (db : Database) : Except String Database :=
  match initialPassword e with
  | .error problem => .error problem
  | .ok pass =>
    if pass.length < 12 || pass.length > 72 then
      .error "initial ADMIN_PASSWORD must contain 12–72 bytes (or set ADMIN_PASSWORD_FILE)"
    else match bcrypt pass with
      | .error problem => .error problem
      | .ok passwordHash => run (firstAdmin (env e.adminUser (utf8 "admin")) passwordHash) db

def start (bcrypt : Bytes → Except String Bytes) (e : Environment) (file : Database) : Except String Database :=
  match openStore file with
  | .error problem => .error problem
  | .ok db =>
    match countAdmins db with
    | .error problem => .error problem
    | .ok n => if n == 0 then bootstrap bcrypt e db else .ok db

end SshLogger
