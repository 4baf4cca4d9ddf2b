import SshLogger.Passkeys

/-! Logging in and out, changing a password, and creating and deleting
administrator accounts (`server/api.go`, `server/accounts.go`). Password hashing
runs outside the transactions, so a login and a password change have several parts. -/

namespace SshLogger
open Library Library.Transaction

structure LoginRequest where
  origin : String
  ip : String
  username : String
  password : String
  deriving DecidableEq, Repr

/-- A login whose password was right for the hash it read. -/
structure VerifiedLogin where
  username : String
  passwordHash : String
  ip : String
  deriving DecidableEq, Repr

/-- Compared when the account does not exist, so that the answer takes as long. -/
def dummyHash : String := "$2a$10$N9qo8uLOickgx2ZMRZoMyeIjZAgcfl7p92ldGxad68LJZdL17lhWy"

/-- The handler up to its reading of the hash. -/
def admitLogin (site : Site) (db : Accounts) (r : LoginRequest) (now : Int) : Except Problem Unit :=
  if r.origin != site.origin then .error (403, "PUBLIC_ORIGIN과 접속 주소가 일치해야 합니다.")
  else
    let row := db.loginAttempts.find? fun row => row.key == r.ip && row.reset > now
    let failures := (row.map Attempts.count).getD 0
    if failures ≥ 10 then .error (429, "로그인 시도가 많습니다. 15분 후 다시 시도하세요.") else .ok ()

def verifyLogin (app : App) (db : Accounts) (r : LoginRequest) : Option VerifiedLogin :=
  let admin := db.admins.find? fun a => a.username == r.username
  let h := (admin.map Admin.passwordHash).getD dummyHash
  let valid := app.compare h r.password
  if admin.isSome && valid then some ⟨r.username, h, r.ip⟩ else none

def failLogin (db : Accounts) (ip : String) (now : Int) (stored : Bool) : Except Problem Unit × Accounts :=
  commit db stored (503, "잠시 후 다시 시도하세요.") do
    exec fun db => { db with loginAttempts := countAttempt ip now db.loginAttempts }
    refuse (401, "계정 또는 비밀번호가 올바르지 않습니다.")

/-- The password must still be the one that was checked. -/
def finishLogin (app : App) (site : Site) (l : VerifiedLogin) (ids : AuthIds) (now : Int) : AuthTx Finished := do
  let admin ← query fun db => db.admins.find? fun a => a.username == l.username
  let a ← fromExcept (match admin with | none => .error invalidAuth | some a => .ok a)
  check (a.passwordHash == l.passwordHash) invalidAuth
  let keys ← query fun db => passkeysOf db l.username
  if keys.length > 0 then
    checkLimit ("login:" ++ l.username) now
    let rp ← fromExcept (webAuthn site)
    let u ← loadPasskeyUser l.username rp ids.user
    let p : PendingAuth := {
      username := "", passwordHash := "", sessionHash := "", purpose := "login", target := "", name := "", rpId := ""
      origin := "", ip := l.ip, version := 0, session := "" }
    let response ← beginCeremony app site rp u p false ids now
    return .ceremony response
  else
    let session ← createLoginSession app.hash l.username ids now
    exec fun db => { db with loginAttempts := Rows.delete (fun row => row.key == l.ip) db.loginAttempts }
    return .login session

def login (app : App) (site : Site) (db : Accounts) (l : VerifiedLogin) (ids : AuthIds) (now : Int) (stored : Bool) :
    Except Problem Finished × Accounts :=
  authTransaction db stored (finishLogin app site l ids now)

def logout (app : App) (db : Accounts) (cookie : String) (stored : Bool) : Except Problem Unit × Accounts :=
  commit db stored (503, "로그아웃에 실패했습니다.") do
    exec fun db => { db with authSessions := Rows.delete (fun row => row.tokenHash == app.hash cookie) db.authSessions }

def validPassword (password : String) : Bool := password.utf8ByteSize ≥ 12 && password.utf8ByteSize ≤ 72

structure PasswordRequest where
  cookie : String
  currentPassword : String
  newPassword : String

structure VerifiedChange where
  cookie : String
  username : String
  oldHash : String
  deriving DecidableEq, Repr

def activeSession (db : Accounts) (tokenHash : String) (now : Int) : Option AuthSession :=
  db.authSessions.find? fun row => row.tokenHash == tokenHash && row.expires > now

def verifyChange (app : App) (db : Accounts) (r : PasswordRequest) (now : Int) : Except Problem VerifiedChange :=
  if !validPassword r.newPassword then .error (400, "새 비밀번호는 UTF-8 기준 12–72바이트여야 합니다.")
  else
    let admin := (activeSession db (app.hash r.cookie) now).bind fun row =>
      db.admins.find? fun a => a.username == row.username
    match admin with
    | none => .error (401, "다시 로그인하세요.")
    | some a =>
      if !app.compare a.passwordHash r.currentPassword then .error (400, "현재 비밀번호가 올바르지 않습니다.")
      else if r.currentPassword == r.newPassword then .error (400, "현재 비밀번호와 다른 새 비밀번호를 입력하세요.")
      else .ok ⟨r.cookie, a.username, a.passwordHash⟩

def replacePassword (app : App) (c : VerifiedChange) (newHash : String) (now : Int) : Tx Accounts Problem Unit := do
  let active ← query fun db => (activeSession db (app.hash c.cookie) now).isSome
  let known ← query fun db => db.admins.any fun a => a.username == c.username && a.passwordHash == c.oldHash
  check (active && known) (401, "계정 정보가 변경되었습니다. 다시 로그인하세요.")
  exec fun db => { db with
    admins := Rows.update (fun a => a.username == c.username && a.passwordHash == c.oldHash)
      (fun a => { a with passwordHash := newHash }) db.admins }
  invalidatePending c.username
  exec fun db => { db with authSessions := Rows.delete (fun row => row.username == c.username) db.authSessions }

def changePassword (app : App) (db : Accounts) (c : VerifiedChange) (newHash : String) (now : Int) (stored : Bool) :
    Except Problem Unit × Accounts :=
  commit db stored (503, "비밀번호 변경에 실패했습니다.") (replacePassword app c newHash now)

/-- `^[A-Za-z0-9][A-Za-z0-9_.-]{0,63}$` -/
def isAdminUsername (username : String) : Bool :=
  let isAlnum (c : Char) : Bool := ('A' ≤ c && c ≤ 'Z') || ('a' ≤ c && c ≤ 'z') || ('0' ≤ c && c ≤ '9')
  match username.toList with
  | [] => false
  | first :: rest => isAlnum first && rest.length ≤ 63 && rest.all fun c => isAlnum c || c == '_' || c == '.' || c == '-'

def insertAdmin (app : App) (cookie username passwordHash : String) (now : Int) : Tx Accounts Problem Unit := do
  let rows ← query fun db => db.authSessions.filter fun row => row.tokenHash == app.hash cookie && row.expires > now
  check (rows.length == 1) (401, "다시 로그인하세요.")
  let known ← query fun db => Rows.has Admin.username username db.admins
  check (!known) (409, "이미 사용 중인 관리자 계정명입니다.")
  exec fun db => { db with admins := db.admins ++ [⟨username, passwordHash⟩] }

/-- `passwordHash` is the hash bcrypt has made of the password. -/
def createAdmin (app : App) (db : Accounts) (cookie username password passwordHash : String) (now : Int)
    (stored : Bool) : Except Problem Unit × Accounts :=
  if !isAdminUsername username then
    (.error (400, "계정명은 영문·숫자로 시작하는 1–64자의 영문·숫자·점·밑줄·하이픈만 사용할 수 있습니다."), db)
  else if !validPassword password then (.error (400, "비밀번호는 UTF-8 기준 12–72바이트여야 합니다."), db)
  else commit db stored (503, "관리자 계정 저장에 실패했습니다.") (insertAdmin app cookie username passwordHash now)

def roleOf (db : Accounts) (username : String) : String :=
  ((db.adminRoles.find? fun r => r.username == username).map AdminRole.role).getD "admin"

/-- The caller and the target are rechecked in the transaction of the deletion,
which cascades to the account's keys and pending requests. -/
def removeAdmin (app : App) (cookie target : String) (now : Int) : Tx Accounts Problem Unit := do
  let caller ← query fun db => (activeSession db (app.hash cookie) now).map fun row => roleOf db row.username
  let role ← fromExcept (match caller with | none => .error (401, "다시 로그인하세요.") | some role => .ok role)
  check (role == "super_admin") (403, "Super admin 권한이 필요합니다.")
  let known ← query fun db => Rows.has Admin.username target db.admins
  check known (404, "관리자 계정을 찾을 수 없습니다.")
  let targetRole ← query fun db => roleOf db target
  check (targetRole != "super_admin") (403, "최고 관리자 계정은 삭제할 수 없습니다.")
  exec fun db => { db with
    authSessions := Rows.delete (fun row => row.username == target) db.authSessions
    adminServers := Rows.delete (fun row => row.username == target) db.adminServers
    adminRoles := Rows.delete (fun row => row.username == target) db.adminRoles
    admins := Rows.delete (fun row => row.username == target) db.admins
    accountAuth := Rows.delete (fun row => row.username == target) db.accountAuth
    passkeys := Rows.delete (fun row => row.username == target) db.passkeys
    authPending := Rows.delete (fun row => row.username == target) db.authPending }

def deleteAdmin (app : App) (db : Accounts) (cookie target : String) (now : Int) (stored : Bool) :
    Except Problem Unit × Accounts :=
  commit db stored (503, "관리자 계정 삭제에 실패했습니다.") (removeAdmin app cookie target now)

end SshLogger
