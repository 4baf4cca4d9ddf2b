import SshLogger.Servers
import SshLogger.Library.Transaction

/-! Passkeys as the second factor of an administrator account: the ceremonies of
enrolling, using and removing one (`server/passkeys.go`). -/

namespace SshLogger
open Library Library.Transaction

/-- A refusal is committed, so that consumed requests and failure counters
cannot be replayed. A storage error rolls everything back. -/
abbrev AuthTx (α : Type) := Tx Accounts Problem α

def authTransaction {α : Type} (db : Accounts) (stored : Bool) (body : AuthTx α) : Except Problem α × Accounts :=
  commit db stored (503, "인증 정보를 저장하지 못했습니다. 다시 시도하세요.") body

structure PasskeyUser where
  name : String
  id : String
  passwordHash : String
  version : Nat
  credentials : List Credential
  total : Nat
  deriving DecidableEq, Repr

structure CeremonyResponse where
  mfaRequired : Bool
  requestId : String
  step : String
  options : String
  logout : Bool
  deriving DecidableEq, Repr

structure CompletedLogin where
  token : String
  csrf : String
  username : String
  expires : Int
  deriving DecidableEq, Repr

def invalidAuth : Problem := (400, "인증이 유효하지 않거나 만료되었습니다. 처음부터 다시 시도하세요.")

def ceremonyTTL : Int := 5 * 60 * 1000

/-- `PUBLIC_ORIGIN` as `url.Parse` splits it. -/
structure Url where
  scheme : String
  hostname : String
  hasUser : Bool
  rawQuery : String
  fragment : String
  path : String

structure Site where
  origin : String
  url : Option Url

/-- `net.ParseIP(host) != nil` -/
def isIP (host : String) : Bool := (Netip.parseAddr host).any fun addr => (Netip.zone addr).isEmpty

/-- The relying party's id, if the origin can have passkeys. -/
def webAuthn (site : Site) : Except Problem String :=
  match site.url with
  | none => .error (503, "Passkey는 HTTPS 도메인 또는 http://localhost 접속 설정이 필요합니다.")
  | some u =>
    if u.hostname == "" || u.hasUser || u.rawQuery != "" || u.fragment != "" || u.path != "" ||
        (u.scheme != "https" && !(u.scheme == "http" && u.hostname == "localhost")) || isIP u.hostname then
      .error (503, "Passkey는 HTTPS 도메인 또는 http://localhost 접속 설정이 필요합니다.")
    else .ok u.hostname

/-- The WebAuthn library as this relying party configures it. A ceremony begins
with its options and its session data, both the library's own texts; `challenge`
is the random challenge. Verifying an answer includes parsing it. -/
structure WebAuthn where
  beginRegistration : Site → PasskeyUser → List Credential → (challenge : String) → Option (String × String)
  beginLogin : Site → PasskeyUser → (challenge : String) → Option (String × String)
  createCredential : Site → PasskeyUser → (session response : String) → Option Credential
  validateLogin : Site → PasskeyUser → (session response : String) → Option Credential

/-- What the handlers call outside this program. `compare hash password` is bcrypt's check. -/
structure App where
  sha256 : Bytes → { digest : Bytes // digest.length = 32 }
  compare : String → String → Bool
  webauthn : WebAuthn

def hexChar (n : Nat) : Char := "0123456789abcdef".toList.getD n '0'

/-- `hex.EncodeToString` -/
def hexEncode (bytes : Bytes) : String :=
  String.ofList (bytes.flatMap fun byte => [hexChar (byte.toNat / 16), hexChar (byte.toNat % 16)])

/-- Tokens and request ids are stored as their digest. -/
def App.hash (app : App) (token : String) : String := hexEncode (app.sha256 (Bytes.utf8 token)).val

theorem App.hash_ne_empty (app : App) (token : String) : app.hash token ≠ "" := by
  have long := (app.sha256 (Bytes.utf8 token)).property
  unfold App.hash hexEncode
  cases digest : (app.sha256 (Bytes.utf8 token)).val with
  | nil => simp [digest] at long
  | cons first rest => simp

structure AuthIds where
  user : String
  request : String
  challenge : String
  token : String
  csrf : String

def base64Digit (n : Nat) : Char :=
  "ABCDEFGHIJKLMNOPQRSTUVWXYZabcdefghijklmnopqrstuvwxyz0123456789-_".toList.getD n 'A'

def rawURLChars : Bytes → List Char
  | a :: b :: c :: rest =>
    base64Digit (a.toNat / 4) :: base64Digit (a.toNat % 4 * 16 + b.toNat / 16) ::
      base64Digit (b.toNat % 16 * 4 + c.toNat / 64) :: base64Digit (c.toNat % 64) :: rawURLChars rest
  | [a, b] =>
    [base64Digit (a.toNat / 4), base64Digit (a.toNat % 4 * 16 + b.toNat / 16), base64Digit (b.toNat % 16 * 4)]
  | [a] => [base64Digit (a.toNat / 4), base64Digit (a.toNat % 4 * 16)]
  | [] => []

/-- `base64.RawURLEncoding.EncodeToString` -/
def encodeID (id : Bytes) : String := String.ofList (rawURLChars id)

def passkeysOf (db : Accounts) (name : String) : List Passkey := db.passkeys.filter fun k => k.username == name

/-- The account's user id is drawn when it is first needed. -/
def loadPasskeyUser (name rp fresh : String) : AuthTx PasskeyUser := do
  exec fun db =>
    if Rows.has Admin.username name db.admins &&
        !(db.accountAuth.any fun s => s.username == name || s.userId == fresh) then
      { db with accountAuth := db.accountAuth ++ [⟨name, fresh, 0⟩] }
    else db
  let admin ← query fun db => db.admins.find? fun a => a.username == name
  let account ← query fun db => db.accountAuth.find? fun s => s.username == name
  let keys ← query fun db => passkeysOf db name
  let a ← fromOption admin
  let s ← fromOption account
  return {
    name
    id := s.userId
    passwordHash := a.passwordHash
    version := s.version
    credentials := (keys.filter fun k => k.rpId == rp).map Passkey.credential
    total := keys.length }

def checkLimit (key : String) (now : Int) : AuthTx Unit := do
  let row ← query fun db => db.authLimits.find? fun row => row.key == key && row.reset > now
  check ((row.map Attempts.count).getD 0 < 10) (429, "인증 시도가 많습니다. 15분 후 다시 시도하세요.")

/-- Count one more attempt, from one again once the window is over. -/
def countAttempt (key : String) (now : Int) (rows : List Attempts) : List Attempts :=
  Rows.upsert Attempts.key ⟨key, 1, now + 15 * 60 * 1000⟩
    (fun row => { row with
      count := if row.reset ≤ now then 1 else row.count + 1
      reset := if row.reset ≤ now then now + 15 * 60 * 1000 else row.reset }) rows

def recordFailure (key : String) (now : Int) : AuthTx Unit :=
  exec fun db => { db with authLimits := countAttempt key now db.authLimits }

def checkActiveSession (session username : String) (now : Int) : AuthTx Unit := do
  let rows ← query fun db =>
    db.authSessions.filter fun row => row.tokenHash == session && row.username == username && row.expires > now
  check (rows.length == 1) (401, "다시 로그인하세요.")

/-- The ids of all but the nine pending requests of the account that expire last. -/
def abandoned (rows : List AuthPending) (username : String) : List String :=
  (((rows.filter fun row => row.username == username).insertionSort fun a b => b.expires ≤ a.expires).drop 9).map
    AuthPending.idHash

def savePending (hash : String → String) (p : PendingAuth) (id : String) (now : Int) : AuthTx String := do
  exec fun db =>
    let isOld (row : AuthPending) : Bool := row.username == p.username &&
      (row.expires ≤ now || (abandoned db.authPending p.username).contains row.idHash)
    { db with authPending := Rows.delete isOld db.authPending }
  let taken ← query fun db => Rows.has AuthPending.idHash (hash id) db.authPending
  require (!taken)
  exec fun db => { db with authPending := db.authPending ++ [⟨hash id, p.username, now + ceremonyTTL, p⟩] }
  return id

/-- What is left to fill in is taken from the account. -/
def beginCeremony (app : App) (site : Site) (rp : String) (u : PasskeyUser) (p : PendingAuth) (registration : Bool)
    (ids : AuthIds) (now : Int) : AuthTx CeremonyResponse := do
  check (registration || u.credentials.length != 0)
    (400, "현재 도메인에서 사용할 Passkey가 없습니다. 서버 운영자에게 복구를 요청하세요.")
  let (options, session) ← fromOption (
    if registration then app.webauthn.beginRegistration site u u.credentials ids.challenge
    else app.webauthn.beginLogin site u ids.challenge)
  let p := { p with
    username := u.name, passwordHash := u.passwordHash, version := u.version, rpId := rp, origin := site.origin, session }
  let id ← savePending app.hash p ids.request now
  return ⟨p.purpose == "login", id, if registration then "register" else "authenticate", options, false⟩

def invalidatePending (username : String) : AuthTx Unit :=
  exec fun db => { db with
    accountAuth := Rows.update (fun s => s.username == username) (fun s => { s with version := s.version + 1 })
      db.accountAuth
    authPending := Rows.delete (fun row => row.username == username) db.authPending }

def revokeAfterPasskeyChange (name current : String) (all : Bool) : AuthTx Unit := do
  invalidatePending name
  let current := if all then "" else current
  exec fun db => { db with
    authSessions := Rows.delete (fun row => row.username == name && row.tokenHash != current) db.authSessions }

def createLoginSession (hash : String → String) (name : String) (ids : AuthIds) (now : Int) : AuthTx CompletedLogin := do
  let taken ← query fun db => Rows.has AuthSession.tokenHash (hash ids.token) db.authSessions
  require (!taken)
  let expires := now + 12 * 60 * 60 * 1000
  exec fun db => { db with authSessions := db.authSessions ++ [⟨hash ids.token, ids.csrf, expires, name⟩] }
  return ⟨ids.token, ids.csrf, name, expires⟩

structure ManageRequest where
  username : String
  sessionHash : String
  password : String
  action : String
  target : String
  name : String

def isManageable (r : ManageRequest) : Bool :=
  (r.action == "add" || r.action == "delete" || r.action == "disable") &&
    !(r.action == "add" && (trimSpace r.name == "" || (trimSpace r.name).length > 80)) &&
    !(r.action == "delete" && r.target == "")

def beginManaging (app : App) (site : Site) (r : ManageRequest) (ids : AuthIds) (now : Int) :
    AuthTx CeremonyResponse := do
  let rp ← fromExcept (webAuthn site)
  checkActiveSession r.sessionHash r.username now
  checkLimit ("manage:" ++ r.username) now
  let u ← loadPasskeyUser r.username rp ids.user
  if !app.compare u.passwordHash r.password then
    recordFailure ("manage:" ++ r.username) now
    refuse (400, "현재 비밀번호가 올바르지 않습니다.")
  else
    check (r.action == "add" || u.total != 0) invalidAuth
    let owned ← query fun db => (passkeysOf db r.username).any fun k => k.id == r.target
    check (r.action != "delete" || owned) invalidAuth
    let p : PendingAuth := {
      username := "", passwordHash := "", sessionHash := r.sessionHash
      purpose := if u.total == 0 then "register" else r.action
      target := r.target, name := trimSpace r.name, rpId := "", origin := "", ip := "", version := 0, session := "" }
    beginCeremony app site rp u p (u.total == 0) ids now

def passkeyBegin (app : App) (site : Site) (db : Accounts) (r : ManageRequest) (ids : AuthIds) (now : Int)
    (stored : Bool) : Except Problem CeremonyResponse × Accounts :=
  if !isManageable r then (.error (400, "작업과 Passkey 이름(1–80자)을 확인하세요."), db)
  else authTransaction db stored (beginManaging app site r ids now)

/-- `username` and `sessionHash` are empty when nobody is logged in. -/
structure FinishRequest where
  origin : String
  requestId : String
  response : String
  username : String
  sessionHash : String

inductive Endpoint
  | finish
  | register
  | login
  deriving DecidableEq, Repr

/-- Wrong sessions and endpoints must not consume another user's request. -/
def isAddressed (p : PendingAuth) (endpoint : Endpoint) (r : FinishRequest) : Bool :=
  (p.purpose == "login") == (endpoint == .login) && (p.purpose == "register") == (endpoint == .register) &&
    (endpoint == .login || (p.sessionHash == r.sessionHash && p.username == r.username))

/-- Every ceremony but a login belongs to a login session. -/
def checkCaller (endpoint : Endpoint) (p : PendingAuth) (now : Int) : AuthTx Unit :=
  if endpoint == .login then pure () else checkActiveSession p.sessionHash p.username now

def enrol (p : PendingAuth) (u : PasskeyUser) (credential : Credential) (now : Int) : AuthTx Unit := do
  let taken ← query fun db => Rows.has Passkey.id (encodeID credential.id) db.passkeys
  check (!taken) (409, "이미 등록된 Passkey입니다.")
  exec fun db => { db with
    passkeys := db.passkeys ++ [⟨encodeID credential.id, u.name, p.rpId, credential, p.name, now, 0⟩] }
  revokeAfterPasskeyChange u.name p.sessionHash (u.total == 0)

def useKey (u : PasskeyUser) (credential : Credential) (now : Int) : AuthTx Unit :=
  exec fun db => { db with
    passkeys := Rows.update (fun k => k.id == encodeID credential.id && k.username == u.name)
      (fun k => { k with credential, lastUsed := now }) db.passkeys }

def removeKeys (p : PendingAuth) (u : PasskeyUser) : AuthTx Unit := do
  exec fun db => { db with
    passkeys := Rows.delete (fun k => k.username == u.name && (p.purpose == "disable" || k.id == p.target)) db.passkeys }
  revokeAfterPasskeyChange u.name p.sessionHash (p.purpose == "disable" || u.total == 1)

inductive Finished
  | ceremony (response : CeremonyResponse)
  | login (session : CompletedLogin)
  deriving DecidableEq, Repr

def complete (app : App) (site : Site) (rp : String) (endpoint : Endpoint) (p : PendingAuth) (u : PasskeyUser)
    (credential : Credential) (key : String) (ids : AuthIds) (now : Int) : AuthTx Finished :=
  let clear : AuthTx Unit := exec fun db => { db with
    authLimits := Rows.delete (fun row => row.key == key) db.authLimits }
  match endpoint with
  | .register => do
    enrol p u credential now
    clear
    return .ceremony ⟨false, "", "", "", u.total == 0⟩
  | .login => do
    useKey u credential now
    clear
    let session ← createLoginSession app.hash u.name ids now
    exec fun db => { db with loginAttempts := Rows.delete (fun row => row.key == p.ip) db.loginAttempts }
    return .login session
  | .finish => do
    useKey u credential now
    if p.purpose == "add" then
      let response ← beginCeremony app site rp u { p with purpose := "register" } true ids now
      return .ceremony response
    else
      removeKeys p u
      clear
      return .ceremony ⟨false, "", "", "", p.purpose == "disable" || u.total == 1⟩

def finishPending (app : App) (site : Site) (endpoint : Endpoint) (r : FinishRequest) (ids : AuthIds) (now : Int) :
    AuthTx Finished := do
  let found ← query fun db => db.authPending.find? fun row => row.idHash == app.hash r.requestId
  let row ← fromExcept (match found with | none => .error invalidAuth | some row => .ok row)
  let p := row.data
  check (isAddressed p endpoint r) invalidAuth
  exec fun db => { db with
    authPending := Rows.delete (fun row => row.idHash == app.hash r.requestId) db.authPending }
  check (row.expires > now) invalidAuth
  checkCaller endpoint p now
  let rp ← fromExcept (webAuthn site)
  let u ← loadPasskeyUser p.username rp ids.user
  check (p.version == u.version && p.passwordHash == u.passwordHash && p.rpId == rp && p.origin == site.origin) invalidAuth
  let key := (if endpoint == .login then "login:" else "manage:") ++ p.username
  checkLimit key now
  match if endpoint == .register then app.webauthn.createCredential site u p.session r.response
      else app.webauthn.validateLogin site u p.session r.response with
  | none =>
    recordFailure key now
    refuse invalidAuth
  | some credential => complete app site rp endpoint p u credential key ids now

/-- `passkeyFinish`, `registrationFinish` and `passkeyLoginFinish`. -/
def finishCeremony (app : App) (site : Site) (db : Accounts) (endpoint : Endpoint) (r : FinishRequest) (ids : AuthIds)
    (now : Int) (stored : Bool) : Except Problem Finished × Accounts :=
  if r.origin != site.origin then (.error (403, "요청 출처가 올바르지 않습니다."), db)
  else authTransaction db stored (finishPending app site endpoint r ids now)

def removeFactors (username : String) : AuthTx Unit := do
  let known ← query fun db => Rows.has Admin.username username db.admins
  require known
  exec fun db => { db with
    passkeys := Rows.delete (fun k => k.username == username) db.passkeys
    authLimits := Rows.delete (fun row => row.key == "manage:" ++ username || row.key == "login:" ++ username)
      db.authLimits }
  revokeAfterPasskeyChange username "" true

def resetTwoFactor (db : Accounts) (username : String) (stored : Bool) : Except Problem Unit × Accounts :=
  authTransaction db stored (removeFactors username)

end SshLogger
