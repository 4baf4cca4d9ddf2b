import SshLogger.Ingest
import SshLogger.Library.Select

/-! Registering, renaming, rotating and revoking servers, and retention
(`server/api.go`, `server/store.go`). -/

namespace SshLogger
open Library Library.Select

/-- `id` and `token` are the random ids of the new server. -/
def insertServer (db : Db) (who : Principal) (id name tokenHash : String) (now : Int) : Except Problem (Unit × Db) :=
  if db.servers.any fun s => s.id == id || s.name == name || s.tokenHash == tokenHash then
    .error (409, "서버를 등록할 수 없습니다. 중복 이름인지 확인하세요.")
  else
    let row : ServerRow := ⟨id, name, tokenHash, now, 0, Bytes.utf8 "waiting", 0, 0, false⟩
    let roleOf (username : String) :=
      ((db.adminRoles.find? fun r => r.username == username).map AdminRole.role).getD "admin"
    let assigned := db.admins.filter fun a => roleOf a.username == "admin"
    .ok ((), { db with
      servers := db.servers ++ [row]
      adminServers :=
        if who.role != "super_admin" then db.adminServers ++ assigned.map fun a => ⟨a.username, id⟩
        else db.adminServers })

def createServer (hash : String → String) (db : Db) (who : Principal) (name id token : String) (now : Int)
    (stored : Bool) : Except Problem Unit × Db :=
  let name := trimSpace name
  if name.utf8ByteSize < 1 || name.utf8ByteSize > 100 then (.error (400, "서버 이름은 1–100바이트로 입력하세요."), db)
  else transaction db stored (409, "서버를 등록할 수 없습니다. 중복 이름인지 확인하세요.")
    (insertServer db who id name (hash token) now)

def isEditable (accounts : Accounts) (who : Principal) (id : String) (s : ServerRow) : Bool :=
  s.id == id && !s.revoked && scope accounts who s.id

def renameServer (db : Fleet) (accounts : Accounts) (who : Principal) (id name : String) :
    Except Problem (Bool × Fleet) :=
  if !db.servers.any (isEditable accounts who id) then .ok (false, db)
  else if db.servers.any fun s => s.id != id && s.name == name then
    .error (409, "서버 이름을 변경할 수 없습니다. 중복 이름인지 확인하세요.")
  else .ok (true, { db with
    servers := Rows.update (isEditable accounts who id) (fun s => { s with name }) db.servers })

def updateServer (db : Fleet) (accounts : Accounts) (who : Principal) (id name : String) (stored : Bool) :
    Except Problem Unit × Fleet :=
  let name := trimSpace name
  if name.utf8ByteSize < 1 || name.utf8ByteSize > 100 then (.error (400, "서버 이름은 1–100바이트로 입력하세요."), db)
  else match transaction db stored (409, "서버 이름을 변경할 수 없습니다. 중복 이름인지 확인하세요.")
      (renameServer db accounts who id name) with
    | (.error problem, db) => (.error problem, db)
    | (.ok false, db) => (.error (404, "접근 가능한 서버가 없습니다."), db)
    | (.ok true, db) => (.ok (), db)

/-- The desired policy restricts access, or a change of it is not confirmed. -/
def hasPendingFirewall (db : Fleet) (server : String) : Bool :=
  db.firewallPolicies.any fun row => row.serverId == server &&
    (row.policy.bans.length > 0 || row.policy.mode == "allowlist" ||
      (row.revision != row.appliedRevision && db.firewallHistory.any fun h => h.serverId == server))

def replaceToken (db : Fleet) (accounts : Accounts) (who : Principal) (id tokenHash : String) (revoke : Bool) :
    Except Problem (Bool × Fleet) :=
  if revoke && hasPendingFirewall db id then
    .error (409, "SSH 접근 제어를 끄고 에이전트 적용 완료를 확인한 뒤 서버를 폐기하세요.")
  else if db.servers.any (isEditable accounts who id) then
    if db.servers.any fun s => s.id != id && s.tokenHash == tokenHash then .error (503, "인증 정보 변경에 실패했습니다.")
    else .ok (true, { db with
      servers := Rows.update (isEditable accounts who id) (fun s => { s with tokenHash, revoked := revoke }) db.servers })
  else .ok (false, db)

/-- `rotate` and `revoke`. -/
def changeToken (hash : String → String) (db : Fleet) (accounts : Accounts) (who : Principal) (id token : String)
    (revoke stored : Bool) : Except Problem Unit × Fleet :=
  match transaction db stored (503, "인증 정보 변경에 실패했습니다.")
      (replaceToken db accounts who id (hash token) revoke) with
  | (.error problem, db) => (.error problem, db)
  | (.ok false, db) => (.error (404, "서버가 없습니다."), db)
  | (.ok true, db) => (.ok (), db)

/-- The orders in which the store comes upon rows, which a statement without
`ORDER BY` leaves open. -/
structure Visits where
  events : EventRow → EventRow → Bool
  sessions : SessionRow → SessionRow → Bool

/-- `DELETE ... WHERE rowid IN (SELECT rowid ... WHERE selected LIMIT limit)`. -/
def deleteSome {ρ : Type} [DecidableEq ρ] (limit : Nat) (visits : ρ → ρ → Bool) (selected : ρ → Bool) (rows : List ρ) :
    List ρ :=
  let chosen := (orderBy visits (rows.filter selected)).take limit
  rows.filter fun row => !chosen.contains row

/-- The session rows of a server whose agent is gone, by the clock in whole seconds. -/
def isStale (db : Fleet) (now : Int) (server : String) : Bool :=
  db.servers.any fun s => s.id == server && (s.lastSeen < now / 1000 * 1000 - 60000 || s.revoked)

/-- The tables of the agents' data; `days` is the retention setting. -/
def cleanupFleet (visits : Visits) (db : Fleet) (days now : Int) : Fleet :=
  let cutoff := now - days * 86400000
  { db with
    sessionTerminations := Rows.delete (fun row => row.created < cutoff) db.sessionTerminations
    events := deleteSome 1000 visits.events (fun row => row.event.time < cutoff) db.events
    sessions := deleteSome 1000 visits.sessions
      (fun se => se.ended.getD se.started < cutoff && (!se.live || isStale db now se.serverId)) db.sessions }

def cleanupAccounts (db : Accounts) (now : Int) : Accounts :=
  { db with
    authSessions := Rows.delete (fun row => row.expires < now) db.authSessions
    loginAttempts := Rows.delete (fun row => row.reset < now) db.loginAttempts
    authPending := Rows.delete (fun row => row.expires < now) db.authPending
    authLimits := Rows.delete (fun row => row.reset < now) db.authLimits }

def cleanup (visits : Visits) (db : Db) (days now : Int) : Db :=
  { db with toAccounts := cleanupAccounts db.toAccounts now, toFleet := cleanupFleet visits db.toFleet days now }

/-- The requests whose transactions write the agents' tables. Requests about
administrator accounts leave those tables alone. -/
inductive Request
  | ingest (token : String) (b : Batch) (fresh : String)
  | terminateSession (cookieHash server : String) (session : Bytes) (id : String)
  | requestFirewall (server username : String) (ids : ChangeIds) (asked : FirewallChange)
  | createServer (who : Principal) (name id token : String)
  | updateServer (who : Principal) (id name : String)
  | changeToken (who : Principal) (id token : String) (revoke : Bool)
  | accounts (after : Accounts)

/-- `now` is the handler's clock; `stored` tells whether the transaction can be written. -/
def Db.serve (hash : String → String) (db : Db) (now : Int) (stored : Bool) : Request → Db
  | .ingest token b fresh => { db with toFleet := (ingest hash db.toFleet token b now fresh stored).2 }
  | .terminateSession cookieHash server session id =>
    { db with toFleet := (terminateSession db.toFleet db.authSessions cookieHash server session id now stored).2 }
  | .requestFirewall server username ids asked =>
    { db with toFleet := (requestFirewall db.toFleet server username now ids asked stored).2 }
  | .createServer who name id token => (createServer hash db who name id token now stored).2
  | .updateServer who id name => { db with toFleet := (updateServer db.toFleet db.toAccounts who id name stored).2 }
  | .changeToken who id token revoke =>
    { db with toFleet := (changeToken hash db.toFleet db.toAccounts who id token revoke stored).2 }
  | .accounts after => { db with toAccounts := after }

end SshLogger
