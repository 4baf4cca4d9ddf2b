import SshLogger.Administration
import SshLogger.Servers

/-! The requests of logged-in administrators: the checks of the middleware, the
transactions behind them, and the two in any interleaving (`server/permissions.go`,
`App.auth` and the routes in `server/api.go`). -/

namespace SshLogger
open Library Library.History

/-- What `App.auth` reads of a request. -/
structure Headers where
  cookie : Option String
  origin : String
  csrf : String
  isGet : Bool
  deriving DecidableEq, Repr

def principalOf (app : App) (db : Accounts) (cookie : String) (now : Int) : Option Principal :=
  (activeSession db (app.hash cookie) now).map fun row => ⟨row.username, roleOf db row.username⟩

/-- `App.auth`, with the cookie it goes on with. -/
def auth (app : App) (site : Site) (db : Accounts) (r : Headers) (now : Int) : Except Problem (String × Principal) :=
  match r.cookie with
  | none => .error (401, "로그인이 필요합니다.")
  | some cookie =>
    match activeSession db (app.hash cookie) now with
    | none => .error (401, "로그인이 만료되었습니다.")
    | some row =>
      if !r.isGet && (r.origin != site.origin || r.csrf != row.csrf) then
        .error (403, "요청 출처 또는 CSRF 토큰이 올바르지 않습니다.")
      else .ok (cookie, ⟨row.username, roleOf db row.username⟩)

/-- `App.super` -/
def superOnly (who : Principal) : Except Problem Unit :=
  if who.role != "super_admin" then .error (403, "Super admin 권한이 필요합니다.") else .ok ()

/-- `App.assigned` -/
def assigned (db : Db) (who : Principal) (id : String) : Except Problem Unit :=
  if db.servers.any (isEditable db.toAccounts who id) then .ok () else .error (404, "접근 가능한 서버가 없습니다.")

def invalidAccess : Problem := (400, "계정·서버를 확인하세요. 마지막 super admin은 해제할 수 없습니다.")

def assignServers (servers : List ServerRow) (target : String) : List String → List AdminServer → Option (List AdminServer)
  | [], rows => some rows
  | id :: rest, rows =>
    if servers.any fun s => s.id == id && !s.revoked then
      assignServers servers target rest (Rows.insertOrIgnore (fun row => (row.username, row.serverId)) ⟨target, id⟩ rows)
    else none

def grantAccess (db : Db) (target role : String) (ids : List String) : Except Problem (Unit × Db) :=
  if !Rows.has Admin.username target db.admins then .error invalidAccess
  else if role != "super_admin" && !db.adminRoles.any (fun r => r.role == "super_admin" && r.username != target) then
    .error invalidAccess
  else match assignServers db.servers target ids (Rows.delete (fun row => row.username == target) db.adminServers) with
    | none => .error invalidAccess
    | some rows => .ok ((), { db with
        adminServers := rows
        adminRoles := Rows.upsert AdminRole.username ⟨target, role⟩ (fun r => { r with role }) db.adminRoles })

def updateAdminAccess (db : Db) (target role : String) (ids : List String) (stored : Bool) : Except Problem Unit × Db :=
  if (role != "super_admin" && role != "admin") || ids.length > 1000 then (.error (400, "잘못된 권한 설정입니다."), db)
  else transaction db stored (503, "권한 저장 실패") (grantAccess db target role ids)

deriving instance DecidableEq for ChangeIds

/-- A change one of the ten handlers is asked for, with the ids and the hash it draws. -/
inductive Mutation
  | createAdmin (username password passwordHash : String)
  | deleteAdmin (target : String)
  | updateAdminAccess (target role : String) (servers : List String)
  | changeFirewall (server : String) (ids : ChangeIds) (asked : FirewallChange)
  | terminateSession (server : String) (session : Bytes) (id : String)
  deriving DecidableEq

namespace Mutation

/-- The routes behind `App.super`. -/
def isSuper : Mutation → Bool
  | createAdmin .. | deleteAdmin _ | updateAdminAccess .. => true
  | changeFirewall _ _ (.settings ..) => true
  | _ => false

/-- The routes behind `App.assigned`, with their `{id}`. -/
def server : Mutation → Option String
  | changeFirewall server _ _ => some server
  | terminateSession server _ _ => some server
  | _ => none

def minted : Mutation → Option String
  | createAdmin _ _ passwordHash => some passwordHash
  | _ => none

end Mutation

/-- A request past `App.auth` and `App.super`; `placed` once it is past `App.assigned` too. -/
structure Checked where
  mutation : Mutation
  cookie : String
  who : Principal
  placed : Bool
  deriving DecidableEq

def enter (app : App) (site : Site) (db : Accounts) (m : Mutation) (r : Headers) (now : Int) : Except Problem Checked :=
  match auth app site db r now with
  | .error problem => .error problem
  | .ok (cookie, who) =>
    match if m.isSuper then superOnly who else .ok () with
    | .error problem => .error problem
    | .ok () => .ok ⟨m, cookie, who, m.server.isNone⟩

def enterServer (db : Db) (f : Checked) : Except Problem Checked :=
  match f.mutation.server with
  | none => .ok { f with placed := true }
  | some id => (assigned db f.who id).map fun _ => { f with placed := true }

/-- The handler of a request, with the name, id or revision it answers. -/
def perform (app : App) (db : Db) (f : Checked) (now : Int) (stored : Bool) : Except Problem String × Db :=
  match f.mutation with
  | .createAdmin username password passwordHash =>
    let (result, accounts) := SshLogger.createAdmin app db.toAccounts f.cookie username password passwordHash now stored
    (result.map fun _ => username, { db with toAccounts := accounts })
  | .deleteAdmin target =>
    let (result, accounts) := SshLogger.deleteAdmin app db.toAccounts f.cookie target now stored
    (result.map fun _ => target, { db with toAccounts := accounts })
  | .updateAdminAccess target role servers =>
    let (result, db) := SshLogger.updateAdminAccess db target role servers stored
    (result.map fun _ => target, db)
  | .changeFirewall server ids asked =>
    let (result, fleet) := requestFirewall db.toFleet server f.who.username now ids asked stored
    (result, { db with toFleet := fleet })
  | .terminateSession server session id =>
    let (result, fleet) :=
      SshLogger.terminateSession db.toFleet db.authSessions (app.hash f.cookie) server session id now stored
    (result, { db with toFleet := fleet })

structure Console where
  admin : Administration
  fleet : Fleet
  waiting : List Checked

def Console.db (c : Console) : Db := { toAccounts := c.admin.db, toFleet := c.fleet }

def Console.commit (c : Console) (db : Db) : Console :=
  { c with admin := { c.admin with db := db.toAccounts }, fleet := db.toFleet }

def isRouted : AdminAct → Bool
  | .createAdmin .. | .deleteAdmin .. | .assign .. => true
  | _ => false

inductive ConsoleAct
  | account (act : AdminAct)
  | enter (site : Site) (m : Mutation) (r : Headers) (now : Int)
  | place (f : Checked)
  | transact (f : Checked) (now : Int) (stored : Bool)
  | createServer (who : Principal) (name id token : String) (now : Int) (stored : Bool)
  | updateServer (who : Principal) (id name : String) (stored : Bool)
  | changeToken (who : Principal) (id token : String) (revoke stored : Bool)
  | ingest (token : String) (b : Batch) (now : Int) (fresh : String) (stored : Bool)
  | cleanupFleet (visits : Visits) (days now : Int)

section
variable (app : App)

/-- A request's checks and its transaction are steps of their own. `who` is any
account that a request to create, rename, rotate or revoke a server came from. -/
inductive Console.Step (c : Console) : ConsoleAct → Console → Prop
  | account (act next) : isRouted act = false → Administration.Step app c.admin act next →
      Step c (.account act) { c with admin := next }
  | enter (site m r now) : r.isGet = false → Step c (.enter site m r now) { c with
      waiting := match SshLogger.enter app site c.admin.db m r now with
        | .ok f => f :: c.waiting
        | .error _ => c.waiting }
  | place (f later earlier) : c.waiting = later ++ f :: earlier → Step c (.place f) { c with
      waiting := match enterServer c.db f with
        | .ok placed => placed :: (later ++ earlier)
        | .error _ => later ++ earlier }
  | transact (f now stored later earlier) : c.waiting = later ++ f :: earlier → f.placed = true →
      (∀ hash, f.mutation.minted = some hash → hash ∉ c.admin.minted) →
      Step c (.transact f now stored)
        { (c.commit (perform app c.db f now stored).2) with
          admin := { (c.commit (perform app c.db f now stored).2).admin with
            minted := f.mutation.minted.toList ++ c.admin.minted }
          waiting := later ++ earlier }
  | createServer (who name id token now stored) : Step c (.createServer who name id token now stored)
      (c.commit (SshLogger.createServer app.hash c.db who name id token now stored).2)
  | updateServer (who id name stored) : Step c (.updateServer who id name stored)
      { c with fleet := (SshLogger.updateServer c.fleet c.admin.db who id name stored).2 }
  | changeToken (who id token revoke stored) : Step c (.changeToken who id token revoke stored)
      { c with fleet := (SshLogger.changeToken app.hash c.fleet c.admin.db who id token revoke stored).2 }
  | ingest (token b now fresh stored) : Step c (.ingest token b now fresh stored)
      { c with fleet := (SshLogger.ingest app.hash c.fleet token b now fresh stored).2 }
  | cleanupFleet (visits days now) : Step c (.cleanupFleet visits days now)
      { c with fleet := SshLogger.cleanupFleet visits c.fleet days now }

def console : System Console ConsoleAct where
  init c := (administration app).init c.admin ∧ c.waiting = []
  step := Console.Step app

end

end SshLogger
