import SshLogger.Store

/-! The desired firewall policy of each server, the requests that change it and
the agents' reports about it (`server/firewall.go`). -/

namespace SshLogger
open Library

def emptyPolicy (revision : String) : FirewallPolicy := ⟨revision, "", [], [], [22], [], []⟩

/-- The stored policy, or the empty one under a new revision. -/
def readPolicy (db : Fleet) (server fresh : String) : FirewallPolicy :=
  match db.firewallPolicies.find? (fun row => row.serverId == server) with
  | some row => row.policy
  | none => emptyPolicy fresh

/-- The random ids one change draws: the revision of an absent policy, the new
revision and the id of its history row. -/
structure ChangeIds where
  absent : String
  revision : String
  history : String

structure ChangeRequest where
  server : String
  username : String
  now : Int
  ip : String
  action : String

def commitPolicy (db : Fleet) (r : ChangeRequest) (ids : ChangeIds) (p : FirewallPolicy) : Fleet :=
  { db with
    firewallHistory :=
      Rows.update (fun row => row.serverId == r.server && row.status == .pending)
        (fun row => { row with status := .superseded }) db.firewallHistory ++
      [⟨ids.history, r.server, ids.revision, r.ip, r.action, r.username, r.now, .pending, []⟩]
    firewallPolicies :=
      Rows.upsert PolicyRow.serverId ⟨r.server, ids.revision, p, "", [], 0, 0⟩
        (fun row => { row with revision := ids.revision, policy := p, error := [] }) db.firewallPolicies }

def preparePolicy (db : Fleet) (r : ChangeRequest) (ids : ChangeIds)
    (change : FirewallPolicy → Except String FirewallPolicy) : Except Problem (String × Fleet) :=
  match change (readPolicy db r.server ids.absent) with
  | .error message => .error (400, message)
  | .ok p =>
    let p := { p with revision := ids.revision }
    match p.validate with
    | .error message => .error (400, message)
    | .ok () =>
      let capable := ((db.firewallPolicies.find? fun row => row.serverId == r.server).map PolicyRow.capable).getD 0
      if p.mode == "allowlist" && capable < 2 then
        .error (400, "화이트리스트를 지원하는 에이전트로 업데이트한 뒤 다시 시도하세요.")
      else if Rows.has HistoryRow.id ids.history db.firewallHistory then .error (503, "방화벽 요청 저장 실패")
      else .ok (ids.revision, commitPolicy db r ids p)

def changeFirewall (db : Fleet) (r : ChangeRequest) (ids : ChangeIds)
    (change : FirewallPolicy → Except String FirewallPolicy) (stored : Bool) : Except Problem String × Fleet :=
  transaction db stored (503, "방화벽 요청 저장 실패") (preparePolicy db r ids change)

/-- `strings.TrimSpace` -/
def trimSpace (text : String) : String :=
  let space (c : Char) : Bool :=
    [0x9, 0xA, 0xB, 0xC, 0xD, 0x20, 0x85, 0xA0, 0x1680, 0x2028, 0x2029, 0x202F, 0x205F, 0x3000].contains c.toNat ||
      (0x2000 ≤ c.toNat && c.toNat ≤ 0x200A)
  String.ofList ((text.toList.dropWhile space).reverse.dropWhile space).reverse

/-- Names are optional metadata beside the allowed addresses. -/
def setAllowedName (p : FirewallPolicy) (ip : String) (name : Option String) : FirewallPolicy :=
  match name with
  | none => p
  | some name =>
    let value := trimSpace name
    let others := Rows.delete (fun entry : String × String => entry.1 == ip) p.allowedNames
    if value == "" then { p with allowedNames := others }
    else { p with allowedNames := others ++ [(ip, value)] }

def putBan (ban : IPBan) : List IPBan → List IPBan
  | [] => [ban]
  | first :: rest => if first.ip == ban.ip then ban :: rest else first :: putBan ban rest

/-- A request that changes one server's policy, as decoded from its body and path. -/
inductive FirewallChange
  | ban (ip : String) (disconnect : Bool)
  | unban (ip : String)
  | settings (ports : List Int) (protectedIPs : Option (List String)) (mode : Option String)
  | allow (ip : String) (name : Option String)
  | updateAllow (ip : String) (name : Option String)
  | removeAllow (ip : String)
  deriving DecidableEq, Repr

namespace FirewallChange

/-- The checks a handler makes before the transaction: addresses take their
canonical spelling. The first component is the history row's address. -/
def canonical : FirewallChange → Except String (String × FirewallChange)
  | ban ip disconnect => do
    let ip ← canonicalIP ip
    return (ip, ban ip disconnect)
  | unban ip => do
    let ip ← canonicalIP ip
    return (ip, unban ip)
  | settings ports protectedIPs mode => do
    let addresses ← (protectedIPs.getD []).mapM canonicalIP
    return ("", settings ports (protectedIPs.map fun _ => addresses) mode)
  | allow ip name => do
    let ip ← canonicalIP ip
    return (ip, allow ip name)
  | updateAllow ip name => do
    let ip ← canonicalIP ip
    if name.isNone then .error "변경할 이름을 입력하세요." else return (ip, updateAllow ip name)
  | removeAllow ip => do
    let ip ← canonicalIP ip
    return (ip, removeAllow ip)

def action : FirewallChange → String
  | ban .. => "ban"
  | unban _ => "unban"
  | settings .. => "settings"
  | allow .. => "allow"
  | updateAllow .. => "update_allow"
  | removeAllow _ => "remove_allow"

def apply (p : FirewallPolicy) : FirewallChange → Except String FirewallPolicy
  | ban ip disconnect =>
    if p.mode != "" then .error "화이트리스트 전환 후에는 허용 IP 목록에서 접근을 관리하세요."
    else .ok { p with bans := putBan ⟨ip, disconnect⟩ p.bans }
  | unban ip => .ok { p with bans := Rows.delete (fun b => b.ip == ip) p.bans }
  | settings ports protectedIPs mode =>
    let p := { p with ports, protectedIPs := protectedIPs.getD p.protectedIPs }
    match mode with
    | none => .ok p
    | some mode =>
      if mode != "allowlist" && mode != "off" then .error "접근 정책은 allowlist 또는 off로 설정하세요."
      else .ok { p with mode, bans := [] }
  | allow ip name =>
    let p := setAllowedName p ip name
    .ok (if p.allowed.contains ip then p else { p with allowed := p.allowed ++ [ip] })
  | updateAllow ip name =>
    if p.allowed.contains ip then .ok (setAllowedName p ip name) else .error "등록된 허용 IP를 찾을 수 없습니다."
  | removeAllow ip =>
    .ok { p with
      allowed := p.allowed.filter (· != ip)
      allowedNames := Rows.delete (fun entry => entry.1 == ip) p.allowedNames }

end FirewallChange

/-- The handlers `banIP` to `removeAllowedIP`. -/
def requestFirewall (db : Fleet) (server username : String) (now : Int) (ids : ChangeIds) (asked : FirewallChange)
    (stored : Bool) : Except Problem String × Fleet :=
  match asked.canonical with
  | .error message => (.error (400, message), db)
  | .ok (ip, asked) => changeFirewall db ⟨server, username, now, ip, asked.action⟩ ids asked.apply stored

/-- 0: unavailable, 1: legacy denylist, 2: allowlist and legacy support. -/
def capability (b : Batch) : Nat := if b.canFirewall then (if b.canAllowlist then 2 else 1) else 0

/-- An older agent would take an allowlist for an empty denylist. -/
def isCompatible (p : FirewallPolicy) (b : Batch) : Bool := b.canFirewall && (p.mode != "allowlist" || b.canAllowlist)

def reportFirewall (db : Fleet) (server : String) (p : FirewallPolicy) (compatible : Bool) (result : FirewallResult)
    (now : Int) : Fleet :=
  if result.revision == p.revision then
    let accepted := result.error == [] && compatible
    { db with
      firewallPolicies := Rows.update (fun row => row.serverId == server)
        (fun row => { row with
          appliedRevision := if accepted then p.revision else ""
          error := result.error
          reported := now }) db.firewallPolicies
      firewallHistory := Rows.update (fun row => row.serverId == server && row.revision == p.revision)
        (fun row => { row with status := if accepted then .succeeded else .failed, error := result.error })
        db.firewallHistory }
  else db

/-- The complete desired state is sent with every heartbeat, but never to an
agent that does not support it. -/
def ingestFirewall (db : Fleet) (server fresh : String) (b : Batch) (now : Int) : Option FirewallPolicy × Fleet :=
  let p := readPolicy db server fresh
  let compatible := isCompatible p b
  let rows := Rows.upsert PolicyRow.serverId ⟨server, p.revision, p, "", [], 0, capability b⟩
    (fun row => { row with capable := capability b }) db.firewallPolicies
  let db := { db with firewallPolicies := rows }
  let db := match b.firewallResult with
    | some result => reportFirewall db server p compatible result now
    | none => db
  (if compatible then some p else none, db)

end SshLogger
