import SshLogger.Terminations
import SshLogger.Firewall

/-! The heartbeat endpoint: the checks of a batch and its transaction
(`App.ingest` in `server/api.go`). -/

namespace SshLogger
open Library

def isKnownKind : Kind → Bool
  | .unknown _ => false
  | _ => true

/-- `now` is the handler's clock, read before the writer lock. -/
def isMalformed (now : Int) (e : Event) : Bool :=
  e.id == [] || e.id.length > 200 || e.time ≤ 0 || e.time > now + 300000 || e.sessionId.length > 200 ||
    e.user.length > 256 || e.loginUid.length > 64 || e.effectiveUser.length > 256 || e.ip.length > 100 ||
    e.program.length > 4096 || e.args.length > 4096 ||
    e.pid.any (fun pid => pid < 1 || pid > 2147483647) || e.ppid.any (fun ppid => ppid < 0 || ppid > 2147483647)

def checkEvent (now : Int) (e : Event) : Except Problem Event :=
  if isMalformed now e then .error (400, "invalid event")
  else if !isKnownKind e.kind then .error (400, "invalid event kind")
  else .ok { e with args := redact e.args }

def checkEvents (now : Int) : List Event → Except Problem (List Event)
  | [] => .ok []
  | e :: rest =>
    match checkEvent now e with
    | .error problem => .error problem
    | .ok e =>
      match checkEvents now rest with
      | .error problem => .error problem
      | .ok rest => .ok (e :: rest)

theorem checkEvents_cons (now : Int) (e : Event) (rest : List Event) :
    checkEvents now (e :: rest) = match checkEvent now e with
      | .error problem => .error problem
      | .ok e => match checkEvents now rest with
        | .error problem => .error problem
        | .ok rest => .ok (e :: rest) := by
  rw [checkEvents.eq_def]

def checkBatch (now : Int) (b : Batch) : Except Problem Batch :=
  if b.firewallResult.any fun result => result.revision.utf8ByteSize > 100 || result.error.length > 500 then
    .error (400, "invalid firewall result")
  else if b.terminationResults.length > 100 || b.events.length > 500 || b.activeSessions.length > 10000 ||
      b.health.length > 200 || b.backlog < 0 || b.dropped < 0 then .error (400, "invalid batch")
  else if b.terminationResults.any fun result => result.id.utf8ByteSize > 200 || result.error.length > 500 then
    .error (400, "invalid termination result")
  else match checkEvents now b.events with
    | .error problem => .error problem
    | .ok events =>
      if b.activeSessions.any fun id => id.length > 200 then .error (400, "invalid session")
      else .ok { b with events }

/-- `strings.Join(args, " ")` -/
def joinArgs : List Bytes → Bytes
  | [] => []
  | [arg] => arg
  | arg :: rest => arg ++ Bytes.ascii ' ' :: joinArgs rest

/-- What a newly stored event says about its login session. -/
def trackSession (server : String) (e : Event) (sessions : List SessionRow) : List SessionRow :=
  if e.sessionId == [] then sessions
  else match e.kind with
    | .sessionStart =>
      Rows.upsert SessionRow.key ⟨server, e.sessionId, e.user, e.ip, e.time, none, false⟩
        (fun row => { row with user := e.user, ip := e.ip, started := min row.started e.time }) sessions
    | .sessionEnd =>
      Rows.upsert SessionRow.key ⟨server, e.sessionId, e.user, e.ip, e.time, some e.time, false⟩
        (fun row => { row with ended := some e.time, live := false }) sessions
    | _ => sessions

/-- An event already stored is ignored, and so is what it says about its session. -/
def storeEvent (server : String) (now : Int) (db : Fleet) (e : Event) : Fleet :=
  if Rows.has EventRow.key (server, e.id) db.events then db
  else { db with
    events := db.events ++ [⟨server, now, e, joinArgs e.args⟩]
    sessions := trackSession server e db.sessions }

/-- Only sessions that have not ended can be live. -/
def markLive (server : String) (active : List Bytes) (sessions : List SessionRow) : List SessionRow :=
  active.foldl
    (fun sessions id => Rows.update (fun se => se.serverId == server && se.id == id && se.ended.isNone)
      (fun se => { se with live := true }) sessions)
    (Rows.update (fun se => se.serverId == server) (fun se => { se with live := false }) sessions)

def heartbeat (server : String) (b : Batch) (now : Int) (db : Fleet) : Fleet :=
  { db with
    sessions := markLive server b.activeSessions db.sessions
    servers := Rows.update (fun s => s.id == server)
      (fun s => { s with lastSeen := now, health := b.health, backlog := b.backlog, dropped := b.dropped }) db.servers }

def authenticate (db : Fleet) (tokenHash : String) : Option String :=
  (db.servers.find? fun s => s.tokenHash == tokenHash && !s.revoked).map ServerRow.id

def ingestAs (server : String) (db : Fleet) (b : Batch) (now : Int) (fresh : String) : IngestResponse × Fleet :=
  let (terminations, db) := ingestTerminations db server b now
  let (firewall, db) := ingestFirewall db server fresh b now
  let db := b.events.foldl (storeEvent server now) db
  (⟨firewall, b.events.length, terminations⟩, heartbeat server b now db)

def storeBatch (db : Fleet) (tokenHash : String) (b : Batch) (now : Int) (fresh : String) :
    Except Problem (IngestResponse × Fleet) :=
  match authenticate db tokenHash with
  | none => .error (401, "invalid or revoked token")
  | some server => .ok (ingestAs server db b now fresh)

/-- `fresh` is the random revision of a policy that is not stored yet. -/
def ingest (hash : String → String) (db : Fleet) (token : String) (b : Batch) (now : Int) (fresh : String)
    (stored : Bool) : Except Problem IngestResponse × Fleet :=
  if token == "" then (.error (401, "invalid token"), db)
  else match checkBatch now b with
    | .error problem => (.error problem, db)
    | .ok b => transaction db stored (503, "storage unavailable; retry batch") (storeBatch db (hash token) b now fresh)

end SshLogger
