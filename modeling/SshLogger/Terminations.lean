import SshLogger.Store
import SshLogger.Library.Select

/-! Requests to end a login session and the agents' reports about them
(`server/termination.go`). -/

namespace SshLogger
open Library Library.Select

/-- The session is live on a healthy, controllable server that was seen within
the last minute. -/
def canTerminateNow (db : Fleet) (server : String) (session : Bytes) (now : Int) : Bool :=
  db.sessions.any fun se =>
    se.serverId == server && se.id == session && se.ended.isNone && se.live &&
      (db.servers.any fun s => s.id == server && !s.revoked && s.health == Bytes.utf8 "ok" && s.lastSeen > now - 60000) &&
      (db.serverControl.any fun c => c.serverId == server && c.enabled)

/-- A request an agent may still act on. -/
def isPending (server : String) (now : Int) (row : TerminationRow) : Bool :=
  row.serverId == server && row.status == .pending && row.expires > now

/-- `id` is the new request's random id and `requestedBy` the account of the
caller's login session, if that row is still there. -/
def requestTermination (db : Fleet) (server : String) (session : Bytes) (requestedBy : Option String) (id : String)
    (now : Int) : Except Problem (String × Fleet) :=
  if !canTerminateNow db server session now then
    .error (409, "종료 가능한 활성 세션이 아닙니다. 에이전트 업데이트와 연결 상태를 확인하세요.")
  else match db.sessionTerminations.find? (fun row => isPending server now row && row.sessionId == session) with
    | some row => .ok (row.id, db)
    | none =>
      match requestedBy with
      | none => .ok (id, db)
      | some username =>
        if Rows.has TerminationRow.id id db.sessionTerminations then .error (503, "종료 요청 저장에 실패했습니다.")
        else
          let row : TerminationRow := ⟨id, server, session, username, now, now + 30000, .pending, []⟩
          .ok (id, { db with sessionTerminations := db.sessionTerminations ++ [row] })

def terminateSession (db : Fleet) (authSessions : List AuthSession) (cookieHash server : String) (session : Bytes)
    (id : String) (now : Int) (stored : Bool) : Except Problem String × Fleet :=
  let requestedBy := (authSessions.find? fun row => row.tokenHash == cookieHash).map AuthSession.username
  transaction db stored (503, "종료 요청 저장에 실패했습니다.") (requestTermination db server session requestedBy id now)

/-- `SELECT session_id FROM session_terminations WHERE id=? AND server_id=? AND status='pending'` -/
def reportedSession (db : Fleet) (server id : String) : Option Bytes :=
  (db.sessionTerminations.find? fun row => row.id == id && row.serverId == server && row.status == .pending).map
    TerminationRow.sessionId

def endReported (db : Fleet) (server id : String) (now : Int) : Fleet :=
  { db with
    sessions := Rows.update (fun se => se.serverId == server && reportedSession db server id == some se.id)
      (fun se => { se with ended := some (se.ended.getD now), live := false }) db.sessions }

def reportTermination (server : String) (now : Int) (db : Fleet) (result : TerminationResult) : Fleet :=
  let status := if result.error == [] then Status.succeeded else .failed
  let db := if status == .succeeded then endReported db server result.id now else db
  { db with
    sessionTerminations :=
      Rows.update (fun row => row.id == result.id && row.serverId == server && row.status == .pending)
        (fun row => { row with status, error := result.error }) db.sessionTerminations }

/-- `ORDER BY created`. Rows of one time come as the index `termination_session`
lists them: by session, then as they were inserted. -/
def isEarlier (a b : TerminationRow) : Bool :=
  a.created < b.created || a.created == b.created && !decide (b.sessionId < a.sessionId)

/-- The commands a heartbeat is answered with, oldest first. -/
def commands (db : Fleet) (server : String) (now : Int) : List Termination :=
  ((orderBy isEarlier (db.sessionTerminations.filter (isPending server now))).take 100).map
    fun row => ⟨row.id, row.sessionId, row.expires⟩

def ingestTerminations (db : Fleet) (server : String) (b : Batch) (now : Int) : List Termination × Fleet :=
  let rows := Rows.upsert ControlRow.serverId ⟨server, b.canTerminate⟩
    (fun row => { row with enabled := b.canTerminate }) db.serverControl
  let db := { db with serverControl := rows }
  let db := b.terminationResults.foldl (reportTermination server now) db
  if !b.canTerminate then ([], db) else (commands db server now, db)

end SshLogger
