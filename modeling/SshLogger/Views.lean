import SshLogger.Activity
import SshLogger.Console
import SshLogger.Library.Select

/-! What administrators may read: servers, events, sessions, totals and firewall
policies (`server/api.go`, `server/firewall.go`). -/

namespace SshLogger
open Library Library.Bytes Library.Select

/-- A decoded query string; the first value of a name counts. -/
structure Query where
  entries : List (String × Bytes)
  deriving DecidableEq, Repr

def Query.get (q : Query) (key : String) : Bytes := ((q.entries.find? fun entry => entry.1 == key).map Prod.snd).getD []

/-- A row of `events` with its number. -/
structure LogRow where
  seq : Nat
  row : EventRow
  deriving DecidableEq, Repr

/-- The tables as a request reads them. -/
structure Storage where
  db : Db
  log : List LogRow
  whole : log.map LogRow.row = db.events
  rising : (log.map LogRow.seq).Pairwise (· < ·)

/-- The time of a request and how far local time is ahead of UTC, in milliseconds. -/
structure Clock where
  now : Int
  zone : Int

/-- `broken` is the number of the request's first statement that fails, if one does. -/
def statement (broken : Option Nat) (number : Nat) (message : String) : Except Problem Unit :=
  if broken == some number then .error (503, message) else .ok ()

def unread : String := "데이터 조회에 실패했습니다."

namespace Views

def page (q : Query) : Nat :=
  let p := atoi (q.get "page")
  if p < 0 then 0 else if p > 100000 then 100000 else p.toNat

/-- Fifty rows and one more, which tells that there is a next page. -/
def paged {ρ : Type} (q : Query) (rows : List ρ) : List ρ := slice 51 (page q * 50) rows

/-- `s.revoked=0` and `scope` -/
def isReadable (s : Storage) (who : Principal) (server : ServerRow) : Bool :=
  !server.revoked && scope s.db.toAccounts who server.id

structure ServerItem where
  id : String
  name : String
  created : Int
  lastSeen : Int
  health : Bytes
  backlog : Int
  dropped : Int
  revoked : Bool
  deriving DecidableEq, Repr

def serverItem (s : ServerRow) : ServerItem :=
  ⟨s.id, s.name, s.created, s.lastSeen, s.health, s.backlog, s.dropped, s.revoked⟩

def servers (s : Storage) (who : Principal) (broken : Option Nat) : Except Problem (List ServerItem) := do
  statement broken 0 unread
  return (orderBy (fun a b => decide (a.name ≤ b.name)) (s.db.servers.filter (isReadable s who))).map serverItem

abbrev ActivityRow := (LogRow × ServerRow) × Option SessionRow

def activityRows (s : Storage) : List ActivityRow :=
  leftJoin (fun (e, _) se => se.serverId == e.row.serverId && se.id == e.row.event.sessionId)
    (innerJoin (fun e server => server.id == e.row.serverId) s.log s.db.servers) s.db.sessions

def shownIP : ActivityRow → Bytes
  | ((e, _), se) => if e.row.event.ip != [] then e.row.event.ip else (se.map SessionRow.ip).getD []

def column (row : ActivityRow) (key : String) : Bytes :=
  let e := row.1.1.row
  match key with
  | "server_id" => utf8 e.serverId
  | "user" => e.event.user
  | "ip" => shownIP row
  | "session_id" => e.event.sessionId
  | "kind" => e.event.kind.text
  | _ => []

def timeOf (q : Query) (key : String) (default : Int) : Option Int :=
  if q.get key == [] then some default else parseInt (q.get key) 64

def filters (q : Query) (now : Int) : Option (ActivityRow → Bool) := do
  let first ← timeOf q "from" (now - 24 * 3600000)
  let last ← timeOf q "to" (now + 60000)
  if first < 0 || last < first || last - first > 366 * 24 * 60 * 60 * 1000 then none
  else some fun row =>
    let e := row.1.1.row
    first ≤ e.event.time && e.event.time ≤ last &&
      (["server_id", "user", "ip", "session_id", "kind"].all fun key => q.get key == [] || column row key == q.get key) &&
      (q.get "q" == [] || contains e.command (q.get "q") || contains e.event.program (q.get "q"))

inductive Activity
  | important
  | all
  | routine
  deriving DecidableEq, Repr

def activityOf (text : Bytes) : Option Activity :=
  if text == [] || text == utf8 "all" then some .all
  else if text == utf8 "important" then some .important
  else if text == utf8 "routine" then some .routine
  else none

/-- The store evaluates `routineReasonSQL`, which gives the same reason. -/
def isRoutine (row : ActivityRow) : Bool := routineReason row.1.1.row.event != ""

def Activity.shows (activity : Activity) (row : ActivityRow) : Bool :=
  match activity with
  | all => true
  | important => !isRoutine row
  | routine => isRoutine row

/-- `ORDER BY e.time DESC,e.seq DESC` -/
def isNewer (a b : ActivityRow) : Bool :=
  let (first, second) := (a.1.1, b.1.1)
  second.row.event.time < first.row.event.time || (first.row.event.time == second.row.event.time && second.seq ≤ first.seq)

/-- The `ip` column of `row` is the shown address. -/
structure EventItem where
  seq : Nat
  row : EventRow
  serverName : String
  linked : Bool
  routineReason : String
  deriving DecidableEq, Repr

def eventItem (row : ActivityRow) : EventItem :=
  let ((e, server), se) := row
  ⟨e.seq, { e.row with event := { e.row.event with ip := shownIP row } }, server.name, se.isSome, routineReason e.row.event⟩

inductive EventsBody
  | items (items : List EventItem)
  | summary (items : List EventItem) (total routine visible : Nat) (activity : Activity)
  deriving DecidableEq, Repr

def events (s : Storage) (who : Principal) (q : Query) (now : Int) (broken : Option Nat) : Except Problem EventsBody :=
  match filters q now with
  | none => .error (400, "조회 기간은 최대 366일이며 시작·종료 시각을 확인해야 합니다.")
  | some isMatch =>
    match activityOf (q.get "activity") with
    | none => .error (400, "activity는 important, all, routine 중 하나여야 합니다.")
    | some activity =>
      let rows := (activityRows s).filter fun row => isMatch row && isReadable s who row.1.2
      let items := (paged q (orderBy isNewer (rows.filter activity.shows))).map eventItem
      if q.get "summary" != utf8 "1" then do
        statement broken 0 unread
        return .items items
      else do
        -- Counts and page share a read snapshot.
        statement broken 0 unread
        statement broken 1 "활동 집계에 실패했습니다."
        statement broken 2 unread
        statement broken 3 unread
        let total := rows.length
        let routine := count isRoutine rows
        let visible := match activity with
          | .all => total
          | .important => total - routine
          | .routine => routine
        return .summary items total routine visible activity

inductive ShownStatus
  | expired
  | stored (status : Status)
  deriving DecidableEq, Repr

inductive SessionState
  | ended
  | active
  | unknown
  deriving DecidableEq, Repr

structure SessionItem where
  row : SessionRow
  serverName : String
  canTerminate : Bool
  terminationStatus : Option ShownStatus
  terminationError : Option Bytes
  status : SessionState
  deriving DecidableEq, Repr

def lastTermination (s : Storage) (se : SessionRow) : Option TerminationRow :=
  (orderBy (fun a b => decide (b.created ≤ a.created))
    (s.db.sessionTerminations.filter fun row => row.serverId == se.serverId && row.sessionId == se.id).reverse).head?

/-- The store's own clock counts seconds. -/
def shownStatus (now : Int) (row : TerminationRow) : ShownStatus :=
  if row.status == .pending && row.expires < now / 1000 * 1000 then .expired else .stored row.status

def sessionState (now : Int) (se : SessionRow) (server : ServerRow) : SessionState :=
  if se.ended.isSome then .ended
  else if se.live && server.lastSeen > now - 60000 && !server.revoked && server.health == utf8 "ok" then .active
  else .unknown

def sessionItem (s : Storage) (now : Int) : SessionRow × ServerRow → SessionItem
  | (se, server) =>
    { row := se
      serverName := server.name
      canTerminate := ((s.db.serverControl.find? fun c => c.serverId == server.id).map ControlRow.enabled).getD false
      terminationStatus := (lastTermination s se).map (shownStatus now)
      terminationError := (lastTermination s se).map TerminationRow.error
      status := sessionState now se server }

def isAsked (q : Query) (se : SessionRow) : Bool :=
  ([("server_id", utf8 se.serverId), ("user", se.user), ("ip", se.ip)].all fun (key, value) =>
    q.get key == [] || value == q.get key) && (q.get "active" != utf8 "1" || se.ended.isNone)

/-- `tie` is the order in which the store visits rows, which sessions of one start time are left in. -/
def sessions (tie : SessionRow × ServerRow → SessionRow × ServerRow → Bool) (s : Storage) (who : Principal) (q : Query)
    (now : Int) (broken : Option Nat) : Except Problem (List SessionItem) := do
  statement broken 0 unread
  let rows := (innerJoin (fun se server => server.id == se.serverId) s.db.sessions s.db.servers).filter fun (se, server) =>
    isReadable s who server && isAsked q se
  return (paged q (orderBy (fun a b => decide (b.1.started ≤ a.1.started)) (orderBy tie rows))).map (sessionItem s now)

structure Totals where
  active : Nat
  logins : Nat
  failures : Nat
  healthy : Nat
  total : Nat
  unknown : Nat
  deriving DecidableEq, Repr

/-- Midnight, UTC, of the day it is in local time. -/
def dayStart (clock : Clock) : Int := (clock.now + clock.zone) / 86400000 * 86400000

def isHealthy (now : Int) (server : ServerRow) : Bool := server.lastSeen > now - 60000 && server.health == utf8 "ok"

def sessionCount (s : Storage) (who : Principal) (selected : SessionRow × ServerRow → Bool) : Nat :=
  count (fun pair => selected pair && !pair.2.revoked) (innerJoin (fun se server => server.id == se.serverId) s.db.sessions
    (s.db.servers.filter fun server => scope s.db.toAccounts who server.id))

def eventCount (s : Storage) (who : Principal) (kind : Kind) (start : Int) : Nat :=
  count (fun pair => !pair.2.revoked && pair.1.row.event.kind == kind && start ≤ pair.1.row.event.time)
    (innerJoin (fun e server => server.id == e.row.serverId) s.log
      (s.db.servers.filter fun server => scope s.db.toAccounts who server.id))

def totals (s : Storage) (who : Principal) (now start : Int) : Totals :=
  let visible := s.db.servers.filter fun server => scope s.db.toAccounts who server.id
  { active := sessionCount s who fun (se, server) => se.ended.isNone && se.live && isHealthy now server
    logins := eventCount s who .sessionStart start
    failures := eventCount s who .loginFailure start
    healthy := count (fun server => isHealthy now server && !server.revoked) visible
    total := count (fun server => !server.revoked) visible
    unknown := sessionCount s who fun (se, server) => se.ended.isNone && (!se.live || !isHealthy now server) }

def overview (s : Storage) (who : Principal) (q : Query) (clock : Clock) (broken : Option Nat) : Except Problem Totals := do
  let start ←
    if q.get "day_start" == [] then Except.ok (dayStart clock)
    else match parseInt (q.get "day_start") 64 with
      | none => .error (400, "invalid day start")
      | some n =>
        if n > clock.now || n < clock.now - 26 * 3600000 then .error (400, "invalid day start") else .ok n
  statement broken 0 unread
  return totals s who clock.now start

structure PolicyState where
  appliedRevision : String
  error : Bytes
  reported : Int
  capable : Nat
  deriving DecidableEq, Repr

structure FirewallBody where
  policy : FirewallPolicy
  state : List PolicyState
  history : List HistoryRow
  deriving DecidableEq, Repr

/-- `fresh` is the random revision of a policy that is not stored. -/
def firewall (s : Storage) (who : Principal) (server : String) (q : Query) (broken : Option Nat) (fresh : String) :
    Except Problem FirewallBody := do
  statement broken 0 "권한 조회 실패"
  assigned s.db who server
  statement broken 1 "방화벽 조회 실패"
  statement broken 2 "방화벽 조회 실패"
  let policy := readPolicy s.db.toFleet server fresh
  statement broken 3 "상태 조회 실패"
  let state := (s.db.firewallPolicies.filter fun row => row.serverId == server).map fun row =>
    PolicyState.mk row.appliedRevision row.error row.reported row.capable
  statement broken 4 "이력 조회 실패"
  let history := paged q (orderBy (fun a b => decide (b.created ≤ a.created))
    (s.db.firewallHistory.filter fun row => row.serverId == server).reverse)
  statement broken 5 "조회 실패"
  return ⟨policy, state, history⟩

end Views

inductive View
  | servers
  | events (q : Query)
  | sessions (q : Query)
  | overview (q : Query)
  | firewall (server : String) (q : Query)
  deriving DecidableEq, Repr

inductive Page
  | servers (items : List Views.ServerItem)
  | events (body : Views.EventsBody)
  | sessions (items : List Views.SessionItem)
  | overview (totals : Views.Totals)
  | firewall (body : Views.FirewallBody)
  deriving DecidableEq, Repr

/-- The answer to a request past `App.auth`. -/
def answer (tie : SessionRow × ServerRow → SessionRow × ServerRow → Bool) (s : Storage) (who : Principal) (clock : Clock)
    (broken : Option Nat) (fresh : String) : View → Except Problem Page
  | .servers => (Views.servers s who broken).map .servers
  | .events q => (Views.events s who q clock.now broken).map .events
  | .sessions q => (Views.sessions tie s who q clock.now broken).map .sessions
  | .overview q => (Views.overview s who q clock broken).map .overview
  | .firewall server q => (Views.firewall s who server q broken fresh).map .firewall

end SshLogger
