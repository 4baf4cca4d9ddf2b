import SshLogger.Views

/-! What an administrator reads depends on the readable servers and their rows
only: every answer is the one that a store without all other rows would give. -/

namespace SshLogger
open Library Library.Select Views

def Storage.sees (s : Storage) (who : Principal) (id : String) : Bool :=
  s.db.servers.any fun server => server.id == id && isReadable s who server

/-- Two stores agree on the account's assignments and on the readable servers with all their rows. -/
structure Agree (who : Principal) (a b : Storage) : Prop where
  assignments : (a.db.adminServers.filter fun row => row.username == who.username) =
    b.db.adminServers.filter fun row => row.username == who.username
  servers : a.db.servers.filter (isReadable a who) = b.db.servers.filter (isReadable b who)
  events : (a.log.filter fun e => a.sees who e.row.serverId) = b.log.filter fun e => b.sees who e.row.serverId
  sessions : (a.db.sessions.filter fun se => a.sees who se.serverId) = b.db.sessions.filter fun se => b.sees who se.serverId
  serverControl : (a.db.serverControl.filter fun row => a.sees who row.serverId) =
    b.db.serverControl.filter fun row => b.sees who row.serverId
  sessionTerminations : (a.db.sessionTerminations.filter fun row => a.sees who row.serverId) =
    b.db.sessionTerminations.filter fun row => b.sees who row.serverId
  firewallPolicies : (a.db.firewallPolicies.filter fun row => a.sees who row.serverId) =
    b.db.firewallPolicies.filter fun row => b.sees who row.serverId
  firewallHistory : (a.db.firewallHistory.filter fun row => a.sees who row.serverId) =
    b.db.firewallHistory.filter fun row => b.sees who row.serverId

namespace Storage

def seenBy (s : Storage) (who : Principal) : Storage where
  db := {
    admins := [], adminRoles := [], authSessions := [], accountAuth := [], passkeys := [], authPending := []
    authLimits := [], loginAttempts := []
    adminServers := s.db.adminServers.filter fun row => row.username == who.username
    servers := s.db.servers.filter (isReadable s who)
    sessions := s.db.sessions.filter fun se => s.sees who se.serverId
    events := (s.log.filter fun e => s.sees who e.row.serverId).map LogRow.row
    serverControl := s.db.serverControl.filter fun row => s.sees who row.serverId
    sessionTerminations := s.db.sessionTerminations.filter fun row => s.sees who row.serverId
    firewallPolicies := s.db.firewallPolicies.filter fun row => s.sees who row.serverId
    firewallHistory := s.db.firewallHistory.filter fun row => s.sees who row.serverId }
  log := s.log.filter fun e => s.sees who e.row.serverId
  whole := rfl
  rising := s.rising.sublist (List.filter_sublist.map _)

variable {s : Storage} {who : Principal}

theorem sees_of_mem {server : ServerRow} (stored : server ∈ s.db.servers) (readable : isReadable s who server = true) :
    s.sees who server.id = true :=
  List.any_eq_true.mpr ⟨server, stored, by simp [readable]⟩

@[simp] theorem seenBy_scope (id : String) :
    scope (s.seenBy who).db.toAccounts who id = scope s.db.toAccounts who id := by
  refine congrArg (_ || ·) (any_part fun row _ chosen => ?_)
  exact (Bool.and_eq_true_iff.mp chosen).1

@[simp] theorem seenBy_isReadable (server : ServerRow) : isReadable (s.seenBy who) who server = isReadable s who server := by
  rw [isReadable, seenBy_scope, isReadable]

theorem servers_seenBy (broken : Option Nat) : Views.servers (s.seenBy who) who broken = Views.servers s who broken := by
  have same : (s.seenBy who).db.servers.filter (isReadable (s.seenBy who) who) = s.db.servers.filter (isReadable s who) := by
    rw [show isReadable (s.seenBy who) who = isReadable s who from funext seenBy_isReadable]
    exact filter_part fun _ _ chosen => chosen
  rw [Views.servers, same, Views.servers]

theorem sees_joined {id : String} {server : ServerRow} (stored : server ∈ s.db.servers) (joined : (server.id == id) = true)
    (readable : isReadable s who server = true) : s.sees who id = true := by
  rw [← beq_iff_eq.mp joined]
  exact sees_of_mem stored readable

abbrev eventServers (s : Storage) : List (LogRow × ServerRow) :=
  innerJoin (fun e server => server.id == e.row.serverId) s.log s.db.servers

theorem eventServers_seenBy : ((eventServers (s.seenBy who)).filter fun pair => isReadable s who pair.2) =
    (eventServers s).filter fun pair => isReadable s who pair.2 :=
  innerJoin_part fun _ _ _ stored joined readable => ⟨sees_joined stored joined readable, readable⟩

theorem activityRows_seenBy {selected : ActivityRow → Bool}
    (inside : ∀ row, selected row = true → isReadable s who row.1.2 = true) :
    (activityRows (s.seenBy who)).filter selected = (activityRows s).filter selected := by
  have narrow : ∀ t : Storage, (activityRows t).filter selected =
      (leftJoin (fun (pair : LogRow × ServerRow) (se : SessionRow) =>
          se.serverId == pair.1.row.serverId && se.id == pair.1.row.event.sessionId)
        ((eventServers t).filter fun pair => isReadable s who pair.2) t.db.sessions).filter selected := by
    intro t
    refine (leftJoin_filter fun pair _ other chosen => ?_).symm
    exact inside (pair, other) chosen
  rw [narrow, narrow s, eventServers_seenBy]
  refine congrArg (List.filter selected) (leftJoin_part fun pair member se _ joined => ?_)
  obtain ⟨member, readable⟩ := List.mem_filter.mp member
  obtain ⟨_, stored, same⟩ := mem_innerJoin.mp member
  rw [beq_iff_eq.mp (Bool.and_eq_true_iff.mp joined).1]
  exact sees_joined stored same readable

theorem events_seenBy (q : Query) (now : Int) (broken : Option Nat) :
    Views.events (s.seenBy who) who q now broken = Views.events s who q now broken := by
  have rows : ∀ isMatch : ActivityRow → Bool,
      ((activityRows (s.seenBy who)).filter fun row => isMatch row && isReadable (s.seenBy who) who row.1.2) =
        (activityRows s).filter fun row => isMatch row && isReadable s who row.1.2 := by
    intro isMatch
    simp only [seenBy_isReadable]
    exact activityRows_seenBy fun row chosen => (Bool.and_eq_true_iff.mp chosen).2
  simp only [Views.events, rows]

theorem sessionItem_seenBy {now : Int} {pair : SessionRow × ServerRow} (seen : s.sees who pair.1.serverId = true)
    (same : (pair.2.id == pair.1.serverId) = true) : sessionItem (s.seenBy who) now pair = sessionItem s now pair := by
  have last : lastTermination (s.seenBy who) pair.1 = lastTermination s pair.1 := by
    have rows := @filter_part _ (fun row : TerminationRow => s.sees who row.serverId)
      (fun row => row.serverId == pair.1.serverId && row.sessionId == pair.1.id) s.db.sessionTerminations
      fun row _ chosen => by rw [beq_iff_eq.mp (Bool.and_eq_true_iff.mp chosen).1]; exact seen
    simp only [lastTermination]
    exact congrArg (fun found : List TerminationRow => (orderBy _ found.reverse).head?) rows
  have control : ((s.seenBy who).db.serverControl.find? fun c => c.serverId == pair.2.id) =
      s.db.serverControl.find? fun c => c.serverId == pair.2.id :=
    find?_part fun c _ chosen => by rw [beq_iff_eq.mp chosen, beq_iff_eq.mp same]; exact seen
  simp only [sessionItem, last, control]

theorem sessions_seenBy (tie : SessionRow × ServerRow → SessionRow × ServerRow → Bool) (q : Query) (now : Int)
    (broken : Option Nat) : Views.sessions tie (s.seenBy who) who q now broken = Views.sessions tie s who q now broken := by
  have rows : ((innerJoin (fun (se : SessionRow) (server : ServerRow) => server.id == se.serverId) (s.seenBy who).db.sessions
        (s.seenBy who).db.servers).filter fun pair => isReadable s who pair.2 && isAsked q pair.1) =
      (innerJoin (fun se server => server.id == se.serverId) s.db.sessions s.db.servers).filter fun pair =>
        isReadable s who pair.2 && isAsked q pair.1 := by
    refine innerJoin_part fun se _ server stored joined chosen => ?_
    have readable := (Bool.and_eq_true_iff.mp chosen).1
    exact ⟨sees_joined stored joined readable, readable⟩
  have items : ∀ pair ∈ (innerJoin (fun (se : SessionRow) (server : ServerRow) => server.id == se.serverId) s.db.sessions
      s.db.servers).filter fun pair => isReadable s who pair.2 && isAsked q pair.1,
      sessionItem (s.seenBy who) now pair = sessionItem s now pair := by
    intro pair member
    obtain ⟨joined, chosen⟩ := List.mem_filter.mp member
    obtain ⟨_, stored, same⟩ := mem_innerJoin.mp joined
    exact sessionItem_seenBy (sees_joined stored same (Bool.and_eq_true_iff.mp chosen).1) same
  simp only [Views.sessions, seenBy_isReadable, rows]
  refine congrArg (statement broken 0 unread >>= ·) (funext fun _ => congrArg Except.ok (List.map_congr_left ?_))
  intro pair member
  exact items pair (mem_orderBy.mp (mem_orderBy.mp (mem_of_mem_slice member)))

theorem visible_seenBy : ((s.seenBy who).db.servers.filter fun server => scope (s.seenBy who).db.toAccounts who server.id) =
    (s.db.servers.filter fun server => scope s.db.toAccounts who server.id).filter (isReadable s who) := by
  simp only [seenBy_scope]
  rw [List.filter_filter]
  simp only [seenBy, List.filter_filter, Bool.and_comm]

theorem readable_of_visible {server : ServerRow}
    (visible : server ∈ s.db.servers.filter fun server => scope s.db.toAccounts who server.id)
    (current : (!server.revoked) = true) : server ∈ s.db.servers ∧ isReadable s who server = true := by
  obtain ⟨stored, inScope⟩ := List.mem_filter.mp visible
  exact ⟨stored, Bool.and_eq_true_iff.mpr ⟨current, inScope⟩⟩

theorem totals_seenBy (now start : Int) : totals (s.seenBy who) who now start = totals s who now start := by
  have sessions : ∀ selected, sessionCount (s.seenBy who) who selected = sessionCount s who selected := by
    intro selected
    rw [sessionCount, visible_seenBy]
    refine congrArg List.length (innerJoin_part fun se _ server visible same chosen => ?_)
    obtain ⟨stored, readable⟩ := readable_of_visible visible (Bool.and_eq_true_iff.mp chosen).2
    exact ⟨sees_joined stored same readable, readable⟩
  have events : ∀ kind, eventCount (s.seenBy who) who kind start = eventCount s who kind start := by
    intro kind
    rw [eventCount, visible_seenBy]
    refine congrArg List.length (innerJoin_part fun e _ server visible same chosen => ?_)
    have current := (Bool.and_eq_true_iff.mp (Bool.and_eq_true_iff.mp chosen).1).1
    obtain ⟨stored, readable⟩ := readable_of_visible visible current
    exact ⟨sees_joined stored same readable, readable⟩
  simp only [totals, sessions, events, visible_seenBy, count]
  rw [filter_part fun server visible chosen => (readable_of_visible visible (Bool.and_eq_true_iff.mp chosen).2).2,
    filter_part fun server visible chosen => (readable_of_visible visible chosen).2]

theorem overview_seenBy (q : Query) (clock : Clock) (broken : Option Nat) :
    Views.overview (s.seenBy who) who q clock broken = Views.overview s who q clock broken := by
  simp only [Views.overview, totals_seenBy]

theorem assigned_seenBy (id : String) : assigned (s.seenBy who).db who id = assigned s.db who id := by
  have same : (s.seenBy who).db.servers.any (isEditable (s.seenBy who).db.toAccounts who id) =
      s.db.servers.any (isEditable s.db.toAccounts who id) := by
    rw [show isEditable (s.seenBy who).db.toAccounts who id = isEditable s.db.toAccounts who id from
      funext fun server => by simp only [isEditable, seenBy_scope]]
    refine any_part fun server _ chosen => ?_
    simp only [isEditable, Bool.and_eq_true] at chosen
    exact Bool.and_eq_true_iff.mpr ⟨chosen.1.2, chosen.2⟩
  rw [assigned, same, assigned]

theorem sees_assigned {id : String} (granted : assigned s.db who id = .ok ()) : s.sees who id = true := by
  simp only [assigned] at granted
  split at granted
  next found =>
    obtain ⟨server, stored, editable⟩ := List.any_eq_true.mp found
    simp only [isEditable, Bool.and_eq_true] at editable
    exact sees_joined stored editable.1.1 (Bool.and_eq_true_iff.mpr ⟨editable.1.2, editable.2⟩)
  · cases granted

theorem firewall_seenBy (server : String) (q : Query) (broken : Option Nat) (fresh : String) :
    Views.firewall (s.seenBy who) who server q broken fresh = Views.firewall s who server q broken fresh := by
  simp only [Views.firewall, assigned_seenBy]
  refine congrArg (statement broken 0 "권한 조회 실패" >>= ·) (funext fun _ => ?_)
  cases granted : assigned s.db who server with
  | error problem => rfl
  | ok _ =>
    have seen := sees_assigned granted
    have own : ∀ id : String, (id == server) = true → s.sees who id = true := fun id same => beq_iff_eq.mp same ▸ seen
    have stored : ((s.seenBy who).db.firewallPolicies.find? fun row => row.serverId == server) =
        s.db.firewallPolicies.find? fun row => row.serverId == server := find?_part fun row _ => own row.serverId
    have state : ((s.seenBy who).db.firewallPolicies.filter fun row => row.serverId == server) =
        s.db.firewallPolicies.filter fun row => row.serverId == server := filter_part fun row _ => own row.serverId
    have history : ((s.seenBy who).db.firewallHistory.filter fun row => row.serverId == server) =
        s.db.firewallHistory.filter fun row => row.serverId == server := filter_part fun row _ => own row.serverId
    simp only [readPolicy, stored, state, history]

/-- No answer needs a row that the administrator may not read. -/
theorem answer_seenBy (tie : SessionRow × ServerRow → SessionRow × ServerRow → Bool) (clock : Clock) (broken : Option Nat)
    (fresh : String) (view : View) :
    answer tie (s.seenBy who) who clock broken fresh view = answer tie s who clock broken fresh view := by
  cases view with
  | servers => rw [answer, servers_seenBy, answer]
  | events q => rw [answer, events_seenBy, answer]
  | sessions q => rw [answer, sessions_seenBy, answer]
  | overview q => rw [answer, overview_seenBy, answer]
  | firewall server q => rw [answer, firewall_seenBy, answer]

end Storage

theorem Agree.seenBy {who : Principal} {a b : Storage} (agree : Agree who a b) : a.seenBy who = b.seenBy who := by
  have db : (a.seenBy who).db = (b.seenBy who).db := by
    simp only [Storage.seenBy, agree.assignments, agree.servers, agree.events, agree.sessions, agree.serverControl,
      agree.sessionTerminations, agree.firewallPolicies, agree.firewallHistory]
  have log : (a.seenBy who).log = (b.seenBy who).log := agree.events
  generalize a.seenBy who = first at db log
  generalize b.seenBy who = second at db log
  cases first
  cases second
  cases db
  cases log
  rfl

/-- Stores that agree on what an administrator may read answer every request alike, at one clock
reading and with the same random revision for a policy that is not stored. -/
theorem views_noninterference {who : Principal} {a b : Storage} (agree : Agree who a b)
    (tie : SessionRow × ServerRow → SessionRow × ServerRow → Bool) (clock : Clock) (broken : Option Nat) (fresh : String)
    (view : View) : answer tie a who clock broken fresh view = answer tie b who clock broken fresh view := by
  rw [← Storage.answer_seenBy, agree.seenBy, Storage.answer_seenBy]

def viewedServer (id name : String) : ServerRow := ⟨id, name, id, 1000, 5000, Bytes.utf8 "ok", 0, 0, false⟩

def viewedEvent (server : String) (time : Int) : EventRow :=
  ⟨server, time, ⟨Bytes.utf8 "e", time, .sessionStart, Bytes.utf8 "b:7", Bytes.utf8 "alice", [], [], [], [], [], [], none, none⟩, []⟩

/-- An operator is assigned one of two servers; the other one's events are given. -/
def viewedStore (hidden : List EventRow) : Storage where
  db := {
    admins := [], adminRoles := [], authSessions := [], accountAuth := [], passkeys := [], authPending := []
    authLimits := [], loginAttempts := []
    adminServers := [⟨"operator", "s1"⟩]
    servers := [viewedServer "s1" "visible", viewedServer "s2" "hidden"]
    sessions := [⟨"s1", Bytes.utf8 "b:7", Bytes.utf8 "alice", Bytes.utf8 "10.0.0.1", 2000, none, true⟩]
    events := viewedEvent "s1" 2000 :: hidden
    serverControl := [], sessionTerminations := [], firewallPolicies := [], firewallHistory := [] }
  log := ((viewedEvent "s1" 2000 :: hidden).zipIdx 1).map fun (row, number) => ⟨number, row⟩
  whole := by simp only [List.map_map, Function.comp_def, List.zipIdx_map_fst]
  rising := by
    simp only [List.map_map, Function.comp_def, List.zipIdx_map_snd]
    exact List.pairwise_lt_range'

theorem views_noninterference_hidden :
    answer (fun _ _ => true) (viewedStore [viewedEvent "s2" 3000]) ⟨"operator", "admin"⟩ ⟨6000, 0⟩ none "r" (.overview ⟨[]⟩) =
      answer (fun _ _ => true) (viewedStore []) ⟨"operator", "admin"⟩ ⟨6000, 0⟩ none "r" (.overview ⟨[]⟩) := by
  have agree : Agree ⟨"operator", "admin"⟩ (viewedStore [viewedEvent "s2" 3000]) (viewedStore []) :=
    ⟨by decide, by decide, by decide, by decide, by decide, by decide, by decide, by decide⟩
  exact views_noninterference agree _ _ _ _ _

end SshLogger
