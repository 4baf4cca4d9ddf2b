import SshLogger.Proofs.AcceptedRequests
import SshLogger.Proofs.PolicyOrder
import SshLogger.Proofs.Responses

/-! The answers of a server that started empty. Whatever its requests did, every row
an answer is made of was checked when it was stored. -/

namespace SshLogger
open Library Library.Bytes Library.History

/-- `model.ID`: 24 random bytes in hexadecimal. -/
structure IsID (id : String) : Prop where
  length : id.length = 48
  digits : ∀ char ∈ id.toList, Netip.isHexDigit char = true

def Batch.IsDecoded (b : Batch) : Prop := ∀ e ∈ b.events, IsText e.sessionId

/-- The ids are random, the batch was read from JSON, and the clock is far from the
end of its range. -/
def ConsoleAct.IsGenuine : ConsoleAct → Prop
  | .ingest _ b _ fresh _ => b.IsDecoded ∧ IsID fresh
  | .transact f now _ => ∀ server session id, f.mutation = .terminateSession server session id →
      IsID id ∧ -2 ^ 63 ≤ now + 30000 ∧ now + 30000 < 2 ^ 63
  | _ => True

/-- What `checkBatch` lets through. -/
structure Batch.IsLimited (b : Batch) : Prop where
  few_events : b.events.length ≤ 500
  sessions : ∀ e ∈ b.events, e.sessionId.length ≤ 200

theorem checkEvents_limited {now : Int} {events checked : List Event} (accepted : checkEvents now events = .ok checked) :
    ∀ e ∈ events, e.sessionId.length ≤ 200 := by
  induction events generalizing checked with
  | nil => simp
  | cons e rest ih =>
    rw [checkEvents_cons] at accepted
    split at accepted
    · cases accepted
    next first_checked one =>
      split at accepted
      · cases accepted
      next rest_checked more =>
        have first : e.sessionId.length ≤ 200 := by
          simp only [checkEvent] at one
          split at one
          · cases one
          next sound =>
            simp only [isMalformed, Bool.or_eq_true, decide_eq_true_eq, not_or] at sound
            omega
        exact List.forall_mem_cons.mpr ⟨first, ih more⟩

theorem checkBatch_limited {now : Int} {b checked : Batch} (accepted : checkBatch now b = .ok checked) : b.IsLimited := by
  simp only [checkBatch] at accepted
  split at accepted
  · cases accepted
  · split at accepted
    · cases accepted
    next sound =>
      split at accepted
      · cases accepted
      · split at accepted
        · cases accepted
        next events all =>
          simp only [Bool.or_eq_true, decide_eq_true_eq, not_or] at sound
          exact ⟨by omega, checkEvents_limited all⟩

theorem ingest_limited {hash : String → String} {db : Fleet} {token : String} {b : Batch} {now : Int} {fresh : String}
    {stored : Bool} {response : IngestResponse}
    (answered : (ingest hash db token b now fresh stored).1 = .ok response) : b.IsLimited := by
  simp only [ingest] at answered
  split at answered
  · cases answered
  · split at answered
    · cases answered
    next checked accepted => exact checkBatch_limited accepted

theorem emptyPolicy_valid {fresh : String} (drawn : IsID fresh) : (emptyPolicy fresh).validate = .ok () := by
  have bytes : fresh.utf8ByteSize = 48 := by
    rw [bytes_size, Json.size_ascii fun char member => (hexDigit_shown (Or.inl (drawn.digits char member))).1]
    exact String.length_toList.trans drawn.length
  have some_text : fresh ≠ "" := by
    rintro rfl
    exact absurd bytes (by decide)
  simp [FirewallPolicy.validate, emptyPolicy, some_text, bytes]

section
variable {server : String} {now : Int} {se : SessionRow}

theorem update_ids {selected : SessionRow → Bool} {change : SessionRow → SessionRow} {sessions : List SessionRow}
    (keeps : ∀ row, (change row).id = row.id) (member : se ∈ Rows.update selected change sessions) :
    ∃ old ∈ sessions, old.id = se.id := by
  obtain ⟨old, there, ⟨-, rfl⟩ | ⟨-, rfl⟩⟩ := Rows.mem_update.mp member
  · exact ⟨old, there, (keeps old).symm⟩
  · exact ⟨_, there, rfl⟩

theorem reportTerminations_ids {results : List TerminationResult} {db : Fleet}
    (member : se ∈ (results.foldl (reportTermination server now) db).sessions) : ∃ old ∈ db.sessions, old.id = se.id := by
  induction results generalizing db with
  | nil => exact ⟨se, member, rfl⟩
  | cons result rest ih =>
    obtain ⟨middle, there, same⟩ := ih member
    simp only [reportTermination] at there
    split at there
    · obtain ⟨old, before, again⟩ := update_ids (by intro; rfl) there
      exact ⟨old, before, again.trans same⟩
    · exact ⟨middle, there, same⟩

theorem trackSession_ids {e : Event} {sessions : List SessionRow} (member : se ∈ trackSession server e sessions) :
    (∃ old ∈ sessions, old.id = se.id) ∨ e.sessionId = se.id := by
  have upserted : ∀ {row : SessionRow} {merge : SessionRow → SessionRow}, row.id = e.sessionId →
      (∀ old, (merge old).id = old.id) → se ∈ Rows.upsert SessionRow.key row merge sessions →
      (∃ old ∈ sessions, old.id = se.id) ∨ e.sessionId = se.id := by
    intro row merge own keeps there
    rcases Rows.mem_upsert there with ⟨old, -⟩ | ⟨-, rfl⟩ | ⟨old, before, -, rfl⟩
    · exact Or.inl ⟨se, old, rfl⟩
    · exact Or.inr own.symm
    · exact Or.inl ⟨old, before, (keeps old).symm⟩
  unfold trackSession at member
  split at member
  · exact Or.inl ⟨se, member, rfl⟩
  · split at member
    · exact upserted rfl (by intro; rfl) member
    · exact upserted rfl (by intro; rfl) member
    · exact Or.inl ⟨se, member, rfl⟩

theorem storeEvents_ids {events : List Event} {db : Fleet}
    (member : se ∈ (events.foldl (storeEvent server now) db).sessions) :
    (∃ old ∈ db.sessions, old.id = se.id) ∨ ∃ e ∈ events, e.sessionId = se.id := by
  induction events generalizing db with
  | nil => exact Or.inl ⟨se, member, rfl⟩
  | cons e rest ih =>
    rcases ih member with ⟨middle, there, same⟩ | ⟨later, listed, same⟩
    · simp only [storeEvent] at there
      split at there
      · exact Or.inl ⟨middle, there, same⟩
      · rcases trackSession_ids there with ⟨old, before, again⟩ | own
        · exact Or.inl ⟨old, before, again.trans same⟩
        · exact Or.inr ⟨e, List.mem_cons_self, own.trans same⟩
    · exact Or.inr ⟨later, List.mem_cons_of_mem _ listed, same⟩

theorem markLive_ids {active : List Bytes} {sessions : List SessionRow} (member : se ∈ markLive server active sessions) :
    ∃ old ∈ sessions, old.id = se.id := by
  have marked : ∀ {active : List Bytes} {rows : List SessionRow},
      se ∈ active.foldl (fun sessions id => Rows.update (fun se => se.serverId == server && se.id == id && se.ended.isNone)
        (fun se => { se with live := true }) sessions) rows → ∃ old ∈ rows, old.id = se.id := by
    intro active
    induction active with
    | nil => exact fun there => ⟨se, there, rfl⟩
    | cons id rest ih =>
      intro rows there
      obtain ⟨middle, before, same⟩ := ih there
      obtain ⟨old, first, again⟩ := update_ids (by intro; rfl) before
      exact ⟨old, first, again.trans same⟩
  obtain ⟨middle, there, same⟩ := marked member
  obtain ⟨old, before, again⟩ := update_ids (by intro; rfl) there
  exact ⟨old, before, again.trans same⟩

theorem ingestAs_ids {db : Fleet} {b : Batch} {fresh : String} (member : se ∈ (ingestAs server db b now fresh).2.sessions) :
    (∃ old ∈ db.sessions, old.id = se.id) ∨ ∃ e ∈ b.events, e.sessionId = se.id := by
  simp only [ingestAs, heartbeat] at member
  obtain ⟨live, there, same⟩ := markLive_ids member
  rcases storeEvents_ids there with ⟨known, before, again⟩ | ⟨e, listed, named⟩
  · rw [(ingestFirewall_frame server now _ fresh b).1, ingestTerminations_snd] at before
    obtain ⟨old, first, once⟩ := reportTerminations_ids before
    exact Or.inl ⟨old, first, once.trans (again.trans same)⟩
  · exact Or.inr ⟨e, listed, named.trans same⟩

end

structure Sendable (db : Fleet) : Prop where
  distinct : Rows.Unique PolicyRow.serverId db.firewallPolicies
  policies : ∀ row ∈ db.firewallPolicies, row.policy.validate = .ok () ∧ row.policy.Keyed
  sessions : ∀ se ∈ db.sessions, IsText se.id ∧ se.id.length ≤ 200
  terminations : ∀ row ∈ db.sessionTerminations, (⟨row.id, row.sessionId, row.expires⟩ : Termination).Bounded

theorem Sendable.initial : Sendable emptyFleet where
  distinct := List.nodup_nil
  policies := by simp [emptyFleet]
  sessions := by simp [emptyFleet]
  terminations := by simp [emptyFleet]

section
variable {app : App} {db : Fleet}

theorem Sendable.cleanup (sendable : Sendable db) (visits : Visits) (days now : Int) :
    Sendable (cleanupFleet visits db days now) where
  distinct := sendable.distinct
  policies := sendable.policies
  sessions se member := sendable.sessions se (List.mem_of_mem_filter member)
  terminations row member := sendable.terminations row (Rows.mem_delete.mp member).1

/-- The policies stay valid, whatever the request. -/
theorem Sendable.serve_policies {hash : String → String} {db : Db} {now : Int} {request : Request} {after : Fleet}
    (sendable : Sendable db.toFleet) (effect : ServeEffect hash db now request after)
    (drawn : ∀ token b fresh, request = .ingest token b fresh → IsID fresh) :
    ∀ row ∈ after.firewallPolicies, row.policy.validate = .ok () := by
  intro row member
  cases (effect.policies sendable.distinct).2 row member with
  | kept old there same => exact same.policy ▸ (sendable.policies old there).1
  | confirmed old there same => exact same.policy ▸ (sendable.policies old there).1
  | created _ _ _ is_empty => exact is_empty ▸ emptyPolicy_valid (drawn _ _ _ rfl)
  | changed =>
    cases effect with
    | quiet => exact (sendable.policies row member).1
    | @changed _ _ _ _ r p _ _ done =>
      rw [done.stored] at member
      rcases Rows.mem_upsert member with ⟨there, -⟩ | ⟨-, rfl⟩ | ⟨old, there, -, rfl⟩
      · exact (sendable.policies row there).1
      · exact done.valid
      · exact done.valid

theorem serve_same_sessions {hash : String → String} {db : Db} {now : Int} {request : Request} {after : Fleet}
    (effect : ServeEffect hash db now request after) (other : ∀ token b fresh, request ≠ .ingest token b fresh) :
    after.sessions = db.sessions := by
  cases effect with
  | quiet => rfl
  | ingested => exact absurd rfl (other _ _ _)
  | requested done =>
    obtain ⟨username, rfl⟩ := done.stored
    rfl
  | changed _ done => exact done.frame.1
  | created => rfl
  | renamed => rfl
  | rotated done => exact done.frame.1

/-- The sessions stay known by names of a limited length. -/
theorem Sendable.serve_sessions {hash : String → String} {db : Db} {now : Int} {request : Request} {stored : Bool}
    (sendable : Sendable db.toFleet) (decoded : ∀ token b fresh, request = .ingest token b fresh → b.IsDecoded) :
    ∀ se ∈ (db.serve hash now stored request).sessions, IsText se.id ∧ se.id.length ≤ 200 := by
  intro se member
  cases request with
  | ingest token b fresh =>
    simp only [Db.serve] at member
    rcases ingest_cases hash db.toFleet token b now fresh stored with ⟨problem, refused⟩ | ⟨server, -, served⟩
    · rw [refused] at member
      exact sendable.sessions se member
    · have limited := ingest_limited (congrArg Prod.fst served)
      rw [served] at member
      rcases ingestAs_ids member with ⟨old, there, same⟩ | ⟨e, listed, named⟩
      · rw [← same]
        exact sendable.sessions old there
      · obtain ⟨sent, there, rfl⟩ := List.mem_map.mp listed
        rw [← named]
        exact ⟨decoded _ _ _ rfl sent there, limited.sessions sent there⟩
  | _ =>
    rw [serve_same_sessions (serve_effect hash db now stored _) (by simp)] at member
    exact sendable.sessions se member

theorem Sendable.serve {hash : String → String} {db : Db} {now : Int} {stored : Bool} {request : Request}
    (sendable : Sendable db.toFleet)
    (other : ∀ cookieHash server session id, request ≠ .terminateSession cookieHash server session id)
    (genuine : ∀ token b fresh, request = .ingest token b fresh → b.IsDecoded ∧ IsID fresh) :
    Sendable (db.serve hash now stored request).toFleet := by
  have effect := serve_effect hash db now stored request
  refine ⟨(effect.policies sendable.distinct).1, ?_, ?_, ?_⟩
  · have keyed : ∀ row ∈ (db.serve hash now stored request).firewallPolicies, row.policy.Keyed := by
      refine effect.keeps (fun _ => List.nodup_nil) ?_ sendable.distinct fun row member => (sendable.policies row member).2
      intro p q revision change keyed changed
      have again : q.Keyed := FirewallChange.apply_keyed keyed changed
      exact again
    have valid := sendable.serve_policies effect fun token b fresh asked => (genuine token b fresh asked).2
    exact fun row member => ⟨valid row member, keyed row member⟩
  · exact sendable.serve_sessions fun token b fresh asked => (genuine token b fresh asked).1
  · intro row member
    obtain ⟨old, there, same⟩ := serve_rows effect other member
    rw [same]
    exact sendable.terminations old there

/-- A new request for a termination names a session the server knows. -/
theorem Sendable.terminate {authSessions : List AuthSession} {cookieHash server id : String} {session : Bytes} {now : Int}
    {stored : Bool} (sendable : Sendable db) (drawn : IsID id) (clock : -2 ^ 63 ≤ now + 30000 ∧ now + 30000 < 2 ^ 63) :
    Sendable (terminateSession db authSessions cookieHash server session id now stored).2 := by
  rcases terminateSession_cases db authSessions cookieHash server session id now stored with same | done
  · rw [same]
    exact sendable
  · obtain ⟨username, added⟩ := done.stored
    rw [added]
    refine ⟨sendable.distinct, sendable.policies, sendable.sessions, ?_⟩
    intro row member
    rcases List.mem_append.mp member with old | new
    · exact sendable.terminations row old
    · obtain rfl := List.mem_singleton.mp new
      obtain ⟨se, there, active⟩ := List.any_eq_true.mp done.active
      simp only [Bool.and_eq_true, beq_iff_eq] at active
      obtain ⟨⟨⟨⟨⟨-, rfl⟩, -⟩, -⟩, -⟩, -⟩ := active
      obtain ⟨text, short⟩ := sendable.sessions se there
      exact ⟨Nat.le_of_eq drawn.length, text, short, clock⟩

variable {c next : Console} {act : ConsoleAct}

theorem Sendable.step (sendable : Sendable c.fleet) (genuine : act.IsGenuine) (moved : Console.Step app c act next) :
    Sendable next.fleet := by
  rcases console_fleet moved with ⟨now, stored, request, other, asked, same⟩ | ⟨visits, days, now, same⟩ |
    ⟨f, now, stored, server, session, id, rfl, asked⟩
  · rw [same]
    refine sendable.serve other fun token b fresh received => ?_
    obtain rfl := asked token b fresh received
    exact genuine
  · rw [same]
    exact sendable.cleanup visits days now
  · obtain ⟨drawn, clock⟩ := genuine server session id asked
    rw [(transact_terminates moved asked).2]
    exact sendable.terminate drawn clock

/-- A console whose servers have all been registered since. -/
def freshConsole (app : App) : System Console ConsoleAct where
  init c := (console app).init c ∧ c.fleet = emptyFleet
  step := Console.Step app

theorem sendable_of_run {history : List (Transition Console ConsoleAct)} (run : Run (freshConsole app) history c)
    (genuine : ∀ t ∈ history, t.action.IsGenuine) : Sendable c.fleet := by
  induction run with
  | start started => exact started.2 ▸ .initial
  | next earlier moved ih =>
    obtain ⟨last, before⟩ := List.forall_mem_cons.mp genuine
    exact (ih before).step last moved

theorem ingestTerminations_few (db : Fleet) (server : String) (b : Batch) (now : Int) :
    (ingestTerminations db server b now).1.length ≤ 100 := by
  simp only [ingestTerminations]
  split
  · exact Nat.zero_le _
  · rw [commands, List.length_map]
    exact List.length_take_le _ _

theorem Sendable.answer {hash : String → String} {db : Db} {token : String} {b : Batch} {now : Int} {fresh : String}
    {stored : Bool} {response : IngestResponse} (sendable : Sendable db.toFleet) (decoded : b.IsDecoded) (drawn : IsID fresh)
    (answered : (ingest hash db.toFleet token b now fresh stored).1 = .ok response) : response.Bounded := by
  have limited := ingest_limited answered
  have after : Sendable (ingest hash db.toFleet token b now fresh stored).2 := by
    refine @Sendable.serve hash db now stored (.ingest token b fresh) sendable (by simp) ?_
    rintro _ _ _ ⟨⟩
    exact ⟨decoded, drawn⟩
  rcases ingest_cases hash db.toFleet token b now fresh stored with ⟨problem, refused⟩ | ⟨server, -, served⟩
  · rw [refused] at answered
    cases answered
  · rw [served] at answered after
    obtain rfl := Except.ok.inj answered
    obtain ⟨start, same, -, policies, -, sent⟩ := ingestAs_policies server db.toFleet b.redacted now fresh
    refine ⟨?_, ?_, ingestTerminations_few _ _ _ _, ?_⟩
    · intro p carried
      have distinct : Rows.Unique PolicyRow.serverId start.firewallPolicies := same ▸ sendable.distinct
      obtain ⟨row, member, -, rfl⟩ := ingestFirewall_sends distinct (sent.symm.trans carried)
      exact after.policies row (policies ▸ member)
    · have few : (b.events.map fun e => { e with args := redact e.args }).length ≤ 500 := by
        rw [List.length_map]
        exact limited.few_events
      exact few
    · intro command carried
      obtain ⟨-, row, member, -, rfl⟩ := ingestAs_commands server db.toFleet b.redacted now fresh carried
      exact after.terminations row member

/-- In every reachable state the answer to an accepted batch is within the limit of
the agent, which reads back what was sent. -/
theorem ingest_response_fits {history : List (Transition Console ConsoleAct)} (run : Run (freshConsole app) history c)
    (genuine : ∀ t ∈ history, t.action.IsGenuine) {token : String} {b : Batch} {now : Int} {fresh : String} {stored : Bool}
    {response : IngestResponse} (decoded : b.IsDecoded) (drawn : IsID fresh)
    (answered : (ingest app.hash c.fleet token b now fresh stored).1 = .ok response) (nils : NilLists) :
    (response.body nils).length ≤ 1 <<< 20 ∧ ∃ read, sendBatch 200 (response.body nils) = .ok read ∧ read.Same response := by
  have bounded : response.Bounded :=
    @Sendable.answer app.hash c.db _ _ _ _ _ _ (sendable_of_run run genuine) decoded drawn answered
  exact ⟨bounded.body_length nils, bounded.sendBatch nils⟩

end

/-- A new server's agent reports a login and is answered with the empty policy. -/
def freshRevision : String := "000102030405060708090a0b0c0d0e0f1011121314151617"

def loginBatch : Batch where
  canFirewall := true
  canAllowlist := true
  firewallResult := none
  canTerminate := true
  terminationResults := []
  events := [⟨utf8 "b:1", 1000, .sessionStart, utf8 "b:3", utf8 "alice", [], [], utf8 "192.0.2.7", utf8 "sshd", [], [],
    none, none⟩]
  health := utf8 "ok"
  backlog := 0
  dropped := 0
  activeSessions := [utf8 "b:3"]

theorem ingest_response_fits_login : ∃ history c, Run (freshConsole plainApp) history c ∧
    (IngestResponse.body ⟨false, true, true⟩ ⟨some (emptyPolicy freshRevision), 1, []⟩).length ≤ 1 <<< 20 ∧
    ∃ read, sendBatch 200 (IngestResponse.body ⟨false, true, true⟩ ⟨some (emptyPolicy freshRevision), 1, []⟩) = .ok read := by
  have start : Run (freshConsole plainApp) [] consoleStart :=
    .start ⟨⟨⟨rfl, rfl, rfl, by unfold Rows.Unique; decide +kernel, by decide +kernel, rfl, rfl, rfl, rfl⟩, rfl⟩, rfl⟩
  have registered := start.next (.createServer ⟨"ops", "super_admin"⟩ "web" "s1" "t1" 1000 true)
  have genuine : ∀ e ∈ loginBatch.events, IsText e.sessionId := by
    intro e member
    obtain rfl := List.mem_singleton.mp member
    exact ⟨"b:3", rfl⟩
  have drawn : IsID freshRevision := ⟨by decide, List.all_eq_true.mp (by decide)⟩
  obtain ⟨fits, read, answered, -⟩ := @ingest_response_fits plainApp _ _ registered
    (List.forall_mem_cons.mpr ⟨trivial, by simp⟩) "t1" loginBatch 2000 freshRevision true
    ⟨some (emptyPolicy freshRevision), 1, []⟩ genuine drawn (by decide +kernel) ⟨false, true, true⟩
  exact ⟨_, _, registered, fits, read, answered⟩

end SshLogger
