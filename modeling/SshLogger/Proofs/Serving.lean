import SshLogger.Servers
import SshLogger.Library.History

/-! What one request can do to the store: an inversion lemma for each
transaction, and the runs of a server whose requests arrive in any order. -/

namespace SshLogger
open Library Library.History

def Event.redacted (e : Event) : Event := { e with args := redact e.args }

def Batch.redacted (b : Batch) : Batch := { b with events := b.events.map Event.redacted }

theorem checkEvent_ok {now : Int} {e out : Event} (checked : checkEvent now e = .ok out) :
    isMalformed now e = false ∧ isKnownKind e.kind = true ∧ out = e.redacted := by
  simp only [checkEvent] at checked
  split at checked
  · cases checked
  next wellFormed =>
    split at checked
    · cases checked
    next known =>
      refine ⟨by simpa using wellFormed, by simpa using known, (Except.ok.inj checked).symm⟩

theorem checkEvents_ok {now : Int} {events out : List Event} (checked : checkEvents now events = .ok out) :
    out = events.map Event.redacted := by
  induction events generalizing out with
  | nil => exact (Except.ok.inj checked).symm
  | cons e rest ih =>
    simp only [checkEvents_cons] at checked
    split at checked
    · cases checked
    next first one =>
      split at checked
      · cases checked
      next others more =>
        obtain rfl := Except.ok.inj checked
        rw [ih more, (checkEvent_ok one).2.2, List.map_cons]

theorem checkBatch_ok {now : Int} {b out : Batch} (checked : checkBatch now b = .ok out) : out = b.redacted := by
  simp only [checkBatch] at checked
  split at checked
  · cases checked
  · split at checked
    · cases checked
    · split at checked
      · cases checked
      · split at checked
        · cases checked
        next events all =>
          split at checked
          · cases checked
          · obtain rfl := Except.ok.inj checked
            rw [checkEvents_ok all, Batch.redacted]

variable {hash : String → String} {now : Int} {stored : Bool}

/-- An ingest is refused and changes nothing, or runs as the server its token names. -/
theorem ingest_cases (hash : String → String) (db : Fleet) (token : String) (b : Batch) (now : Int) (fresh : String)
    (stored : Bool) :
    (∃ problem, ingest hash db token b now fresh stored = (.error problem, db)) ∨
      ∃ server, authenticate db (hash token) = some server ∧
        ingest hash db token b now fresh stored =
          (.ok (ingestAs server db b.redacted now fresh).1, (ingestAs server db b.redacted now fresh).2) := by
  simp only [ingest]
  split
  · exact Or.inl ⟨_, rfl⟩
  · split
    next problem _ => exact Or.inl ⟨problem, rfl⟩
    next checked valid =>
      obtain rfl := checkBatch_ok valid
      cases stored with
      | false => exact Or.inl ⟨_, rfl⟩
      | true =>
        cases known : authenticate db (hash token) with
        | none => exact Or.inl ⟨(401, "invalid or revoked token"), by simp [transaction, storeBatch, known]⟩
        | some server => exact Or.inr ⟨server, rfl, by simp [transaction, storeBatch, known]⟩

theorem ingest_stored {hash : String → String} {db : Fleet} {token : String} {b : Batch} {now : Int} {fresh : String}
    {stored : Bool} {response : IngestResponse} (answered : (ingest hash db token b now fresh stored).1 = .ok response) :
    stored = true := by
  cases stored with
  | true => rfl
  | false =>
    simp only [ingest] at answered
    split at answered
    · cases answered
    · split at answered
      · cases answered
      · simp only [transaction, Bool.not_false, if_true] at answered
        cases answered

section Frames
variable (server : String) (now : Int) (db : Fleet)

theorem ingestTerminations_snd (b : Batch) : (ingestTerminations db server b now).2 =
    b.terminationResults.foldl (reportTermination server now) { db with
      serverControl := Rows.upsert ControlRow.serverId ⟨server, b.canTerminate⟩
        (fun row => { row with enabled := b.canTerminate }) db.serverControl } := by
  simp only [ingestTerminations]
  split <;> rfl

theorem reportTerminations_frame (results : List TerminationResult) :
    (results.foldl (reportTermination server now) db).firewallPolicies = db.firewallPolicies ∧
      (results.foldl (reportTermination server now) db).firewallHistory = db.firewallHistory ∧
      (results.foldl (reportTermination server now) db).events = db.events ∧
      (results.foldl (reportTermination server now) db).servers = db.servers := by
  induction results generalizing db with
  | nil => exact ⟨rfl, rfl, rfl, rfl⟩
  | cons result rest ih =>
    have one : (reportTermination server now db result).firewallPolicies = db.firewallPolicies ∧
        (reportTermination server now db result).firewallHistory = db.firewallHistory ∧
        (reportTermination server now db result).events = db.events ∧
        (reportTermination server now db result).servers = db.servers := by
      simp only [reportTermination, endReported]
      split <;> exact ⟨rfl, rfl, rfl, rfl⟩
    have more := ih (reportTermination server now db result)
    exact ⟨more.1.trans one.1, more.2.1.trans one.2.1, more.2.2.1.trans one.2.2.1, more.2.2.2.trans one.2.2.2⟩

theorem ingestFirewall_frame (fresh : String) (b : Batch) :
    (ingestFirewall db server fresh b now).2.sessions = db.sessions ∧
      (ingestFirewall db server fresh b now).2.sessionTerminations = db.sessionTerminations ∧
      (ingestFirewall db server fresh b now).2.events = db.events ∧
      (ingestFirewall db server fresh b now).2.servers = db.servers := by
  simp only [ingestFirewall]
  split
  · simp only [reportFirewall]
    split <;> exact ⟨rfl, rfl, rfl, rfl⟩
  · exact ⟨rfl, rfl, rfl, rfl⟩

theorem storeEvents_frame (events : List Event) :
    (events.foldl (storeEvent server now) db).sessionTerminations = db.sessionTerminations ∧
      (events.foldl (storeEvent server now) db).firewallPolicies = db.firewallPolicies ∧
      (events.foldl (storeEvent server now) db).firewallHistory = db.firewallHistory ∧
      (events.foldl (storeEvent server now) db).servers = db.servers := by
  induction events generalizing db with
  | nil => exact ⟨rfl, rfl, rfl, rfl⟩
  | cons e rest ih =>
    have one : (storeEvent server now db e).sessionTerminations = db.sessionTerminations ∧
        (storeEvent server now db e).firewallPolicies = db.firewallPolicies ∧
        (storeEvent server now db e).firewallHistory = db.firewallHistory ∧
        (storeEvent server now db e).servers = db.servers := by
      simp only [storeEvent]
      split <;> exact ⟨rfl, rfl, rfl, rfl⟩
    have more := ih (storeEvent server now db e)
    exact ⟨more.1.trans one.1, more.2.1.trans one.2.1, more.2.2.1.trans one.2.2.1, more.2.2.2.trans one.2.2.2⟩

end Frames

structure Requested (db : Fleet) (server : String) (session : Bytes) (id : String) (now : Int) (after : Fleet) : Prop where
  active : canTerminateNow db server session now = true
  none_pending : ∀ row ∈ db.sessionTerminations, isPending server now row = true → row.sessionId ≠ session
  fresh : ∀ row ∈ db.sessionTerminations, row.id ≠ id
  stored : ∃ username, after = { db with sessionTerminations :=
    db.sessionTerminations ++ [⟨id, server, session, username, now, now + 30000, .pending, []⟩] }

/-- What an accepted request answers: the id of a request still pending, or the new
id, under which a row is added if the caller's login session is there. -/
inductive RequestEnds (db : Fleet) (server : String) (session : Bytes) (requestedBy : Option String) (id : String)
    (now : Int) : String → Fleet → Prop
  | pending {row : TerminationRow} : row ∈ db.sessionTerminations → isPending server now row = true → row.sessionId = session →
      RequestEnds db server session requestedBy id now row.id db
  | forgotten : requestedBy = none →
      (∀ row ∈ db.sessionTerminations, isPending server now row = true → row.sessionId ≠ session) →
      RequestEnds db server session requestedBy id now id db
  | added {username : String} : requestedBy = some username →
      (∀ row ∈ db.sessionTerminations, isPending server now row = true → row.sessionId ≠ session) →
      (∀ row ∈ db.sessionTerminations, row.id ≠ id) →
      RequestEnds db server session requestedBy id now id { db with sessionTerminations :=
        db.sessionTerminations ++ [⟨id, server, session, username, now, now + 30000, .pending, []⟩] }

theorem requestTermination_ok {db after : Fleet} {server id answer : String} {session : Bytes}
    {requestedBy : Option String} {now : Int}
    (done : requestTermination db server session requestedBy id now = .ok (answer, after)) :
    canTerminateNow db server session now = true ∧ RequestEnds db server session requestedBy id now answer after := by
  simp only [requestTermination] at done
  split at done
  · cases done
  next active =>
    refine ⟨by simpa using active, ?_⟩
    split at done
    next row found =>
      obtain ⟨rfl, rfl⟩ := Prod.mk.inj (Except.ok.inj done)
      have chosen := List.find?_some found
      simp only [Bool.and_eq_true, beq_iff_eq] at chosen
      exact .pending (List.mem_of_find?_eq_some found) chosen.1 chosen.2
    next none_found =>
      have none_pending : ∀ row ∈ db.sessionTerminations, isPending server now row = true → row.sessionId ≠ session := by
        intro row member pending same
        have other := List.find?_eq_none.mp none_found row member
        simp [pending, same] at other
      split at done
      · obtain ⟨rfl, rfl⟩ := Prod.mk.inj (Except.ok.inj done)
        exact .forgotten rfl none_pending
      next username =>
        split at done
        · cases done
        next unused =>
          obtain ⟨rfl, rfl⟩ := Prod.mk.inj (Except.ok.inj done)
          exact .added rfl none_pending (Rows.has_false_iff.mp (by simpa using unused))

theorem terminateSession_ends (db : Fleet) (authSessions : List AuthSession) (cookieHash server : String)
    (session : Bytes) (id : String) (now : Int) (stored : Bool) :
    (terminateSession db authSessions cookieHash server session id now stored).2 = db ∨
      canTerminateNow db server session now = true ∧ ∃ answer, RequestEnds db server session
        ((authSessions.find? fun row => row.tokenHash == cookieHash).map AuthSession.username) id now answer
        (terminateSession db authSessions cookieHash server session id now stored).2 := by
  refine (transaction_snd db stored (503, "종료 요청 저장에 실패했습니다.") _).imp_right ?_
  rintro ⟨answer, done, -⟩
  obtain ⟨active, ends⟩ := requestTermination_ok done
  exact ⟨active, answer, ends⟩

theorem terminateSession_cases (db : Fleet) (authSessions : List AuthSession) (cookieHash server : String)
    (session : Bytes) (id : String) (now : Int) (stored : Bool) :
    (terminateSession db authSessions cookieHash server session id now stored).2 = db ∨
      Requested db server session id now (terminateSession db authSessions cookieHash server session id now stored).2 := by
  rcases terminateSession_ends db authSessions cookieHash server session id now stored with kept | ⟨active, answer, ends⟩
  · exact Or.inl kept
  · generalize (terminateSession _ _ _ _ _ _ _ _).2 = after at ends ⊢
    cases ends with
    | pending => exact Or.inl rfl
    | forgotten => exact Or.inl rfl
    | added _ none_pending fresh => exact Or.inr ⟨active, none_pending, fresh, _, rfl⟩

structure Changed (db : Fleet) (r : ChangeRequest) (ids : ChangeIds) (p : FirewallPolicy) (after : Fleet) : Prop where
  valid : p.validate = .ok ()
  revision : p.revision = ids.revision
  derived : ∃ change : FirewallChange, ∃ q, change.apply (readPolicy db r.server ids.absent) = .ok q ∧
    p = { q with revision := ids.revision }
  capable : p.mode = "allowlist" → ∃ row ∈ db.firewallPolicies, row.serverId = r.server ∧ 2 ≤ row.capable
  stored : after = commitPolicy db r ids p

theorem Changed.frame {db after : Fleet} {r : ChangeRequest} {ids : ChangeIds} {p : FirewallPolicy}
    (done : Changed db r ids p after) : after.sessions = db.sessions ∧
      after.sessionTerminations = db.sessionTerminations ∧ after.events = db.events ∧ after.servers = db.servers := by
  rw [done.stored]
  exact ⟨rfl, rfl, rfl, rfl⟩

theorem requestFirewall_cases (db : Fleet) (server username : String) (now : Int) (ids : ChangeIds)
    (asked : FirewallChange) (stored : Bool) :
    (requestFirewall db server username now ids asked stored).2 = db ∨
      ∃ r p, r.server = server ∧ Changed db r ids p (requestFirewall db server username now ids asked stored).2 := by
  simp only [requestFirewall]
  split
  · exact Or.inl rfl
  next ip change _ =>
    simp only [changeFirewall]
    rcases transaction_snd db stored (503, "방화벽 요청 저장 실패")
      (preparePolicy db ⟨server, username, now, ip, change.action⟩ ids change.apply) with kept | ⟨result, done, -⟩
    · exact Or.inl kept
    · generalize (transaction _ _ _ _).2 = after at done ⊢
      simp only [preparePolicy] at done
      split at done
      · cases done
      next p changed =>
        split at done
        · cases done
        next valid =>
          split at done
          · cases done
          next capable =>
            split at done
            · cases done
            · refine Or.inr ⟨⟨server, username, now, ip, change.action⟩, { p with revision := ids.revision }, rfl,
                valid, rfl, ⟨change, p, changed, rfl⟩, ?_, (Prod.mk.inj (Except.ok.inj done)).2.symm⟩
              intro mode
              simp only at mode
              cases found : db.firewallPolicies.find? fun row => row.serverId == server with
              | none => simp [found, mode] at capable
              | some row =>
                refine ⟨row, List.mem_of_find?_eq_some found, by simpa using List.find?_some found, ?_⟩
                simp [found, mode] at capable
                omega

def newServer (id name tokenHash : String) (now : Int) : ServerRow :=
  ⟨id, name, tokenHash, now, 0, Bytes.utf8 "waiting", 0, 0, false⟩

theorem createServer_cases (hash : String → String) (db : Db) (who : Principal) (name id token : String) (now : Int)
    (stored : Bool) :
    (createServer hash db who name id token now stored).2 = db ∨
      (∀ s ∈ db.servers, s.id ≠ id ∧ s.tokenHash ≠ hash token) ∧
        (createServer hash db who name id token now stored).2.toFleet =
          { db.toFleet with servers := db.servers ++ [newServer id (trimSpace name) (hash token) now] } := by
  simp only [createServer]
  split
  · exact Or.inl rfl
  · rcases transaction_snd db stored (409, "서버를 등록할 수 없습니다. 중복 이름인지 확인하세요.")
      (insertServer db who id (trimSpace name) (hash token) now) with kept | ⟨result, done, -⟩
    · exact Or.inl kept
    · generalize (transaction _ _ _ _).2 = after at done ⊢
      simp only [insertServer] at done
      split at done
      · cases done
      next unused =>
        refine Or.inr ⟨?_, ?_⟩
        · intro s member
          simp only [List.any_eq_true, not_exists, not_and, Bool.or_eq_true, beq_iff_eq, not_or] at unused
          exact ⟨(unused s member).1.1, (unused s member).2⟩
        · rw [← (Prod.mk.inj (Except.ok.inj done)).2]
          rfl

theorem updateServer_cases (db : Fleet) (accounts : Accounts) (who : Principal) (id name : String) (stored : Bool) :
    (updateServer db accounts who id name stored).2 = db ∨
      (updateServer db accounts who id name stored).2 = { db with
        servers := Rows.update (isEditable accounts who id) (fun s => { s with name := trimSpace name }) db.servers } := by
  simp only [updateServer]
  split
  · exact Or.inl rfl
  · cases stored with
    | false => exact Or.inl rfl
    | true =>
      simp only [transaction, Bool.not_true, Bool.false_eq_true, if_false]
      cases body : renameServer db accounts who id (trimSpace name) with
      | error problem => exact Or.inl rfl
      | ok outcome =>
        obtain ⟨changed, after⟩ := outcome
        simp only [renameServer] at body
        split at body
        · obtain ⟨rfl, rfl⟩ := Prod.mk.inj (Except.ok.inj body)
          exact Or.inl rfl
        · split at body
          · cases body
          · obtain ⟨rfl, rfl⟩ := Prod.mk.inj (Except.ok.inj body)
            exact Or.inr rfl

structure TokenChanged (db : Fleet) (id tokenHash : String) (revoke : Bool) (after : Fleet) : Prop where
  unpending : revoke = true → hasPendingFirewall db id = false
  unused : ∀ s ∈ db.servers, s.id ≠ id → s.tokenHash ≠ tokenHash
  stored : ∃ accounts who, (∃ s ∈ db.servers, isEditable accounts who id s = true) ∧ after = { db with
    servers := Rows.update (isEditable accounts who id) (fun s => { s with tokenHash, revoked := revoke }) db.servers }

theorem TokenChanged.frame {db after : Fleet} {id tokenHash : String} {revoke : Bool}
    (done : TokenChanged db id tokenHash revoke after) : after.sessions = db.sessions ∧
      after.sessionTerminations = db.sessionTerminations ∧ after.events = db.events ∧
      after.firewallPolicies = db.firewallPolicies ∧ after.firewallHistory = db.firewallHistory := by
  obtain ⟨accounts, who, -, rfl⟩ := done.stored
  exact ⟨rfl, rfl, rfl, rfl, rfl⟩

theorem changeToken_cases (hash : String → String) (db : Fleet) (accounts : Accounts) (who : Principal)
    (id token : String) (revoke stored : Bool) :
    (changeToken hash db accounts who id token revoke stored).2 = db ∧
        (changeToken hash db accounts who id token revoke stored).1 ≠ .ok () ∨
      TokenChanged db id (hash token) revoke (changeToken hash db accounts who id token revoke stored).2 ∧
        (changeToken hash db accounts who id token revoke stored).1 = .ok () := by
  simp only [changeToken]
  cases stored with
  | false => exact Or.inl ⟨rfl, by simp [transaction]⟩
  | true =>
    simp only [transaction, Bool.not_true, Bool.false_eq_true, if_false]
    cases body : replaceToken db accounts who id (hash token) revoke with
    | error problem => exact Or.inl ⟨rfl, by simp⟩
    | ok outcome =>
      obtain ⟨changed, after⟩ := outcome
      simp only [replaceToken] at body
      split at body
      · cases body
      next unpending =>
        split at body
        next editable =>
          split at body
          · cases body
          next unused =>
            obtain ⟨rfl, rfl⟩ := Prod.mk.inj (Except.ok.inj body)
            obtain ⟨s, member, chosen⟩ := List.any_eq_true.mp editable
            refine Or.inr ⟨⟨?_, ?_, accounts, who, ⟨s, member, chosen⟩, rfl⟩, rfl⟩
            · rintro rfl
              simpa using unpending
            · intro other there different same
              exact unused (List.any_eq_true.mpr ⟨other, there, by simp [different, same]⟩)
        · obtain ⟨rfl, rfl⟩ := Prod.mk.inj (Except.ok.inj body)
          exact Or.inl ⟨rfl, by simp⟩

inductive ServeEffect (hash : String → String) (db : Db) (now : Int) : Request → Fleet → Prop
  | quiet (request : Request) : ServeEffect hash db now request db.toFleet
  | ingested {token : String} {b : Batch} {fresh server : String}
      (known : authenticate db.toFleet (hash token) = some server) :
      ServeEffect hash db now (.ingest token b fresh) (ingestAs server db.toFleet b.redacted now fresh).2
  | requested {cookieHash server : String} {session : Bytes} {id : String} {after : Fleet}
      (done : Requested db.toFleet server session id now after) :
      ServeEffect hash db now (.terminateSession cookieHash server session id) after
  | changed {server username : String} {ids : ChangeIds} {asked : FirewallChange} {r : ChangeRequest}
      {p : FirewallPolicy} {after : Fleet} (target : r.server = server) (done : Changed db.toFleet r ids p after) :
      ServeEffect hash db now (.requestFirewall server username ids asked) after
  | created {who : Principal} {name id token : String}
      (fresh : ∀ s ∈ db.servers, s.id ≠ id ∧ s.tokenHash ≠ hash token) :
      ServeEffect hash db now (.createServer who name id token)
        { db.toFleet with servers := db.servers ++ [newServer id (trimSpace name) (hash token) now] }
  | renamed {who : Principal} {id name : String} :
      ServeEffect hash db now (.updateServer who id name) { db.toFleet with
        servers := Rows.update (isEditable db.toAccounts who id) (fun s => { s with name := trimSpace name }) db.servers }
  | rotated {who : Principal} {id token : String} {revoke : Bool} {after : Fleet}
      (done : TokenChanged db.toFleet id (hash token) revoke after) :
      ServeEffect hash db now (.changeToken who id token revoke) after

theorem serve_effect (hash : String → String) (db : Db) (now : Int) (stored : Bool) (request : Request) :
    ServeEffect hash db now request (db.serve hash now stored request).toFleet := by
  cases request with
  | ingest token b fresh =>
    simp only [Db.serve]
    rcases ingest_cases hash db.toFleet token b now fresh stored with ⟨problem, refused⟩ | ⟨server, known, served⟩
    · rw [refused]
      exact .quiet _
    · rw [served]
      exact .ingested known
  | terminateSession cookieHash server session id =>
    simp only [Db.serve]
    rcases terminateSession_cases db.toFleet db.authSessions cookieHash server session id now stored with same | done
    · rw [same]
      exact .quiet _
    · exact .requested done
  | requestFirewall server username ids asked =>
    simp only [Db.serve]
    rcases requestFirewall_cases db.toFleet server username now ids asked stored with same | ⟨r, p, target, done⟩
    · rw [same]
      exact .quiet _
    · exact .changed target done
  | createServer who name id token =>
    simp only [Db.serve]
    rcases createServer_cases hash db who name id token now stored with same | ⟨fresh, added⟩
    · rw [same]
      exact .quiet _
    · rw [added]
      exact .created fresh
  | updateServer who id name =>
    simp only [Db.serve]
    rcases updateServer_cases db.toFleet db.toAccounts who id name stored with same | done
    · rw [same]
      exact .quiet _
    · rw [done]
      exact .renamed
  | changeToken who id token revoke =>
    simp only [Db.serve]
    rcases changeToken_cases hash db.toFleet db.toAccounts who id token revoke stored with ⟨same, -⟩ | ⟨done, -⟩
    · rw [same]
      exact .quiet _
    · exact .rotated done
  | accounts after => exact .quiet _

def emptyFleet : Fleet := ⟨[], [], [], [], [], [], []⟩

/-- A store without servers whose administrator is logged in. -/
def newStore : Db where
  admins := [⟨"root", "hash"⟩]
  adminRoles := [⟨"root", "super_admin"⟩]
  adminServers := []
  authSessions := [⟨"cookie", "csrf", 100000, "root"⟩]
  accountAuth := []
  passkeys := []
  authPending := []
  authLimits := []
  loginAttempts := []
  toFleet := emptyFleet

structure ServerState where
  db : Db
  time : Int

/-- A request whose handler read its clock at `now` and committed at `time`. -/
structure Served where
  request : Request
  now : Int
  stored : Bool
  time : Int

/-- A request that is committed when its handler reads its clock. -/
def ServerState.serve (hash : String → String) (s : ServerState) (request : Request) (time : Int) : ServerState :=
  ⟨s.db.serve hash time true request, time⟩

/-- The requests of a server, in any order; retention, which deletes old rows, is no step. -/
def serverSystem (hash : String → String) : System ServerState Served where
  init s := s.db.toFleet = emptyFleet
  step s act after := s.time ≤ act.time ∧ act.now ≤ act.time ∧
    after = ⟨s.db.serve hash act.now act.stored act.request, act.time⟩

theorem serve_step {hash : String → String} {s : ServerState} {request : Request} {time : Int} (forward : s.time ≤ time) :
    (serverSystem hash).step s ⟨request, time, true, time⟩ (s.serve hash request time) :=
  ⟨forward, Int.le_refl _, rfl⟩

end SshLogger
