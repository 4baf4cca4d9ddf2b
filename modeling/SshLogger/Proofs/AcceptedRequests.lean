import SshLogger.Proofs.Authorization
import SshLogger.Proofs.TerminationLifecycle

/-! What an accepted termination request leaves in the store. The row of a new
request is made from the caller's login session, which the middleware has seen
and the transaction does not check again. -/

namespace SshLogger
open Library Library.History

variable {app : App} {c next : Console} {act : ConsoleAct} {history : List (Transition Console ConsoleAct)}

def AcceptsRequest (app : App) (t : Transition Console ConsoleAct) (f : Checked) (now : Int) (server : String)
    (session : Bytes) (id answer : String) : Prop :=
  ∃ stored, t.action = .transact f now stored ∧ f.mutation = .terminateSession server session id ∧
    (perform app t.before.db f now stored).1 = .ok answer

def IsThere (fleet : Fleet) (server : String) (session : Bytes) (answer : String) (row : TerminationRow) : Prop :=
  row ∈ fleet.sessionTerminations ∧ row.id = answer ∧ row.serverId = server ∧ row.sessionId = session ∧ row.status = .pending

/-- The caller is still logged in, or the session has a pending request that is
answered again: one not expired, or one that has the drawn id already. -/
def Backed (app : App) (db : Db) (f : Checked) (now : Int) (server : String) (session : Bytes) (id : String) : Prop :=
  (∃ s ∈ db.authSessions, s.tokenHash = app.hash f.cookie) ∨
    ∃ row ∈ db.sessionTerminations, row.serverId = server ∧ row.sessionId = session ∧ row.status = .pending ∧
      (now < row.expires ∨ row.id = id)

/-- Every termination request the step performs is backed in the state before it. -/
def BackedStep (app : App) (t : Transition Console ConsoleAct) : Prop :=
  ∀ f now stored server session id, t.action = .transact f now stored → f.mutation = .terminateSession server session id →
    Backed app t.before.db f now server session id

theorem terminateSession_accepted {db : Fleet} {authSessions : List AuthSession} {cookieHash server id answer : String}
    {session : Bytes} {now : Int} {stored : Bool}
    (accepted : (terminateSession db authSessions cookieHash server session id now stored).1 = .ok answer) :
    RequestEnds db server session ((authSessions.find? fun row => row.tokenHash == cookieHash).map AuthSession.username) id
      now answer (terminateSession db authSessions cookieHash server session id now stored).2 :=
  (requestTermination_ok (transaction_ok accepted)).2

theorem transact_terminates {f : Checked} {now : Int} {stored : Bool} {server id : String} {session : Bytes}
    (moved : Console.Step app c (.transact f now stored) next) (asked : f.mutation = .terminateSession server session id) :
    (perform app c.db f now stored).1 =
        (terminateSession c.fleet c.admin.db.authSessions (app.hash f.cookie) server session id now stored).1 ∧
      next.fleet =
        (terminateSession c.fleet c.admin.db.authSessions (app.hash f.cookie) server session id now stored).2 := by
  obtain ⟨m, cookie, who, placed⟩ := f
  obtain rfl : m = .terminateSession server session id := asked
  cases moved with
  | transact => exact ⟨rfl, rfl⟩

theorem caller_known {sessions : List AuthSession} {token : String} :
    ((sessions.find? fun row => row.tokenHash == token).map AuthSession.username) = none ↔
      ¬∃ s ∈ sessions, s.tokenHash = token := by
  simp

/-- The row is there exactly when the request was backed. -/
theorem RequestEnds.there_iff {db after : Fleet} {authSessions : List AuthSession} {token server id answer : String}
    {session : Bytes} {now : Int}
    (ends : RequestEnds db server session ((authSessions.find? fun row => row.tokenHash == token).map AuthSession.username)
      id now answer after) :
    (∃ row, IsThere after server session answer row) ↔ (∃ s ∈ authSessions, s.tokenHash = token) ∨
      ∃ row ∈ db.sessionTerminations, row.serverId = server ∧ row.sessionId = session ∧ row.status = .pending ∧
        (now < row.expires ∨ row.id = id) := by
  cases ends with
  | @pending row member pending own =>
    simp only [isPending, Bool.and_eq_true, beq_iff_eq, decide_eq_true_eq] at pending
    constructor
    · exact fun _ => Or.inr ⟨row, member, pending.1.1, own, pending.1.2, Or.inl pending.2⟩
    · exact fun _ => ⟨row, member, rfl, pending.1.1, own, pending.1.2⟩
  | forgotten unknown none_pending =>
    constructor
    · rintro ⟨row, member, same, own, of_session, pending⟩
      exact Or.inr ⟨row, member, own, of_session, pending, Or.inr same⟩
    · rintro (known | ⟨row, member, own, of_session, pending, live | same⟩)
      · exact absurd known (caller_known.mp unknown)
      · exact absurd of_session (none_pending row member (by simp [isPending, own, pending, live]))
      · exact ⟨row, member, same, own, of_session, pending⟩
  | @added username known none_pending fresh =>
    constructor
    · intro _
      obtain ⟨s, found, -⟩ := Option.map_eq_some_iff.mp known
      exact Or.inl ⟨s, List.mem_of_find?_eq_some found, by simpa using List.find?_some found⟩
    · exact fun _ => ⟨_, List.mem_append_right _ (List.mem_singleton_self _), rfl, rfl, rfl, rfl⟩

theorem accepted_backed {f : Checked} {now : Int} {server id answer : String} {session : Bytes}
    (moved : Console.Step app c act next) (accepted : AcceptsRequest app ⟨c, act, next⟩ f now server session id answer) :
    (∃ row, IsThere next.fleet server session answer row) ↔ Backed app c.db f now server session id := by
  obtain ⟨stored, rfl, asked, answered⟩ := accepted
  obtain ⟨result, after⟩ := transact_terminates moved asked
  dsimp only at answered
  rw [result] at answered
  rw [after]
  exact (terminateSession_accepted answered).there_iff

/-- The same request, whatever has become of it since. -/
def Repeats (old row : TerminationRow) : Prop :=
  old.id = row.id ∧ old.serverId = row.serverId ∧ old.sessionId = row.sessionId ∧ old.requestedBy = row.requestedBy

def Records (app : App) (t : Transition Console ConsoleAct) (row : TerminationRow) : Prop :=
  ∃ f now stored, t.action = .transact f now stored ∧ f.mutation = .terminateSession row.serverId row.sessionId row.id ∧
    ∃ s ∈ t.before.admin.db.authSessions, s.tokenHash = app.hash f.cookie ∧ s.username = row.requestedBy

/-- Other requests change at most how a request for a termination stands. -/
theorem serve_rows {hash : String → String} {db : Db} {now : Int} {request : Request} {after : Fleet}
    (effect : ServeEffect hash db now request after)
    (other : ∀ cookieHash server session id, request ≠ .terminateSession cookieHash server session id)
    {row : TerminationRow} (member : row ∈ after.sessionTerminations) :
    ∃ old ∈ db.sessionTerminations, row = { old with status := row.status, error := row.error } := by
  have kept : row ∈ db.sessionTerminations →
      ∃ old ∈ db.sessionTerminations, row = { old with status := row.status, error := row.error } :=
    fun there => ⟨row, there, rfl⟩
  cases effect with
  | quiet => exact kept member
  | changed _ done => exact kept (done.frame.2.1 ▸ member)
  | created => exact kept member
  | renamed => exact kept member
  | rotated done => exact kept (done.frame.2.1 ▸ member)
  | requested => exact absurd rfl (other _ _ _ _)
  | @ingested token b fresh server known =>
    obtain ⟨settle, rows, reported⟩ := ingestAs_rows server db.toFleet b.redacted now fresh
    obtain ⟨old, there, rfl⟩ := List.mem_map.mp (rows ▸ member)
    refine ⟨old, there, ?_⟩
    rcases reported old with same | ⟨-, -, result, -, -, same⟩
    · rw [same]
    · rw [same]

theorem serve_repeats {hash : String → String} {db : Db} {now : Int} {request : Request} {after : Fleet}
    (effect : ServeEffect hash db now request after)
    (other : ∀ cookieHash server session id, request ≠ .terminateSession cookieHash server session id)
    {row : TerminationRow} (member : row ∈ after.sessionTerminations) : ∃ old ∈ db.sessionTerminations, Repeats old row := by
  obtain ⟨old, there, same⟩ := serve_rows effect other member
  rw [same]
  exact ⟨old, there, rfl, rfl, rfl, rfl⟩

/-- What a step does to the agents' tables is what a request does to the store, the
clean-up apart. -/
theorem console_fleet (moved : Console.Step app c act next) :
    (∃ now stored request, (∀ cookieHash server session id, request ≠ .terminateSession cookieHash server session id) ∧
      (∀ token b fresh, request = .ingest token b fresh → act = .ingest token b now fresh stored) ∧
      next.fleet = (c.db.serve app.hash now stored request).toFleet) ∨
    (∃ visits days now, next.fleet = cleanupFleet visits c.fleet days now) ∨
    ∃ f now stored server session id, act = .transact f now stored ∧ f.mutation = .terminateSession server session id := by
  have quiet : next.fleet = c.fleet → ∃ now stored request,
      (∀ cookieHash server session id, request ≠ .terminateSession cookieHash server session id) ∧
        (∀ token b fresh, request = .ingest token b fresh → act = .ingest token b now fresh stored) ∧
        next.fleet = (c.db.serve app.hash now stored request).toFleet :=
    fun same => ⟨0, true, .accounts c.admin.db, by simp, by simp, same⟩
  cases moved with
  | account => exact Or.inl (quiet rfl)
  | enter => exact Or.inl (quiet rfl)
  | place => exact Or.inl (quiet rfl)
  | createServer who name id token now stored => exact Or.inl ⟨now, stored, .createServer who name id token, by simp,
    by simp, by dsimp only [Db.serve, Console.commit]⟩
  | updateServer who id name stored =>
    exact Or.inl ⟨0, stored, .updateServer who id name, by simp, by simp, by dsimp only [Db.serve, Console.db]⟩
  | changeToken who id token revoke stored =>
    exact Or.inl ⟨0, stored, .changeToken who id token revoke, by simp, by simp, by dsimp only [Db.serve, Console.db]⟩
  | ingest token b now fresh stored => exact Or.inl ⟨now, stored, .ingest token b fresh, by simp,
    by simp, by dsimp only [Db.serve, Console.db]⟩
  | cleanupFleet visits days now => exact Or.inr (Or.inl ⟨visits, days, now, rfl⟩)
  | transact f now stored later earlier waits placed minted =>
    obtain ⟨m, cookie, who, placed⟩ := f
    cases m with
    | createAdmin => exact Or.inl (quiet rfl)
    | deleteAdmin => exact Or.inl (quiet rfl)
    | updateAdminAccess target role servers =>
      refine Or.inl (quiet ?_)
      dsimp only [Console.commit, perform]
      rcases updateAdminAccess_ends c.db target role servers stored with same | ⟨result, done⟩
      · rw [same]
        rfl
      · obtain ⟨rows, -, -, -, after⟩ := grantAccess_ok done
        rw [after]
        rfl
    | changeFirewall server ids asked =>
      exact Or.inl ⟨now, stored, .requestFirewall server who.username ids asked, by simp, by simp,
        by dsimp only [Db.serve, Console.commit, perform]⟩
    | terminateSession server session id => exact Or.inr (Or.inr ⟨_, now, stored, server, session, id, rfl, rfl⟩)

theorem console_rows (moved : Console.Step app c act next) {row : TerminationRow}
    (member : row ∈ next.fleet.sessionTerminations) :
    (∃ old ∈ c.fleet.sessionTerminations, Repeats old row) ∨ Records app ⟨c, act, next⟩ row := by
  have kept : row ∈ c.fleet.sessionTerminations →
      (∃ old ∈ c.fleet.sessionTerminations, Repeats old row) ∨ Records app ⟨c, act, next⟩ row :=
    fun there => Or.inl ⟨row, there, rfl, rfl, rfl, rfl⟩
  rcases console_fleet moved with ⟨now, stored, request, other, -, same⟩ | ⟨visits, days, now, same⟩ |
    ⟨f, now, stored, server, session, id, rfl, asked⟩
  · rw [same] at member
    exact Or.inl (serve_repeats (serve_effect app.hash c.db now stored request) other member)
  · rw [same] at member
    exact kept (Rows.mem_delete.mp member).1
  · obtain ⟨-, after⟩ := transact_terminates moved asked
    rcases terminateSession_ends c.fleet c.admin.db.authSessions (app.hash f.cookie) server session id now stored with
      same | ⟨-, answer, ends⟩
    · rw [after, same] at member
      exact kept member
    · rw [after] at member
      generalize (terminateSession _ _ _ _ _ _ _ _).2 = fleet at member ends
      cases ends with
      | pending => exact kept member
      | forgotten => exact kept member
      | added known =>
        rcases List.mem_append.mp member with old | new
        · exact kept old
        · obtain rfl := List.mem_singleton.mp new
          obtain ⟨s, found, own⟩ := Option.map_eq_some_iff.mp known
          refine Or.inr ⟨f, now, stored, rfl, asked, s, List.mem_of_find?_eq_some found, ?_, own⟩
          simpa using List.find?_some found

/-- The requester of a row is the one its request recorded, unless the row is older
than the run. -/
def RequesterRecorded (app : App) (start : Console) (history : List (Transition Console ConsoleAct))
    (row : TerminationRow) : Prop :=
  (∃ old ∈ start.fleet.sessionTerminations, Repeats old row) ∨ ∃ t ∈ history, Records app t row

theorem Repeats.trans {first second third : TerminationRow} (one : Repeats first second) (two : Repeats second third) :
    Repeats first third :=
  ⟨one.1.trans two.1, one.2.1.trans two.2.1, one.2.2.1.trans two.2.2.1, one.2.2.2.trans two.2.2.2⟩

theorem Records.repeats {t : Transition Console ConsoleAct} {old row : TerminationRow} (records : Records app t old)
    (repeats : Repeats old row) : Records app t row := by
  obtain ⟨f, now, stored, action, asked, s, there, token, own⟩ := records
  obtain ⟨id, server, session, requester⟩ := repeats
  exact ⟨f, now, stored, action, by rw [asked, id, server, session], s, there, token, own.trans requester⟩

theorem recorded_of_run (run : Run (console app) history c) :
    ∀ row ∈ c.fleet.sessionTerminations, RequesterRecorded app (origin c history) history row := by
  refine run.induct (fun history c =>
    ∀ row ∈ c.fleet.sessionTerminations, RequesterRecorded app (origin c history) history row) ?_ ?_
  · exact fun c _ row member => Or.inl ⟨row, member, rfl, rfl, rfl, rfl⟩
  · intro history c act next _ ih moved row member
    rcases console_rows moved member with ⟨old, there, repeats⟩ | records
    · rcases ih old there with ⟨oldest, start, again⟩ | ⟨t, earlier, records⟩
      · exact Or.inl ⟨oldest, start, again.trans repeats⟩
      · exact Or.inr ⟨t, List.mem_cons_of_mem _ earlier, records.repeats repeats⟩
    · exact Or.inr ⟨_, List.mem_cons_self, records⟩

theorem recorded_after (run : Run (console app) history c) {t : Transition Console ConsoleAct} (member : t ∈ history)
    {row : TerminationRow} (there : row ∈ t.after.fleet.sessionTerminations) :
    RequesterRecorded app (origin c history) history row := by
  obtain ⟨later, older, rfl⟩ := List.append_of_mem member
  have earlier := run.origin
  have ended := earlier.newest.1
  rw [← ended] at earlier
  rw [origin_append, ← ended]
  refine (recorded_of_run earlier row there).imp_right ?_
  rintro ⟨t', listed, records⟩
  exact ⟨t', List.mem_append_right _ listed, records⟩

/-- In every run whose termination requests are all backed, an accepted request
exists, with the account that asked for it; one that is not backed does not. -/
theorem accepted_requests_exist (run : Run (console app) history c) :
    ((∀ t ∈ history, BackedStep app t) → ∀ t ∈ history, ∀ f now server session id answer,
      AcceptsRequest app t f now server session id answer →
      ∃ row, IsThere t.after.fleet server session answer row ∧ RequesterRecorded app (origin c history) history row) ∧
    ∀ t ∈ history, ∀ f now server session id answer, AcceptsRequest app t f now server session id answer →
      ¬Backed app t.before.db f now server session id → ∀ row, ¬IsThere t.after.fleet server session answer row := by
  refine ⟨fun backed t member f now server session id answer accepted => ?_,
    fun t member f now server session id answer accepted unbacked row there => ?_⟩
  · obtain ⟨older, -, moved⟩ := run.of_mem member
    have holds : Backed app t.before.db f now server session id := by
      obtain ⟨stored, action, asked, -⟩ := accepted
      exact backed t member f now stored server session id action asked
    obtain ⟨row, there⟩ := (accepted_backed moved accepted).mpr holds
    exact ⟨row, there, recorded_after run member there.1⟩
  · obtain ⟨older, -, moved⟩ := run.of_mem member
    exact unbacked ((accepted_backed moved accepted).mp ⟨row, there⟩)

/-- A logged-in administrator asks to end a session. -/
def watchedStart : Console where
  admin := consoleStart.admin
  fleet := { emptyFleet with
    servers := [⟨"s1", "web", "t", 0, 5000, Bytes.utf8 "ok", 0, 0, false⟩]
    sessions := [⟨"s1", Bytes.utf8 "b:3", Bytes.utf8 "alice", [], 1000, none, true⟩]
    serverControl := [⟨"s1", true⟩] }
  waiting := []

def endRequest : Checked := ⟨.terminateSession "s1" (Bytes.utf8 "b:3") "r1", "t1", ⟨"ops", "super_admin"⟩, true⟩

def endingRun : { p : List (Transition Console ConsoleAct) × Console //
    Run (console plainApp) p.1 p.2 ∧ p.2.waiting = [endRequest] ∧
      (∀ t ∈ p.1, ∀ f now stored, t.action ≠ .transact f now stored) ∧
      (∃ s ∈ p.2.admin.db.authSessions, s.tokenHash = plainApp.hash endRequest.cookie) ∧
      (perform plainApp p.2.db endRequest 6000 true).1 = .ok "r1" } := by
  have start : Run (console plainApp) [] watchedStart :=
    .start ⟨⟨rfl, rfl, rfl, by unfold Rows.Unique; decide, by decide, rfl, rfl, rfl, rfl⟩, rfl⟩
  have asked := start.next (.account _ _ rfl (.admitLogin plainSite opsLogin 1000))
  have verified := asked.next (.account _ _ rfl (.verifyLogin opsLogin (by decide +kernel)))
  have opened := verified.next (.account _ _ rfl (.login plainSite opsVerified (authIds "1") 2000 true (by decide +kernel)))
  have entered := opened.next (.enter plainSite endRequest.mutation (sessionHeaders "1") 3000 rfl)
  have placed := entered.next (.place { endRequest with placed := false } [] [] (by decide +kernel))
  refine ⟨(_, _), placed, by decide +kernel, ?_, by decide +kernel, by decide +kernel⟩
  simp only [List.forall_mem_cons]
  exact ⟨by simp, by simp, by simp, by simp, by simp, by simp⟩

theorem accepted_requests_exist_watched : ∃ history c, Run (console plainApp) history c ∧
    ∃ row, IsThere c.fleet "s1" (Bytes.utf8 "b:3") "r1" row ∧ RequesterRecorded plainApp (origin c history) history row := by
  obtain ⟨run, waits, untouched, caller, answered⟩ := endingRun.property
  have done := run.next (.transact endRequest 6000 true [] [] waits rfl (by simp [endRequest, Mutation.minted]))
  refine ⟨_, _, done, (accepted_requests_exist done).1 ?_ _ List.mem_cons_self endRequest 6000 "s1" (Bytes.utf8 "b:3")
    "r1" "r1" ⟨true, rfl, rfl, answered⟩⟩
  intro t member
  rcases List.mem_cons.mp member with rfl | earlier
  · rintro f now stored server session id ⟨⟩ -
    exact Or.inl caller
  · exact fun f now stored _ _ _ action _ => absurd action (untouched t earlier f now stored)

def loggedOutRun : { p : List (Transition Console ConsoleAct) × Console //
    Run (console plainApp) p.1 p.2 ∧ p.2.waiting = [endRequest] ∧ p.2.admin.db.authSessions = [] ∧
      p.2.fleet.sessionTerminations = [] ∧ (perform plainApp p.2.db endRequest 6000 true).1 = .ok "r1" } := by
  have left := endingRun.property.1.next (.account _ _ rfl (.logout "t1" true))
  exact ⟨(_, _), left, by decide +kernel, by decide +kernel, by decide +kernel, by decide +kernel⟩

theorem accepted_request_lost : ¬∀ (app : App) (history : List (Transition Console ConsoleAct)) (c : Console),
    Run (console app) history c → ∀ t ∈ history, ∀ f now server session id answer,
      AcceptsRequest app t f now server session id answer → ∃ row, IsThere t.after.fleet server session answer row := by
  intro exists_always
  obtain ⟨run, waits, no_session, no_request, answered⟩ := loggedOutRun.property
  have moved := @Console.Step.transact plainApp _ endRequest 6000 true [] [] waits rfl (by simp [endRequest, Mutation.minted])
  have there := exists_always plainApp _ _ (run.next moved) _ List.mem_cons_self endRequest 6000 "s1" (Bytes.utf8 "b:3")
    "r1" "r1" ⟨true, rfl, rfl, answered⟩
  have backed : Backed plainApp loggedOutRun.val.2.db endRequest 6000 "s1" (Bytes.utf8 "b:3") "r1" :=
    (accepted_backed moved ⟨true, rfl, rfl, answered⟩).mp there
  rcases backed with ⟨s, known, -⟩ | ⟨row, pending, -⟩
  · rw [show loggedOutRun.val.2.db.authSessions = [] from no_session] at known
    cases known
  · rw [show loggedOutRun.val.2.db.sessionTerminations = [] from no_request] at pending
    cases pending

end SshLogger
