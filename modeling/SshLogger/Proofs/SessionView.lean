import SshLogger.Proofs.Replay
import SshLogger.Library.MatchedRows
import SshLogger.Library.Grouping
import Mathlib.Data.List.Induction
import Mathlib.Order.Basic

/-! As long as retention deletes nothing, the table of sessions says what the table of
events says: which sessions there are, who opened them from where, when they began and
when they ended. Only an end may be known from elsewhere, from a termination that was
carried out. -/

namespace SshLogger
open Library Library.History Library.Grouping

/-- The row tells of a session: that it began or that it ended. -/
def EventRow.tells (row : EventRow) : Bool :=
  row.event.sessionId != [] && (row.event.kind == .sessionStart || row.event.kind == .sessionEnd)

def EventRow.session (row : EventRow) : String × Bytes := (row.serverId, row.event.sessionId)

def tellings (events : List EventRow) : List EventRow := events.filter EventRow.tells

def startRows (rows : List EventRow) : List EventRow := rows.filter fun row => row.event.kind == .sessionStart

def endRows (rows : List EventRow) : List EventRow := rows.filter fun row => row.event.kind == .sessionEnd

/-- Who the rows of one session say opened it, from where and when: the last start
names user and address, or the first row where no start is known, and the session
began at the earliest time of its first row and its starts. -/
structure SessionBegan (rows : List EventRow) (se : SessionRow) : Prop where
  named : ∃ row, (startRows rows).getLast?.or rows.head? = some row ∧ se.user = row.event.user ∧ se.ip = row.event.ip
  first : ∃ row, (rows.head? = some row ∨ row ∈ startRows rows) ∧ se.started = row.event.time
  earliest : ∀ row, rows.head? = some row ∨ row ∈ startRows rows → se.started ≤ row.event.time

def Terminated (db : Fleet) (server : String) (session : Bytes) : Prop :=
  ∃ row ∈ db.sessionTerminations, row.serverId = server ∧ row.sessionId = session ∧ row.status = .succeeded

/-- A row of sessions and what the events of its session, in the order in which
they were stored, say of it: the last end is the session's. -/
structure Told (db : Fleet) (rows : List EventRow) (se : SessionRow) : Prop where
  began : SessionBegan rows se
  ended : ∀ row, (endRows rows).getLast? = some row → se.ended = some row.event.time
  terminated : endRows rows = [] → se.ended.isSome = true → Terminated db se.serverId se.id

/-- The sessions are those the events tell of, in the order of their first row. -/
structure SessionsTold (db : Fleet) : Prop where
  listed : db.sessions.map SessionRow.key = keys EventRow.session (tellings db.events)
  told : ∀ se ∈ db.sessions, Told db (members EventRow.session se.key (tellings db.events)) se

/-- The rows that the stored events alone would leave. -/
def replayed (events : List EventRow) : List SessionRow :=
  events.foldl (fun sessions row => trackSession row.serverId row.event sessions) []

/-- A row of the table and the row its events leave. -/
structure Reflects (db : Fleet) (se view : SessionRow) : Prop where
  key : se.key = view.key
  user : se.user = view.user
  ip : se.ip = view.ip
  started : se.started = view.started
  ended : view.ended.isSome = true → se.ended = view.ended
  terminated : view.ended = none → se.ended.isSome = true → Terminated db se.serverId se.id

def SessionView (db : Fleet) : Prop := List.Forall₂ (Reflects db) db.sessions (replayed db.events)

section
variable {db after : Fleet} {server : String} {now : Int}

structure LeftBy (rows : List EventRow) (se : SessionRow) : Prop where
  began : SessionBegan rows se
  ended : se.ended = (endRows rows).getLast?.map fun row => row.event.time

/-- A session that has begun keeps its first row. -/
theorem SessionBegan.head {rows more : List EventRow} {se : SessionRow} (began : SessionBegan rows se) :
    (rows ++ more).head? = rows.head? := by
  refine List.head?_append_of_ne_nil _ ?_
  rintro rfl
  obtain ⟨row, among, -⟩ := began.first
  simp [startRows] at among

theorem LeftBy.start {rows : List EventRow} {se : SessionRow} {row : EventRow} (left : LeftBy rows se)
    (kind : row.event.kind = .sessionStart) : LeftBy (rows ++ [row])
      { se with user := row.event.user, ip := row.event.ip, started := min se.started row.event.time } := by
  have same : (rows ++ [row]).head? = rows.head? := left.began.head
  have newest : startRows (rows ++ [row]) = startRows rows ++ [row] := by simp [startRows, kind]
  obtain ⟨⟨-, ⟨oldest, among, began⟩, earliest⟩, ended⟩ := left
  refine ⟨⟨⟨row, by simp [newest], rfl, rfl⟩, ?_, ?_⟩, ?_⟩
  · rw [same, newest]
    rcases min_choice se.started row.event.time with old | new
    · exact ⟨oldest, among.imp_right fun there => List.mem_append_left _ there, old.trans began⟩
    · exact ⟨row, Or.inr (by simp), new⟩
  · intro other there
    rw [same, newest] at there
    rcases there with first | listed
    · exact (min_le_left _ _).trans (earliest other (Or.inl first))
    · rcases List.mem_append.mp listed with old | new
      · exact (min_le_left _ _).trans (earliest other (Or.inr old))
      · exact List.mem_singleton.mp new ▸ min_le_right _ _
  · simpa [endRows, kind] using ended

theorem LeftBy.ending {rows : List EventRow} {se : SessionRow} {row : EventRow} (left : LeftBy rows se)
    (kind : row.event.kind = .sessionEnd) :
    LeftBy (rows ++ [row]) { se with ended := some row.event.time, live := false } := by
  have oldest : (rows ++ [row]).head? = rows.head? := left.began.head
  have same : startRows (rows ++ [row]) = startRows rows := by simp [startRows, kind]
  obtain ⟨⟨named, first, earliest⟩, -⟩ := left
  refine ⟨⟨?_, ?_, ?_⟩, by simp [endRows, kind]⟩
  · simpa only [same, oldest] using named
  · simpa only [same, oldest] using first
  · simpa only [same, oldest] using earliest

theorem SessionBegan.one (row : EventRow) (ended : Option Int) : SessionBegan [row]
    ⟨row.serverId, row.event.sessionId, row.event.user, row.event.ip, row.event.time, ended, false⟩ := by
  refine ⟨⟨row, ?_, rfl, rfl⟩, ⟨row, Or.inl rfl, rfl⟩, fun other there => ?_⟩
  · by_cases kind : row.event.kind = .sessionStart <;> simp [startRows, kind]
  · obtain rfl : other = row := by
      rcases there with first | listed
      · exact (Option.some.inj first).symm
      · exact List.mem_singleton.mp (List.mem_of_mem_filter listed)
    exact Int.le_refl _

/-- A row that tells of a session adds to what the earlier rows have left of it. -/
theorem trackSession_left (row : EventRow) :
    row.tells = false ∧ (∀ sessions, trackSession row.serverId row.event sessions = sessions) ∨
    row.tells = true ∧ ∃ opened merge,
      (∀ sessions, trackSession row.serverId row.event sessions = Rows.upsert SessionRow.key opened merge sessions) ∧
      opened.key = row.session ∧ (∀ se, (merge se).key = se.key) ∧ LeftBy [row] opened ∧
      ∀ rows se, LeftBy rows se → LeftBy (rows ++ [row]) (merge se) := by
  by_cases anonymous : row.event.sessionId = []
  · exact Or.inl ⟨by simp [EventRow.tells, anonymous], fun sessions => by simp [trackSession, anonymous]⟩
  · cases kind : row.event.kind with
    | sessionStart =>
      refine Or.inr ⟨by simp [EventRow.tells, anonymous, kind],
        ⟨row.serverId, row.event.sessionId, row.event.user, row.event.ip, row.event.time, none, false⟩,
        fun se => { se with user := row.event.user, ip := row.event.ip, started := min se.started row.event.time },
        fun sessions => ?_, rfl, fun _ => rfl, ?_, fun rows se left => left.start kind⟩
      · simp only [trackSession, beq_iff_eq, anonymous, kind, if_false]
      · exact ⟨.one row _, by simp [endRows, kind]⟩
    | sessionEnd =>
      refine Or.inr ⟨by simp [EventRow.tells, anonymous, kind],
        ⟨row.serverId, row.event.sessionId, row.event.user, row.event.ip, row.event.time, some row.event.time, false⟩,
        fun se => { se with ended := some row.event.time, live := false },
        fun sessions => ?_, rfl, fun _ => rfl, ?_, fun rows se left => left.ending kind⟩
      · simp only [trackSession, beq_iff_eq, anonymous, kind, if_false]
      · exact ⟨.one row _, by simp [endRows, kind]⟩
    | _ =>
      exact Or.inl ⟨by simp [EventRow.tells, kind], fun sessions => by simp [trackSession, kind]⟩

theorem replayed_concat (events : List EventRow) (row : EventRow) :
    replayed (events ++ [row]) = trackSession row.serverId row.event (replayed events) := by
  simp [replayed, List.foldl_append]

theorem tellings_concat (events : List EventRow) (row : EventRow) :
    tellings (events ++ [row]) = if row.tells then tellings events ++ [row] else tellings events := by
  cases tells : row.tells <;> simp [tellings, tells]

/-- The events leave a row for each session they tell of. -/
theorem replayed_listed (events : List EventRow) :
    (replayed events).map SessionRow.key = keys EventRow.session (tellings events) := by
  induction events using List.reverseRecOn with
  | nil => rfl
  | append_singleton events row ih =>
    rw [replayed_concat, tellings_concat]
    rcases trackSession_left row with ⟨silent, unmoved⟩ | ⟨tells, opened, merge, moved, key, keeps, -⟩
    · rw [unmoved, silent]
      exact ih
    · rw [moved, tells, if_pos rfl, Rows.map_upsert keeps, ih, key]
      cases present : Rows.has SessionRow.key row.session (replayed events) with
      | true =>
        have seen : row.session ∈ keys EventRow.session (tellings events) := by
          rw [← ih, List.mem_map]
          exact Rows.has_iff.mp present
        rw [if_pos rfl, keys_concat_of_mem seen]
      | false =>
        have unseen : row.session ∉ keys EventRow.session (tellings events) := by
          rw [← ih, List.mem_map]
          rintro ⟨se, there, same⟩
          exact Rows.has_false_iff.mp present se there same
        rw [if_neg (by simp), keys_concat_of_not_mem unseen]

theorem replayed_left (events : List EventRow) :
    ∀ se ∈ replayed events, LeftBy (members EventRow.session se.key (tellings events)) se := by
  induction events using List.reverseRecOn with
  | nil => simp [replayed]
  | append_singleton events row left =>
    rw [replayed_concat, tellings_concat]
    rcases trackSession_left row with ⟨silent, unmoved⟩ | ⟨tells, opened, merge, moved, key, keeps, new, more⟩
    · rw [unmoved, silent]
      exact left
    · rw [moved, tells, if_pos rfl]
      intro se member
      rw [members_append]
      -- The row of another session, the first row of this one, or one that was there.
      rcases Rows.mem_upsert member with ⟨old, other⟩ | ⟨absent, rfl⟩ | ⟨old, there, same, rfl⟩
      · have apart : members EventRow.session se.key [row] = [] := by
          simpa [members] using fun same : row.session = se.key => other (same.symm.trans key.symm)
        rw [apart, List.append_nil]
        exact left se old
      · have unseen : se.key ∉ keys EventRow.session (tellings events) := by
          rw [← replayed_listed, List.mem_map]
          rintro ⟨old, there, same⟩
          exact Rows.has_false_iff.mp absent old there same
        rw [members_eq_nil unseen, List.nil_append]
        simpa [members, key] using new
      · have own : members EventRow.session (merge old).key [row] = [row] := by
          simp [members, keeps, same, key]
        rw [own, keeps]
        exact more _ _ (left old there)

/-- What the events leave, and what the table makes of it, is what they tell. -/
theorem SessionView.told (view : SessionView db) : SessionsTold db := by
  refine ⟨(Rows.Matched.map_eq view fun se other same => same.key).trans (replayed_listed _), fun se member => ?_⟩
  obtain ⟨other, there, same⟩ := Rows.Matched.other view member
  obtain ⟨⟨named, first, earliest⟩, ended⟩ := replayed_left db.events other there
  rw [← same.key] at named first earliest ended
  refine ⟨⟨?_, ?_, ?_⟩, fun row last => ?_, fun none done => ?_⟩
  · simpa only [same.user, same.ip] using named
  · simpa only [same.started] using first
  · simpa only [same.started] using earliest
  · rw [last] at ended
    rw [same.ended (by rw [ended]; rfl), ended]
    rfl
  · rw [none] at ended
    exact same.terminated ended done

def Remembers (db after : Fleet) : Prop := ∀ row ∈ db.sessionTerminations, row.status = .succeeded → row ∈ after.sessionTerminations

theorem Reflects.later {se view : SessionRow} (same : Reflects db se view) (remembers : Remembers db after) :
    Reflects after se view :=
  { same with
    terminated := fun running ended => by
      obtain ⟨row, member, server, session, done⟩ := same.terminated running ended
      exact ⟨row, remembers row member done, server, session, done⟩ }

theorem SessionView.later (view : SessionView db) (remembers : Remembers db after) (sessions : after.sessions = db.sessions)
    (events : after.events = db.events) : SessionView after := by
  rw [SessionView, sessions, events]
  exact view.imp fun se other same => same.later remembers

theorem reportTermination_remembers (db : Fleet) (result : TerminationResult) :
    Remembers db (reportTermination server now db result) := by
  intro row member done
  simp only [reportTermination, endReported]
  have settled : (row.id == result.id && row.serverId == server && row.status == .pending) = false := by
    simp [done]
  split
  · exact Rows.mem_update_of_not member settled
  · exact Rows.mem_update_of_not member settled

theorem reportTermination_view (view : SessionView db) (result : TerminationResult) :
    SessionView (reportTermination server now db result) := by
  have remembers := @reportTermination_remembers server now db result
  cases status : result.error == [] with
  | false =>
    refine view.later remembers ?_ ?_ <;> simp [reportTermination, status]
  | true =>
    have events : (reportTermination server now db result).events = db.events := by
      simp [reportTermination, status, endReported]
    have sessions : (reportTermination server now db result).sessions = Rows.update
        (fun se => se.serverId == server && reportedSession db server result.id == some se.id)
        (fun se => { se with ended := some (se.ended.getD now), live := false }) db.sessions := by
      simp [reportTermination, status, endReported]
    rw [SessionView, sessions, events]
    have kept : List.Forall₂ (Reflects (reportTermination server now db result)) db.sessions (replayed db.events) :=
      view.imp fun se other same => same.later remembers
    refine Rows.Matched.updateFirst kept fun se other same picked => ?_
    simp only [Bool.and_eq_true, beq_iff_eq] at picked
    obtain ⟨own, reported⟩ := picked
    obtain ⟨row, found, named⟩ := Option.map_eq_some_iff.mp reported
    have matched : (row.id == result.id && row.serverId == server && row.status == .pending) = true := by
      simpa using List.find?_some found
    -- The pending row the report was for is now recorded as carried out.
    have recorded : Terminated (reportTermination server now db result) se.serverId se.id := by
      refine ⟨{ row with status := .succeeded, error := result.error }, ?_, ?_, named, rfl⟩
      · simp only [reportTermination, status, endReported]
        exact Rows.mem_update_of (List.mem_of_find?_eq_some found) matched
      · simp only [Bool.and_eq_true, beq_iff_eq] at matched
        exact matched.1.2.trans own.symm
    refine ⟨same.key, same.user, same.ip, same.started, fun done => ?_, fun _ _ => recorded⟩
    have before := same.ended done
    obtain ⟨time, same⟩ := Option.isSome_iff_exists.mp done
    rw [before, same]
    rfl

/-- What an event says about its session is said in both tables. -/
theorem trackSession_matched {e : Event} {sessions views : List SessionRow} (view : List.Forall₂ (Reflects db) sessions views) :
    List.Forall₂ (Reflects db) (trackSession server e sessions) (trackSession server e views) := by
  have fresh : ∀ se : SessionRow, Reflects db se se := fun se =>
    ⟨rfl, rfl, rfl, rfl, fun _ => rfl, fun running done => by simp [running] at done⟩
  have keyed : ∀ se other, Reflects db se other → se.key = other.key := fun se other same => same.key
  simp only [trackSession]
  split
  · exact view
  · split
    · refine Rows.Matched.upsert view keyed (fresh _) fun old ancient same _ => ?_
      exact ⟨same.key, rfl, rfl, congrArg (min · e.time) same.started, same.ended, same.terminated⟩
    · refine Rows.Matched.upsert view keyed (fresh _) fun old ancient same _ => ?_
      exact ⟨same.key, same.user, same.ip, same.started, fun _ => rfl, fun running => by cases running⟩
    · exact view

theorem storeEvent_view (view : SessionView db) (e : Event) : SessionView (storeEvent server now db e) := by
  simp only [storeEvent]
  split
  · exact view
  · have matched := @trackSession_matched db server e _ _ view
    rw [SessionView, replayed_concat]
    exact matched.imp fun se other same => same.later fun row member _ => member

theorem heartbeat_view (view : SessionView db) (b : Batch) : SessionView (heartbeat server b now db) := by
  have marked : ∀ {live : Bool} {selected : SessionRow → Bool} {sessions : List SessionRow},
      List.Forall₂ (Reflects db) sessions (replayed db.events) →
        List.Forall₂ (Reflects db) (Rows.update selected (fun se => { se with live }) sessions) (replayed db.events) := by
    intro live selected sessions matched
    exact Rows.Matched.updateFirst matched fun se other same _ =>
      ⟨same.key, same.user, same.ip, same.started, same.ended, same.terminated⟩
  have live : List.Forall₂ (Reflects db) (markLive server b.activeSessions db.sessions) (replayed db.events) := by
    rw [markLive]
    have cleared := @marked false (fun se => se.serverId == server) db.sessions view
    generalize Rows.update (fun se => se.serverId == server) (fun se => { se with live := false }) db.sessions = sessions at cleared
    induction b.activeSessions generalizing sessions with
    | nil => exact cleared
    | cons id active ih => exact ih _ (marked cleared)
  exact live.imp fun se other same => same.later fun row member _ => member

theorem ingestAs_view (view : SessionView db) (b : Batch) (fresh : String) :
    SessionView (ingestAs server db b now fresh).2 := by
  have reports : SessionView (ingestTerminations db server b now).2 := by
    rw [ingestTerminations_snd]
    have control : SessionView { db with
        serverControl := Rows.upsert ControlRow.serverId ⟨server, b.canTerminate⟩
          (fun row => { row with enabled := b.canTerminate }) db.serverControl } :=
      view.later (fun row member _ => member) rfl rfl
    revert control
    generalize ({ db with serverControl := _ } : Fleet) = start
    intro control
    induction b.terminationResults generalizing start with
    | nil => exact control
    | cons result results ih => exact ih _ (reportTermination_view control result)
  have firewall : SessionView (ingestFirewall (ingestTerminations db server b now).2 server fresh b now).2 := by
    obtain ⟨sessions, terminations, events, -⟩ :=
      @ingestFirewall_frame server now (ingestTerminations db server b now).2 fresh b
    exact reports.later (fun row member _ => terminations ▸ member) sessions events
  have stored : SessionView (b.events.foldl (storeEvent server now)
      (ingestFirewall (ingestTerminations db server b now).2 server fresh b now).2) := by
    generalize (ingestFirewall (ingestTerminations db server b now).2 server fresh b now).2 = start at firewall
    induction b.events generalizing start with
    | nil => exact firewall
    | cons e events ih => exact ih _ (storeEvent_view firewall e)
  exact heartbeat_view stored b

theorem ServeEffect.view {hash : String → String} {db : Db} {request : Request} {after : Fleet}
    (effect : ServeEffect hash db now request after) (view : SessionView db.toFleet) : SessionView after := by
  cases effect with
  | quiet => exact view
  | ingested => exact ingestAs_view view _ _
  | requested done =>
    obtain ⟨username, rfl⟩ := done.stored
    exact view.later (fun row member _ => List.mem_append_left _ member) rfl rfl
  | changed _ done =>
    obtain ⟨sessions, terminations, events, -⟩ := done.frame
    exact view.later (fun row member _ => terminations ▸ member) sessions events
  | created => exact view.later (fun row member _ => member) rfl rfl
  | renamed => exact view.later (fun row member _ => member) rfl rfl
  | rotated done =>
    obtain ⟨sessions, terminations, events, -⟩ := done.frame
    exact view.later (fun row member _ => terminations ▸ member) sessions events

end

/-- In every run of the server, whatever its agents and administrators sent, the
sessions are those the events tell of; an end the events do not tell of is that of a
termination which was carried out. -/
theorem sessions_reflect_events {hash : String → String} {history : List (Transition ServerState Served)} {s : ServerState}
    (run : Run (serverSystem hash) history s) : SessionsTold s.db.toFleet := by
  refine SessionView.told (run.invariant (fun s => SessionView s.db.toFleet) ?_ ?_)
  · intro s empty
    rw [SessionView, show s.db.toFleet = emptyFleet from empty]
    exact .nil
  · rintro s act after view ⟨-, -, rfl⟩
    exact (serve_effect hash s.db act.now act.stored act.request).view view

/-- A session that was ended on request: its events do not say that it ended. -/
theorem sessions_reflect_events_request : SessionsTold requestDone.db.toFleet ∧
    requestDone.db.sessions.map SessionRow.ended = [some 4000] ∧ (tellings requestDone.db.events).length = 1 ∧
      endRows (tellings requestDone.db.events) = [] := by
  have run : Run (serverSystem id) requestHistory requestDone :=
    .next (.next (.next (.next (.start rfl) (serve_step (by decide))) (serve_step (by decide)))
      (serve_step (by decide))) (serve_step (by decide))
  exact ⟨sessions_reflect_events run, by decide +kernel, by decide +kernel, by decide +kernel⟩

end SshLogger
