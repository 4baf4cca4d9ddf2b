import SshLogger.Proofs.Delivery
import SshLogger.Proofs.TerminationLifecycle

/-! A batch that arrives again changes nothing that its first processing wrote:
its events are stored, its reports are settled, and the active sessions it lists
only say which sessions are live. -/

namespace SshLogger
open Library Library.History

variable {server : String} {now : Int} {db : Fleet} {b : Batch} {fresh : String}

/-- A session keeps its key, never begins later and is never reopened. -/
structure Onward (se se' : SessionRow) : Prop where
  key : se'.key = se.key
  started : se'.started ≤ se.started
  ended : se.ended.isSome = true → se'.ended.isSome = true

instance : IsPreorder SessionRow Onward where
  refl _ := ⟨rfl, Int.le_refl _, id⟩
  trans _ _ _ first second :=
    ⟨second.key.trans first.key, Int.le_trans second.started first.started, fun ended => second.ended (first.ended ended)⟩

theorem reportTermination_onward (db : Fleet) (result : TerminationResult) :
    Rows.Evolves Onward db.sessions (reportTermination server now db result).sessions := by
  simp only [reportTermination]
  split
  · exact .update fun _ _ => ⟨rfl, Int.le_refl _, fun _ => rfl⟩
  · exact .refl _

theorem storeEvent_onward (db : Fleet) (e : Event) :
    Rows.Evolves Onward db.sessions (storeEvent server now db e).sessions := by
  simp only [storeEvent]
  split
  · exact .refl _
  · simp only [trackSession]
    split
    · exact .refl _
    · split
      · exact .upsert fun old => ⟨rfl, Int.min_le_left _ _, id⟩
      · exact .upsert fun _ => ⟨rfl, Int.le_refl _, fun _ => rfl⟩
      · exact .refl _

theorem markLive_onward (server : String) (active : List Bytes) (sessions : List SessionRow) :
    Rows.Evolves Onward sessions (markLive server active sessions) := by
  have cleared : Rows.Evolves Onward sessions
      (Rows.update (fun se => se.serverId == server) (fun se => { se with live := false }) sessions) :=
    .update fun _ _ => ⟨rfl, Int.le_refl _, id⟩
  refine cleared.trans (.foldl id (fun sessions id => ?_) active _)
  exact .update fun _ _ => ⟨rfl, Int.le_refl _, fun ended => ended⟩

theorem ingestAs_onward (server : String) (db : Fleet) (b : Batch) (now : Int) (fresh : String) :
    Rows.Evolves Onward db.sessions (ingestAs server db b now fresh).2.sessions := by
  simp only [ingestAs, heartbeat]
  have reports : Rows.Evolves Onward db.sessions (ingestTerminations db server b now).2.sessions := by
    rw [ingestTerminations_snd]
    exact Rows.Evolves.foldl Fleet.sessions reportTermination_onward b.terminationResults { db with
      serverControl := Rows.upsert ControlRow.serverId ⟨server, b.canTerminate⟩
        (fun row => { row with enabled := b.canTerminate }) db.serverControl }
  generalize (ingestTerminations db server b now).2 = reported at reports ⊢
  rw [← (ingestFirewall_frame server now reported fresh b).1] at reports
  generalize (ingestFirewall reported server fresh b now).2 = checked at reports ⊢
  have events : Rows.Evolves Onward checked.sessions (b.events.foldl (storeEvent server now) checked).sessions :=
    .foldl Fleet.sessions storeEvent_onward b.events checked
  exact (reports.trans events).trans (markLive_onward server b.activeSessions _)

theorem ServeEffect.onward {hash : String → String} {db : Db} {request : Request} {after : Fleet}
    (effect : ServeEffect hash db now request after) : Rows.Evolves Onward db.sessions after.sessions := by
  cases effect with
  | quiet => exact .refl _
  | changed _ done => exact done.frame.1 ▸ .refl _
  | created => exact .refl _
  | renamed => exact .refl _
  | rotated done => exact done.frame.1 ▸ .refl _
  | requested done =>
    obtain ⟨username, rfl⟩ := done.stored
    exact .refl _
  | ingested known => exact ingestAs_onward _ _ _ _ _

def Settled (server : String) (result : TerminationResult) (db : Fleet) : Prop :=
  ∀ row ∈ db.sessionTerminations, row.id = result.id → row.serverId = server → row.status ≠ .pending

/-- The server has been through this batch: its events are stored and its reports settled. -/
structure Processed (server : String) (b : Batch) (db : Fleet) : Prop where
  events : ∀ e ∈ b.events, Stored server db e.id
  reports : ∀ result ∈ b.terminationResults, Settled server result db

def SessionRow.unmarked (se : SessionRow) : SessionRow := { se with live := false }

theorem reportTermination_settles (db : Fleet) (result : TerminationResult) :
    Settled server result (reportTermination server now db result) := by
  intro row member named own
  have rows : (reportTermination server now db result).sessionTerminations =
      Rows.update (fun row => row.id == result.id && row.serverId == server && row.status == .pending)
        (fun row => { row with status := if result.error == [] then .succeeded else .failed, error := result.error })
        db.sessionTerminations := by
    simp only [reportTermination]
    split <;> rfl
  rw [rows] at member
  obtain ⟨old, -, ⟨-, rfl⟩ | ⟨other, rfl⟩⟩ := Rows.mem_update.mp member
  · simp only
    split
    all_goals
      intro pending
      cases pending
  · simpa [named, own] using other

theorem reportTerminations_settle {results : List TerminationResult} {result : TerminationResult} (listed : result ∈ results)
    (db : Fleet) : Settled server result (results.foldl (reportTermination server now) db) := by
  induction results generalizing db with
  | nil => cases listed
  | cons first rest ih =>
    rcases List.mem_cons.mp listed with rfl | later
    · intro row member named own pending
      obtain ⟨settle, rows, reported⟩ := reportTerminations_rows server now rest (reportTermination server now db result)
      rw [List.foldl_cons, rows] at member
      obtain ⟨old, there, rfl⟩ := List.mem_map.mp member
      rw [(reported old).of_pending pending] at named own pending
      exact reportTermination_settles db result old there named own pending
    · exact ih later _

theorem ingestAs_processed (server : String) (db : Fleet) (b : Batch) (now : Int) (fresh : String) :
    Processed server b (ingestAs server db b now fresh).2 := by
  refine ⟨?_, ?_⟩
  · intro e listed
    obtain ⟨start, -, events⟩ := ingestAs_events server db b now fresh
    obtain ⟨row, member, found⟩ := @storeEvents_stored server now _ _ listed start
    exact ⟨row, events ▸ member, found⟩
  · intro result listed row member
    rw [ingestAs_terminations, ingestTerminations_snd] at member
    exact reportTerminations_settle listed _ row member

/-- A report about a request that is not pending is ignored. -/
theorem Settled.ignored {result : TerminationResult} (settled : Settled server result db) :
    reportTermination server now db result = db := by
  have unselected : ∀ row ∈ db.sessionTerminations,
      (row.id == result.id && row.serverId == server && row.status == .pending) = false := by
    intro row member
    simp only [Bool.and_eq_false_imp, Bool.and_eq_true, beq_iff_eq, beq_eq_false_iff_ne]
    exact fun same => settled row member same.1 same.2
  have unreported : reportedSession db server result.id = none := by
    simp only [reportedSession, Option.map_eq_none_iff, List.find?_eq_none]
    exact fun row member chosen => by simp [unselected row member] at chosen
  have sessions : endReported db server result.id now = db := by
    simp only [endReported, unreported]
    rw [Rows.update_eq_self fun se _ => by simp]
  simp only [reportTermination, sessions, ite_self, Rows.update_eq_self unselected]

theorem Stored.ignored {e : Event} (stored : Stored server db e.id) : storeEvent server now db e = db := by
  obtain ⟨row, member, own, same⟩ := stored
  exact if_pos (Rows.has_iff.mpr ⟨row, member, Prod.ext own same⟩)

theorem foldl_ignored {σ α : Type} {statement : σ → α → σ} {items : List α} {state : σ}
    (ignored : ∀ item ∈ items, statement state item = state) : items.foldl statement state = state := by
  induction items with
  | nil => rfl
  | cons item rest ih =>
    rw [List.foldl_cons, ignored item List.mem_cons_self]
    exact ih fun other member => ignored other (List.mem_cons_of_mem _ member)

theorem markLive_unmarked (server : String) (active : List Bytes) (sessions : List SessionRow) :
    (markLive server active sessions).map SessionRow.unmarked = sessions.map SessionRow.unmarked := by
  have marked : ∀ (selected : SessionRow → Bool) (live : Bool) (rows : List SessionRow),
      (Rows.update selected (fun se => { se with live }) rows).map SessionRow.unmarked = rows.map SessionRow.unmarked := by
    intro selected live rows
    rw [Rows.update, List.map_map]
    refine List.map_congr_left fun se _ => ?_
    simp only [Function.comp_apply]
    split <;> rfl
  unfold markLive
  rw [← marked (fun se => se.serverId == server) false sessions]
  generalize Rows.update (fun se => se.serverId == server) (fun se => { se with live := false }) sessions = rows
  induction active generalizing rows with
  | nil => rfl
  | cons id rest ih => exact (ih _).trans (marked _ true rows)

/-- What a batch that is processed again leaves as it is. -/
structure Retained (db after : Fleet) : Prop where
  events : after.events = db.events
  terminations : after.sessionTerminations = db.sessionTerminations
  sessions : after.sessions.map SessionRow.unmarked = db.sessions.map SessionRow.unmarked

theorem Processed.replay (processed : Processed server b db) (now : Int) (fresh : String) :
    Retained db (ingestAs server db b now fresh).2 := by
  have reports : (ingestTerminations db server b now).2 = { db with
      serverControl := Rows.upsert ControlRow.serverId ⟨server, b.canTerminate⟩
        (fun row => { row with enabled := b.canTerminate }) db.serverControl } := by
    rw [ingestTerminations_snd]
    exact foldl_ignored fun result listed => Settled.ignored (processed.reports result listed)
  obtain ⟨sessions, terminations, events, -⟩ := ingestFirewall_frame server now (ingestTerminations db server b now).2 fresh b
  have stored : b.events.foldl (storeEvent server now) (ingestFirewall (ingestTerminations db server b now).2 server fresh b
      now).2 = (ingestFirewall (ingestTerminations db server b now).2 server fresh b now).2 := by
    refine foldl_ignored fun e listed => Stored.ignored ?_
    obtain ⟨row, member, found⟩ := processed.events e listed
    exact ⟨row, by rw [events, reports]; exact member, found⟩
  simp only [ingestAs, heartbeat, stored]
  refine ⟨?_, ?_, ?_⟩
  · rw [events, reports]
  · rw [terminations, reports]
  · rw [markLive_unmarked, sessions, reports]

def Unreported (b : Batch) (request : Request) : Prop :=
  ∀ cookieHash server session id, request = .terminateSession cookieHash server session id →
    ∀ result ∈ b.terminationResults, result.id ≠ id

theorem Processed.step {hash : String → String} {db : Db} {request : Request} {after : Fleet}
    (processed : Processed server b db.toFleet) (effect : ServeEffect hash db now request after)
    (unreported : Unreported b request) : Processed server b after := by
  refine ⟨?_, ?_⟩
  · intro e listed
    obtain ⟨row, member, found⟩ := processed.events e listed
    exact ⟨row, effect.events.1 row member, found⟩
  · intro result listed
    have settled := processed.reports result listed
    cases effect with
    | quiet => exact settled
    | changed _ done =>
      intro row member
      exact settled row (done.frame.2.1 ▸ member)
    | created => exact settled
    | renamed => exact settled
    | rotated done =>
      intro row member
      exact settled row (done.frame.2.1 ▸ member)
    | requested done =>
      obtain ⟨username, rfl⟩ := done.stored
      intro row member named
      rcases List.mem_append.mp member with old | new
      · exact settled row old named
      · obtain rfl := List.mem_singleton.mp new
        exact absurd named.symm (unreported _ _ _ _ rfl result listed)
    | ingested known =>
      intro row member named own pending
      obtain ⟨settle, rows, reported⟩ := ingestAs_rows _ db.toFleet _ now _
      obtain ⟨old, there, rfl⟩ := List.mem_map.mp (rows ▸ member)
      rw [(reported old).of_pending pending] at named own pending
      exact settled old there named own pending

def Processes (hash : String → String) (server : String) (b : Batch) (t : Transition ServerState Served)
    (answer : Except Problem IngestResponse) : Prop :=
  ∃ token fresh, t.action.request = .ingest token b fresh ∧ authenticate t.before.db.toFleet (hash token) = some server ∧
    (ingest hash t.before.db.toFleet token b t.action.now fresh t.action.stored).1 = answer

/-- The random ids of termination requests are new: no batch before has named them. -/
def DrawnAnew (history : List (Transition ServerState Served)) : Prop :=
  history.Pairwise fun newer older =>
    ∀ token b fresh, older.action.request = .ingest token b fresh → Unreported b newer.action.request

structure ReplaySafe (hash : String → String) (history : List (Transition ServerState Served)) (s : ServerState) : Prop where
  stopped : ∀ se ∈ s.db.sessions, se.ended.isSome = true → se.live = false
  unique : Rows.Unique SessionRow.key s.db.sessions
  onward : ∀ later t older, history = later ++ t :: older → Rows.Evolves Onward t.before.db.sessions s.db.sessions
  replay : ∀ later t middle first older, history = later ++ t :: (middle ++ first :: older) → ∀ server b,
    ∀ response answer, Processes hash server b first (.ok response) → Processes hash server b t answer →
    Retained t.before.db.toFleet t.after.db.toFleet

variable {hash : String → String} {history : List (Transition ServerState Served)} {s : ServerState}

theorem batch_processed {t : Transition ServerState Served} {later older} {response : IngestResponse}
    (run : Run (serverSystem hash) (later ++ t :: older) s) (processes : Processes hash server b t (.ok response))
    (unreported : ∀ newer ∈ later, Unreported b newer.action.request) : Processed server b.redacted s.db.toFleet := by
  refine run.persists_while (fun s => Processed server b.redacted s.db.toFleet) (fun t => Unreported b t.action.request) ?_
    unreported fun _ _ _ _ _ processed unreported moved => processed.step (serverSystem_effect moved) unreported
  obtain ⟨token, fresh, asked, known, answered⟩ := processes
  obtain ⟨-, -, after⟩ := run.at_transition.2
  rcases ingest_cases hash t.before.db.toFleet token b t.action.now fresh t.action.stored with
    ⟨problem, refused⟩ | ⟨server', known', served⟩
  · rw [refused] at answered
    cases answered
  · obtain rfl : server' = server := Option.some.inj (known'.symm.trans known)
    rw [after, asked]
    simp only [Db.serve, served]
    exact ingestAs_processed _ _ _ _ _

theorem ingest_replay_safe (run : Run (serverSystem hash) history s) (drawn : DrawnAnew history) :
    ReplaySafe hash history s := by
  have valid := requests_valid run
  refine ⟨valid.sessions.stopped, valid.sessions.unique, ?_, ?_⟩
  · rintro later t older rfl
    have first := (serverSystem_effect run.at_transition.2).onward
    exact run.persists (fun s => Rows.Evolves Onward t.before.db.sessions s.db.sessions) first
      fun _ _ _ _ _ onward moved => onward.trans (serverSystem_effect moved).onward
  · rintro later t middle first older rfl server b response answer processes ⟨token, fresh, asked, known, -⟩
    obtain ⟨before, -, -, after⟩ := run.at_transition
    have unreported : ∀ newer ∈ middle, Unreported b newer.action.request := by
      obtain ⟨token, fresh, sent, -⟩ := processes
      have recent := (List.pairwise_cons.mp (List.pairwise_append.mp drawn).2.1).2
      intro newer member
      exact (List.pairwise_append.mp recent).2.2 newer member first List.mem_cons_self token b fresh sent
    have processed := batch_processed before processes unreported
    rw [after, asked]
    simp only [Db.serve]
    rcases ingest_cases hash t.before.db.toFleet token b t.action.now fresh t.action.stored with
      ⟨problem, refused⟩ | ⟨server', known', served⟩
    · rw [refused]
      exact ⟨rfl, rfl, rfl⟩
    · obtain rfl : server' = server := Option.some.inj (known'.symm.trans known)
      rw [served]
      exact processed.replay _ _

/-- The first batch of the agent arrives again after the login it started has ended. -/
def requestReplayed : ServerState := requestDone.serve id (.ingest "t1" (sessionBatch []) "p3") 5000

theorem ingest_replay_safe_late : Retained requestDone.db.toFleet requestReplayed.db.toFleet ∧
    requestReplayed.db.sessions.map SessionRow.ended = [some 4000] := by
  have run : Run (serverSystem id) (⟨requestDone, ⟨.ingest "t1" (sessionBatch []) "p3", 5000, true, 5000⟩, requestReplayed⟩ ::
      requestHistory) requestReplayed :=
    .next (.next (.next (.next (.next (.start rfl) (serve_step (by decide))) (serve_step (by decide)))
      (serve_step (by decide))) (serve_step (by decide))) (serve_step (by decide))
  have safe := ingest_replay_safe run (by simp [DrawnAnew, requestHistory, Unreported, sessionBatch])
  refine ⟨?_, by decide +kernel⟩
  have replayed := safe.replay [] _ [_, _] _ [_] rfl "s1" (sessionBatch [])
  exact replayed _ _ ⟨"t1", "p1", rfl, by decide +kernel, rfl⟩ ⟨"t1", "p3", rfl, by decide +kernel, rfl⟩

end SshLogger
