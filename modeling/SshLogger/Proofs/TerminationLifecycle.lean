import SshLogger.Proofs.Serving

/-! The life of a termination request and of the session it names. Every
statement of a transaction either maps the request rows, each to itself or to
its settled form, or advances the session rows, none of which leaves the ended
state. -/

namespace SshLogger
open Library Library.History

def Reported (server : String) (results : List TerminationResult) (before after : TerminationRow) : Prop :=
  after = before ∨ before.status = .pending ∧ before.serverId = server ∧ ∃ result ∈ results, result.id = before.id ∧
    after = { before with status := if result.error == [] then .succeeded else .failed, error := result.error }

theorem Reported.id_eq {server : String} {results : List TerminationResult} {before after : TerminationRow}
    (reported : Reported server results before after) : after.id = before.id := by
  rcases reported with rfl | ⟨-, -, _, -, -, rfl⟩ <;> rfl

theorem Reported.of_pending {server : String} {results : List TerminationResult} {before after : TerminationRow}
    (reported : Reported server results before after) (pending : after.status = .pending) : after = before := by
  rcases reported with same | ⟨-, -, result, -, -, rfl⟩
  · exact same
  · simp only at pending
    split at pending <;> cases pending

theorem Reported.trans {server : String} {first : TerminationResult} {rest : List TerminationResult}
    {before middle after : TerminationRow} (one : Reported server [first] before middle)
    (more : Reported server rest middle after) : Reported server (first :: rest) before after := by
  rcases one with rfl | ⟨pending, own, result, member, id, rfl⟩
  · rcases more with rfl | ⟨pending, own, result, member, id, rfl⟩
    · exact Or.inl rfl
    · exact Or.inr ⟨pending, own, result, by simp [member], id, rfl⟩
  · rcases more with rfl | ⟨still, -⟩
    · exact Or.inr ⟨pending, own, result, by simp_all, id, rfl⟩
    · simp only at still
      split at still <;> cases still

/-- One report settles the request it names, if that is still pending. -/
theorem reportTermination_rows (server : String) (now : Int) (db : Fleet) (result : TerminationResult) :
    ∃ settle, (reportTermination server now db result).sessionTerminations = db.sessionTerminations.map settle ∧
      ∀ row, Reported server [result] row (settle row) := by
  refine ⟨fun row => if row.id == result.id && row.serverId == server && row.status == .pending then
    { row with status := if result.error == [] then .succeeded else .failed, error := result.error } else row, ?_, ?_⟩
  · simp only [reportTermination]
    split <;> rfl
  · intro row
    dsimp only
    split
    next chosen =>
      simp only [Bool.and_eq_true, beq_iff_eq] at chosen
      exact Or.inr ⟨chosen.2, chosen.1.2, result, by simp, chosen.1.1.symm, rfl⟩
    · exact Or.inl rfl

theorem reportTerminations_rows (server : String) (now : Int) (results : List TerminationResult) (db : Fleet) :
    ∃ settle, (results.foldl (reportTermination server now) db).sessionTerminations = db.sessionTerminations.map settle ∧
      ∀ row, Reported server results row (settle row) := by
  induction results generalizing db with
  | nil => exact ⟨id, by simp, fun row => Or.inl rfl⟩
  | cons result rest ih =>
    obtain ⟨first, one, single⟩ := reportTermination_rows server now db result
    obtain ⟨second, more, others⟩ := ih (reportTermination server now db result)
    refine ⟨second ∘ first, ?_, fun row => (single row).trans (others (first row))⟩
    rw [List.foldl_cons, more, one, List.map_map]

/-- Session rows keep their keys and stay ended; one that ends has a cause. -/
structure Advances (cause : String × Bytes → Prop) (before after : List SessionRow) : Prop where
  kept : ∀ se ∈ before, ∃ se' ∈ after, se'.key = se.key
  origin : ∀ se' ∈ after, (∃ se ∈ before, se.key = se'.key ∧ (se.ended.isSome = true → se'.ended.isSome = true) ∧
    (se'.ended.isSome = true → se.ended.isSome = true ∨ cause se'.key)) ∨ ∀ se ∈ before, se.key ≠ se'.key

structure SessionsValid (sessions : List SessionRow) : Prop where
  unique : Rows.Unique SessionRow.key sessions
  stopped : ∀ se ∈ sessions, se.ended.isSome = true → se.live = false

variable {cause cause' : String × Bytes → Prop} {before middle after : List SessionRow}

theorem Advances.refl (rows : List SessionRow) : Advances cause rows rows where
  kept se member := ⟨se, member, rfl⟩
  origin se member := Or.inl ⟨se, member, rfl, id, Or.inl⟩

theorem Advances.mono (advances : Advances cause before after) (weaker : ∀ key, cause key → cause' key) :
    Advances cause' before after where
  kept := advances.kept
  origin se' member := (advances.origin se' member).imp
    (fun ⟨se, there, same, stays, ends⟩ => ⟨se, there, same, stays, fun ended => (ends ended).imp id (weaker _)⟩) id

theorem Advances.trans (first : Advances cause before middle) (second : Advances cause middle after) :
    Advances cause before after where
  kept se member := by
    obtain ⟨se', there, same⟩ := first.kept se member
    obtain ⟨se'', last, again⟩ := second.kept se' there
    exact ⟨se'', last, again.trans same⟩
  origin se'' member := by
    rcases second.origin se'' member with ⟨se', there, same, stays, ends⟩ | absent
    · rcases first.origin se' there with ⟨se, origin, key, remains, causes⟩ | absent
      · refine Or.inl ⟨se, origin, key.trans same, fun ended => stays (remains ended), fun ended => ?_⟩
        rcases ends ended with earlier | caused
        · exact (causes earlier).imp id (same ▸ ·)
        · exact Or.inr caused
      · exact Or.inr fun se origin equal => absent se origin (equal.trans same.symm)
    · refine Or.inr fun se origin equal => ?_
      obtain ⟨se', there, same⟩ := first.kept se origin
      exact absent se' there (same.trans equal)

/-- A change of selected rows that keeps their keys. -/
theorem Advances.update {selected : SessionRow → Bool} {change : SessionRow → SessionRow}
    (key : ∀ se, (change se).key = se.key) (stays : ∀ se, se.ended.isSome = true → (change se).ended.isSome = true)
    (ends : ∀ se ∈ before, selected se = true → (change se).ended.isSome = true → se.ended.isSome = true ∨ cause se.key) :
    Advances cause before (Rows.update selected change before) where
  kept se member := by
    cases chosen : selected se with
    | true => exact ⟨_, Rows.mem_update_of member chosen, key se⟩
    | false => exact ⟨_, Rows.mem_update_of_not member chosen, rfl⟩
  origin se' member := by
    obtain ⟨se, there, ⟨chosen, rfl⟩ | ⟨-, rfl⟩⟩ := Rows.mem_update.mp member
    · exact Or.inl ⟨se, there, (key se).symm, stays se, fun ended => (key se).symm ▸ ends se there chosen ended⟩
    · exact Or.inl ⟨se, there, rfl, id, Or.inl⟩

theorem Advances.upsert {row : SessionRow} {merge : SessionRow → SessionRow}
    (key : ∀ se, (merge se).key = se.key) (stays : ∀ se, se.ended.isSome = true → (merge se).ended.isSome = true)
    (ends : ∀ se, (merge se).ended.isSome = true → se.ended.isSome = true ∨ cause row.key) :
    Advances cause before (Rows.upsert SessionRow.key row merge before) := by
  unfold Rows.upsert
  split
  · refine .update key stays fun se _ chosen ended => ?_
    exact (ends se ended).imp id ((by simpa using chosen : se.key = row.key) ▸ ·)
  next absent =>
    have fresh := Rows.has_false_iff.mp (by simpa using absent)
    refine ⟨fun se member => ⟨se, by simp [member], rfl⟩, fun se' member => ?_⟩
    rcases List.mem_append.mp member with there | added
    · exact Or.inl ⟨se', there, rfl, id, Or.inl⟩
    · exact Or.inr (List.mem_singleton.mp added ▸ fresh)

theorem SessionsValid.update (valid : SessionsValid before) {selected : SessionRow → Bool}
    {change : SessionRow → SessionRow} (key : ∀ se, (change se).key = se.key)
    (stopped : ∀ se, selected se = true → (se.ended.isSome = true → se.live = false) →
      (change se).ended.isSome = true → (change se).live = false) :
    SessionsValid (Rows.update selected change before) where
  unique := valid.unique.update key
  stopped se' member ended := by
    obtain ⟨se, there, ⟨chosen, rfl⟩ | ⟨-, rfl⟩⟩ := Rows.mem_update.mp member
    · exact stopped se chosen (valid.stopped se there) ended
    · exact valid.stopped se there ended

theorem SessionsValid.upsert (valid : SessionsValid before) {row : SessionRow} {merge : SessionRow → SessionRow}
    (key : ∀ se, (merge se).key = se.key) (added : row.live = false)
    (stopped : ∀ se, (se.ended.isSome = true → se.live = false) → (merge se).ended.isSome = true → (merge se).live = false) :
    SessionsValid (Rows.upsert SessionRow.key row merge before) where
  unique := valid.unique.upsert row key
  stopped se' member ended := by
    rcases Rows.mem_upsert member with ⟨there, -⟩ | ⟨-, rfl⟩ | ⟨se, there, -, rfl⟩
    · exact valid.stopped se' there ended
    · exact added
    · exact stopped se (valid.stopped se there) ended

def SucceededPending (db : Fleet) (server : String) (results : List TerminationResult) (key : String × Bytes) : Prop :=
  ∃ result ∈ results, result.error = [] ∧ ∃ row ∈ db.sessionTerminations,
    row.id = result.id ∧ row.serverId = server ∧ row.status = .pending ∧ (server, row.sessionId) = key

theorem reportTermination_sessions (server : String) (now : Int) (db : Fleet) (result : TerminationResult)
    (valid : SessionsValid db.sessions) :
    Advances (SucceededPending db server [result]) db.sessions (reportTermination server now db result).sessions ∧
      SessionsValid (reportTermination server now db result).sessions := by
  cases success : result.error == [] with
  | false =>
    have same : (reportTermination server now db result).sessions = db.sessions := by simp [reportTermination, success]
    rw [same]
    exact ⟨.refl _, valid⟩
  | true =>
    have same : (reportTermination server now db result).sessions = (endReported db server result.id now).sessions := by
      simp [reportTermination, success]
    rw [same]
    refine ⟨.update (fun _ => rfl) (fun _ _ => rfl) ?_, valid.update (fun _ => rfl) fun _ _ _ _ => rfl⟩
    intro se there chosen _
    simp only [Bool.and_eq_true, beq_iff_eq] at chosen
    obtain ⟨row, found, named⟩ := Option.map_eq_some_iff.mp chosen.2
    have matched := List.find?_some found
    simp only [Bool.and_eq_true, beq_iff_eq] at matched
    refine Or.inr ⟨result, by simp, by simpa using success, row, List.mem_of_find?_eq_some found, matched.1.1, matched.1.2,
      matched.2, ?_⟩
    rw [named, ← chosen.1]
    rfl

theorem reportTerminations_sessions (server : String) (now : Int) (results : List TerminationResult) (db : Fleet)
    (valid : SessionsValid db.sessions) :
    Advances (SucceededPending db server results) db.sessions (results.foldl (reportTermination server now) db).sessions ∧
      SessionsValid (results.foldl (reportTermination server now) db).sessions := by
  induction results generalizing db with
  | nil => exact ⟨.refl _, valid⟩
  | cons result rest ih =>
    obtain ⟨one, ok⟩ := reportTermination_sessions server now db result valid
    obtain ⟨more, fine⟩ := ih (reportTermination server now db result) ok
    refine ⟨(one.mono ?_).trans (more.mono ?_), fine⟩
    · rintro key ⟨other, member, found⟩
      exact ⟨other, by simp_all, found⟩
    · -- a request pending after the first report was pending before it
      rintro key ⟨other, member, success, row, there, id, own, pending, same⟩
      obtain ⟨settle, rows, reported⟩ := reportTermination_rows server now db result
      obtain ⟨earlier, origin, rfl⟩ := List.mem_map.mp (rows ▸ there)
      have equal := (reported earlier).of_pending pending
      rw [equal] at id own pending same
      exact ⟨other, by simp [member], success, earlier, origin, id, own, pending, same⟩

def EndEvent (server : String) (events : List Event) (key : String × Bytes) : Prop :=
  ∃ e ∈ events, e.kind = .sessionEnd ∧ (server, e.sessionId) = key

theorem trackSession_sessions (server : String) (e : Event) {sessions : List SessionRow} (valid : SessionsValid sessions) :
    Advances (EndEvent server [e]) sessions (trackSession server e sessions) ∧
      SessionsValid (trackSession server e sessions) := by
  unfold trackSession
  split
  · exact ⟨.refl _, valid⟩
  · split
    · exact ⟨.upsert (fun _ => rfl) (fun _ ended => ended) fun _ ended => Or.inl ended,
        valid.upsert (fun _ => rfl) rfl fun _ stopped ended => stopped ended⟩
    next kind =>
      exact ⟨.upsert (fun _ => rfl) (fun _ _ => rfl) fun _ _ => Or.inr ⟨e, by simp, kind, rfl⟩,
        valid.upsert (fun _ => rfl) rfl fun _ _ _ => rfl⟩
    · exact ⟨.refl _, valid⟩

theorem storeEvents_sessions (server : String) (now : Int) (events : List Event) (db : Fleet)
    (valid : SessionsValid db.sessions) :
    Advances (EndEvent server events) db.sessions (events.foldl (storeEvent server now) db).sessions ∧
      SessionsValid (events.foldl (storeEvent server now) db).sessions := by
  induction events generalizing db with
  | nil => exact ⟨.refl _, valid⟩
  | cons e rest ih =>
    have one : Advances (EndEvent server [e]) db.sessions (storeEvent server now db e).sessions ∧
        SessionsValid (storeEvent server now db e).sessions := by
      simp only [storeEvent]
      split
      · exact ⟨.refl _, valid⟩
      · exact trackSession_sessions server e valid
    obtain ⟨more, fine⟩ := ih (storeEvent server now db e) one.2
    refine ⟨(one.1.mono ?_).trans (more.mono ?_), fine⟩
    · rintro key ⟨other, member, found⟩
      exact ⟨other, by simp_all, found⟩
    · rintro key ⟨other, member, found⟩
      exact ⟨other, by simp [member], found⟩

theorem markLive_sessions (server : String) (active : List Bytes) {sessions : List SessionRow}
    (valid : SessionsValid sessions) :
    Advances (fun _ => False) sessions (markLive server active sessions) ∧
      SessionsValid (markLive server active sessions) := by
  have cleared : Advances (fun _ => False) sessions
      (Rows.update (fun se => se.serverId == server) (fun se => { se with live := false }) sessions) :=
    .update (fun _ => rfl) (fun _ ended => ended) fun _ _ _ ended => Or.inl ended
  have stopped : SessionsValid
      (Rows.update (fun se => se.serverId == server) (fun se => { se with live := false }) sessions) :=
    valid.update (fun _ => rfl) fun _ _ _ _ => rfl
  unfold markLive
  generalize Rows.update (fun se => se.serverId == server) (fun se => { se with live := false }) sessions = rows at cleared stopped ⊢
  induction active generalizing rows with
  | nil => exact ⟨cleared, stopped⟩
  | cons id rest ih =>
    refine ih _ (cleared.trans (.update (fun _ => rfl) (fun _ ended => ended) fun _ _ _ ended => Or.inl ended))
      (stopped.update (fun _ => rfl) ?_)
    intro se chosen _ ended
    simp only [Bool.and_eq_true, Option.isNone_iff_eq_none] at chosen
    simp [chosen.2] at ended

section Ingest
variable (server : String) (db : Fleet) (b : Batch) (now : Int) (fresh : String)

theorem ingestAs_terminations : (ingestAs server db b now fresh).2.sessionTerminations =
    (ingestTerminations db server b now).2.sessionTerminations := by
  simp only [ingestAs, heartbeat]
  rw [(storeEvents_frame server now _ b.events).1, (ingestFirewall_frame server now _ fresh b).2.1]

theorem ingestAs_rows : ∃ settle, (ingestAs server db b now fresh).2.sessionTerminations = db.sessionTerminations.map settle ∧
    ∀ row, Reported server b.terminationResults row (settle row) := by
  rw [ingestAs_terminations, ingestTerminations_snd]
  exact reportTerminations_rows server now b.terminationResults _

/-- A command is a pending, unexpired request of this server, for an agent that can act on it. -/
theorem ingestAs_commands {c : Termination} (sent : c ∈ (ingestAs server db b now fresh).1.terminations) :
    b.canTerminate = true ∧ ∃ row ∈ (ingestAs server db b now fresh).2.sessionTerminations,
      isPending server now row = true ∧ c = ⟨row.id, row.sessionId, row.expires⟩ := by
  have answered : (ingestAs server db b now fresh).1.terminations = (ingestTerminations db server b now).1 := rfl
  rw [answered] at sent
  rw [ingestAs_terminations]
  simp only [ingestTerminations] at sent ⊢
  split at sent
  · cases sent
  next able =>
    rw [if_neg able]
    obtain ⟨row, member, rfl⟩ := List.mem_map.mp sent
    have found := List.mem_filter.mp (Select.mem_orderBy.mp (List.mem_of_mem_take member))
    exact ⟨by simpa using able, row, found.1, found.2, rfl⟩

def EndCause (key : String × Bytes) : Prop :=
  EndEvent server b.events key ∨ SucceededPending db server b.terminationResults key

theorem ingestAs_sessions (valid : SessionsValid db.sessions) :
    Advances (EndCause server db b) db.sessions (ingestAs server db b now fresh).2.sessions ∧
      SessionsValid (ingestAs server db b now fresh).2.sessions := by
  simp only [ingestAs, heartbeat]
  have reports := reportTerminations_sessions server now b.terminationResults { db with
    serverControl := Rows.upsert ControlRow.serverId ⟨server, b.canTerminate⟩
      (fun row => { row with enabled := b.canTerminate }) db.serverControl } valid
  rw [← ingestTerminations_snd] at reports
  generalize (ingestTerminations db server b now).2 = reported at reports ⊢
  have firewall := (ingestFirewall_frame server now reported fresh b).1
  generalize (ingestFirewall reported server fresh b now).2 = checked at firewall ⊢
  have events := storeEvents_sessions server now b.events checked (firewall ▸ reports.2)
  rw [firewall] at events
  generalize b.events.foldl (storeEvent server now) checked = stored at events ⊢
  have live := markLive_sessions server b.activeSessions events.2
  refine ⟨?_, live.2⟩
  exact ((reports.1.mono fun key => Or.inr).trans (events.1.mono fun key => Or.inl)).trans
    (live.1.mono fun key => False.elim)

end Ingest

structure RequestsValid (db : Fleet) (time : Int) : Prop where
  sessions : SessionsValid db.sessions
  unique : Rows.Unique TerminationRow.id db.sessionTerminations
  one_pending : ∀ first ∈ db.sessionTerminations, ∀ second ∈ db.sessionTerminations,
    first.serverId = second.serverId → first.sessionId = second.sessionId →
    first.status = .pending → second.status = .pending → time < first.expires → time < second.expires → first = second

theorem RequestsValid.quiet {db after : Fleet} {time later : Int} (valid : RequestsValid db time) (forward : time ≤ later)
    (sessions : after.sessions = db.sessions) (rows : after.sessionTerminations = db.sessionTerminations) :
    RequestsValid after later where
  sessions := sessions ▸ valid.sessions
  unique := rows ▸ valid.unique
  one_pending := by
    rw [rows]
    intro first one second two own same pending also unexpired still
    exact valid.one_pending first one second two own same pending also (by omega) (by omega)

theorem RequestsValid.step {hash : String → String} {db : Db} {now time later : Int} {request : Request} {after : Fleet}
    (valid : RequestsValid db.toFleet time) (forward : time ≤ later) (behind : now ≤ later)
    (effect : ServeEffect hash db now request after) : RequestsValid after later := by
  cases effect with
  | quiet => exact valid.quiet forward rfl rfl
  | changed _ done => exact valid.quiet forward done.frame.1 done.frame.2.1
  | created => exact valid.quiet forward rfl rfl
  | renamed => exact valid.quiet forward rfl rfl
  | rotated done => exact valid.quiet forward done.frame.1 done.frame.2.1
  | @requested cookieHash server session id _ done =>
    obtain ⟨username, appended⟩ := done.stored
    subst appended
    refine ⟨valid.sessions, ?_, ?_⟩
    · exact valid.unique.append fun row member same => done.fresh row member same
    · -- an older request of the session still pending would have been found
      have expired : ∀ row ∈ db.sessionTerminations, row.serverId = server → row.sessionId = session →
          row.status = .pending → ¬later < row.expires := by
        intro row member own same pending unexpired
        exact done.none_pending row member (by simp [isPending, own, pending]; omega) same
      intro first one second two own same pending also unexpired still
      rcases List.mem_append.mp one with old | new <;> rcases List.mem_append.mp two with old' | new'
      · exact valid.one_pending first old second old' own same pending also (by omega) (by omega)
      · obtain rfl := List.mem_singleton.mp new'
        exact absurd unexpired (expired first old own same pending)
      · obtain rfl := List.mem_singleton.mp new
        exact absurd still (expired second old' own.symm same.symm also)
      · rw [List.mem_singleton.mp new, List.mem_singleton.mp new']
  | @ingested token b fresh server known =>
    obtain ⟨settle, rows, reported⟩ := ingestAs_rows server db.toFleet b.redacted now fresh
    refine ⟨(ingestAs_sessions server db.toFleet b.redacted now fresh valid.sessions).2, ?_, ?_⟩
    · simp only [rows, Rows.Unique, List.map_map]
      exact (List.map_congr_left fun row _ => (reported row).id_eq) ▸ valid.unique
    · simp only [rows]
      intro first one second two own same pending also unexpired still
      obtain ⟨row, member, rfl⟩ := List.mem_map.mp one
      obtain ⟨other, there, rfl⟩ := List.mem_map.mp two
      rw [(reported row).of_pending pending, (reported other).of_pending also] at *
      exact valid.one_pending row member other there own same pending also (by omega) (by omega)

def Settles (hash : String → String) (db : Db) (request : Request) (row : TerminationRow) (after : Fleet) : Prop :=
  row.status = .pending ∧ ∃ token b fresh, request = .ingest token b fresh ∧
    authenticate db.toFleet (hash token) = some row.serverId ∧ ∃ result ∈ b.terminationResults, result.id = row.id ∧
      ∃ status, (status = .succeeded ∨ status = .failed) ∧
        { row with status, error := result.error } ∈ after.sessionTerminations

theorem ServeEffect.settles {hash : String → String} {db : Db} {now : Int} {request : Request} {after : Fleet}
    (effect : ServeEffect hash db now request after) {row : TerminationRow} (member : row ∈ db.sessionTerminations) :
    row ∈ after.sessionTerminations ∨ Settles hash db request row after := by
  cases effect with
  | quiet => exact Or.inl member
  | changed _ done => exact Or.inl (done.frame.2.1 ▸ member)
  | created => exact Or.inl member
  | renamed => exact Or.inl member
  | rotated done => exact Or.inl (done.frame.2.1 ▸ member)
  | requested done =>
    obtain ⟨username, rfl⟩ := done.stored
    exact Or.inl (List.mem_append_left _ member)
  | @ingested token b fresh server known =>
    obtain ⟨settle, rows, reported⟩ := ingestAs_rows server db.toFleet b.redacted now fresh
    have there := rows ▸ List.mem_map_of_mem (f := settle) member
    rcases reported row with same | ⟨pending, own, result, listed, id, same⟩
    · exact Or.inl (same ▸ there)
    · refine Or.inr ⟨pending, token, b, fresh, rfl, own ▸ known, result, listed, id, _, ?_, same ▸ there⟩
      split <;> simp

/-- An ingest of the session's own server carried the end of the session or the
success of a request still pending for it. -/
def Ends (hash : String → String) (db : Db) (request : Request) (key : String × Bytes) : Prop :=
  ∃ token b fresh, request = .ingest token b fresh ∧ authenticate db.toFleet (hash token) = some key.1 ∧
    (EndEvent key.1 b.events key ∨ SucceededPending db.toFleet key.1 b.terminationResults key)

theorem ServeEffect.advances {hash : String → String} {db : Db} {now : Int} {request : Request} {after : Fleet}
    (effect : ServeEffect hash db now request after) (valid : SessionsValid db.sessions) :
    Advances (Ends hash db request) db.sessions after.sessions := by
  cases effect with
  | quiet => exact .refl _
  | changed _ done => exact done.frame.1 ▸ .refl _
  | created => exact .refl _
  | renamed => exact .refl _
  | rotated done => exact done.frame.1 ▸ .refl _
  | requested done =>
    obtain ⟨username, rfl⟩ := done.stored
    exact .refl _
  | @ingested token b fresh server known =>
    refine (ingestAs_sessions server db.toFleet b.redacted now fresh valid).1.mono ?_
    rintro key (⟨e, member, kind, rfl⟩ | success)
    · obtain ⟨sent, listed, rfl⟩ := List.mem_map.mp member
      exact ⟨token, b, fresh, rfl, known, Or.inl ⟨sent, listed, kind, rfl⟩⟩
    · have own : key.1 = server := by
        obtain ⟨_, -, -, _, -, -, -, -, rfl⟩ := success
        rfl
      subst own
      exact ⟨token, b, fresh, rfl, known, Or.inr success⟩

structure TerminationLifecycle (hash : String → String) (history : List (Transition ServerState Served))
    (s : ServerState) : Prop where
  /-- A row changes only from pending to settled, by a report from its own server. -/
  settles : ∀ t ∈ history, ∀ row ∈ t.before.db.sessionTerminations,
    row ∈ t.after.db.sessionTerminations ∨ Settles hash t.before.db t.action.request row t.after.db.toFleet
  /-- A settled row stays as it is, and it is the only row with its id. -/
  settled : ∀ later t older, history = later ++ t :: older → ∀ row ∈ t.after.db.sessionTerminations,
    row.status ≠ .pending → row ∈ s.db.sessionTerminations
  unique : Rows.Unique TerminationRow.id s.db.sessionTerminations
  /-- Commands go to the row's own server while the row is pending and unexpired. -/
  commands : ∀ t ∈ history, ∀ token b fresh, t.action.request = .ingest token b fresh → ∀ response,
    (ingest hash t.before.db.toFleet token b t.action.now fresh t.action.stored).1 = .ok response →
    ∀ c ∈ response.terminations, b.canTerminate = true ∧ ∃ row ∈ t.before.db.sessionTerminations,
      row ∈ t.after.db.sessionTerminations ∧ c = ⟨row.id, row.sessionId, row.expires⟩ ∧
      authenticate t.before.db.toFleet (hash token) = some row.serverId ∧ row.status = .pending ∧
      t.action.now < row.expires
  one_pending : ∀ time, s.time ≤ time → ∀ first ∈ s.db.sessionTerminations, ∀ second ∈ s.db.sessionTerminations,
    first.serverId = second.serverId → first.sessionId = second.sessionId →
    first.status = .pending → second.status = .pending → time < first.expires → time < second.expires → first = second
  /-- A session ends by its own end event or by the success of a pending request. -/
  ends : ∀ t ∈ history, ∀ se ∈ t.before.db.sessions, ∀ se' ∈ t.after.db.sessions, se.key = se'.key →
    se.ended = none → se'.ended.isSome = true → Ends hash t.before.db t.action.request se.key
  /-- An ended session stays ended and is never live again. -/
  stays_ended : ∀ later t older, history = later ++ t :: older → ∀ se ∈ t.after.db.sessions, se.ended.isSome = true →
    ∃ se' ∈ s.db.sessions, se'.key = se.key ∧ se'.ended.isSome = true ∧ se'.live = false ∧
      ∀ other ∈ s.db.sessions, other.key = se.key → other = se'

theorem serverSystem_effect {hash : String → String} {s after : ServerState} {act : Served}
    (moved : (serverSystem hash).step s act after) : ServeEffect hash s.db act.now act.request after.db.toFleet := by
  obtain ⟨-, -, rfl⟩ := moved
  exact serve_effect hash s.db act.now act.stored act.request

theorem requests_valid {hash : String → String} {history : List (Transition ServerState Served)} {s : ServerState}
    (run : Run (serverSystem hash) history s) : RequestsValid s.db.toFleet s.time := by
  refine run.invariant (fun s => RequestsValid s.db.toFleet s.time) ?_ ?_
  · intro s empty
    have sessions : s.db.sessions = [] := congrArg Fleet.sessions empty
    have rows : s.db.sessionTerminations = [] := congrArg Fleet.sessionTerminations empty
    exact ⟨⟨by simp [sessions], by simp [sessions]⟩, by simp [rows], by simp [rows]⟩
  · intro s act after valid moved
    have effect := serverSystem_effect moved
    obtain ⟨forward, behind, rfl⟩ := moved
    exact valid.step forward behind effect

theorem ended_persists {hash : String → String} {s after : ServerState} {act : Served} {key : String × Bytes}
    (valid : RequestsValid s.db.toFleet s.time) (moved : (serverSystem hash).step s act after)
    (ended : ∃ se ∈ s.db.sessions, se.key = key ∧ se.ended.isSome = true) :
    ∃ se ∈ after.db.sessions, se.key = key ∧ se.ended.isSome = true := by
  obtain ⟨se, member, rfl, closed⟩ := ended
  have advances := (serverSystem_effect moved).advances valid.sessions
  obtain ⟨se', there, same⟩ := advances.kept se member
  refine ⟨se', there, same, ?_⟩
  rcases advances.origin se' there with ⟨origin, from_before, key, stays, -⟩ | absent
  · obtain rfl := valid.sessions.unique.eq from_before member (key.trans same)
    exact stays closed
  · exact absurd same.symm (absent se member)

theorem termination_lifecycle {hash : String → String} {history : List (Transition ServerState Served)} {s : ServerState}
    (run : Run (serverSystem hash) history s) : TerminationLifecycle hash history s := by
  have valid := requests_valid run
  refine ⟨?_, ?_, valid.unique, ?_, ?_, ?_, ?_⟩
  · intro t member row there
    obtain ⟨_, _, moved⟩ := run.of_mem member
    exact (serverSystem_effect moved).settles there
  · rintro later t older rfl row there settled
    refine run.persists (fun s => row ∈ s.db.sessionTerminations) there fun _ _ _ _ _ kept moved => ?_
    exact ((serverSystem_effect moved).settles kept).resolve_right fun changed => settled changed.1
  · intro t member token b fresh asked response answered c sent
    obtain ⟨older, there, moved⟩ := run.of_mem member
    obtain ⟨-, -, after⟩ := moved
    rcases ingest_cases hash t.before.db.toFleet token b t.action.now fresh t.action.stored with
      ⟨problem, refused⟩ | ⟨server, known, served⟩
    · rw [refused] at answered
      cases answered
    · rw [served] at answered
      obtain rfl := Except.ok.inj answered
      have stored : t.after.db.toFleet = (ingestAs server t.before.db.toFleet b.redacted t.action.now fresh).2 := by
        rw [after, asked]
        simp only [Db.serve, served]
      obtain ⟨able, row, last, pending, same⟩ := ingestAs_commands _ _ _ _ _ sent
      simp only [isPending, Bool.and_eq_true, beq_iff_eq, decide_eq_true_eq] at pending
      obtain ⟨settle, rows, reported⟩ := ingestAs_rows server t.before.db.toFleet b.redacted t.action.now fresh
      obtain ⟨row', origin, rfl⟩ := List.mem_map.mp (rows ▸ last)
      have equal := (reported row').of_pending pending.1.2
      rw [equal] at last pending same
      refine ⟨able, row', origin, ?_, same, by rw [known, pending.1.1], pending.1.2, pending.2⟩
      rw [stored]
      exact last
  · intro time notBefore first one second two own same pending also unexpired still
    exact valid.one_pending first one second two own same pending also (by omega) (by omega)
  · intro t member se there se' last same open_before closed
    obtain ⟨older, before, moved⟩ := run.of_mem member
    have before_valid := requests_valid before
    rcases ((serverSystem_effect moved).advances before_valid.sessions).origin se' last with
      ⟨origin, from_before, key, -, ends⟩ | absent
    · obtain rfl := before_valid.sessions.unique.eq from_before there (key.trans same.symm)
      rcases ends closed with earlier | caused
      · simp [open_before] at earlier
      · exact same ▸ caused
    · exact absurd same (absent se there)
  · rintro later t older rfl se there closed
    obtain ⟨se', last, same, ended⟩ := run.persists
      (fun s => ∃ se' ∈ s.db.sessions, se'.key = se.key ∧ se'.ended.isSome = true) ⟨se, there, rfl, closed⟩
      fun _ _ _ _ before kept moved => ended_persists (requests_valid before) moved kept
    exact ⟨se', last, same, ended, valid.sessions.stopped se' last ended,
      fun other member equal => valid.sessions.unique.eq member last (equal.trans same.symm)⟩

/-- A login is ended on request: the agent reports the session, is sent the
command and reports its success. -/
def requestStart : ServerState := ⟨newStore, 0⟩

def sessionBatch (results : List TerminationResult) : Batch where
  canFirewall := false
  canAllowlist := false
  firewallResult := none
  canTerminate := true
  terminationResults := results
  events := [{ id := Bytes.utf8 "e1", time := 1, kind := .sessionStart, sessionId := Bytes.utf8 "b:3",
               user := Bytes.utf8 "alice", loginUid := [], effectiveUser := [], ip := [], program := [], args := [],
               outcome := [], pid := none, ppid := none }]
  health := Bytes.utf8 "ok"
  backlog := 0
  dropped := 0
  activeSessions := [Bytes.utf8 "b:3"]

def requestRegistered : ServerState :=
  requestStart.serve id (.createServer ⟨"root", "super_admin"⟩ "web" "s1" "t1") 1000

def requestSeen : ServerState := requestRegistered.serve id (.ingest "t1" (sessionBatch []) "p1") 2000

def requestMade : ServerState := requestSeen.serve id (.terminateSession "cookie" "s1" (Bytes.utf8 "b:3") "r1") 3000

def requestDone : ServerState := requestMade.serve id (.ingest "t1" (sessionBatch [⟨"r1", []⟩]) "p2") 4000

def requestHistory : List (Transition ServerState Served) :=
  [⟨requestMade, ⟨.ingest "t1" (sessionBatch [⟨"r1", []⟩]) "p2", 4000, true, 4000⟩, requestDone⟩,
    ⟨requestSeen, ⟨.terminateSession "cookie" "s1" (Bytes.utf8 "b:3") "r1", 3000, true, 3000⟩, requestMade⟩,
    ⟨requestRegistered, ⟨.ingest "t1" (sessionBatch []) "p1", 2000, true, 2000⟩, requestSeen⟩,
    ⟨requestStart, ⟨.createServer ⟨"root", "super_admin"⟩ "web" "s1" "t1", 1000, true, 1000⟩, requestRegistered⟩]

theorem termination_lifecycle_login : TerminationLifecycle id requestHistory requestDone ∧
    requestDone.db.sessionTerminations.map TerminationRow.status = [.succeeded] ∧
    requestDone.db.sessions.map SessionRow.ended = [some 4000] := by
  refine ⟨termination_lifecycle ?_, by decide +kernel, by decide +kernel⟩
  exact .next (.next (.next (.next (.start rfl) (serve_step (by decide))) (serve_step (by decide)))
    (serve_step (by decide))) (serve_step (by decide))

end SshLogger
