import SshLogger.Deployment
import SshLogger.Proofs.Serving
import SshLogger.Proofs.LogRuns

/-! Delivery of queued events. An event leaves the agent's queue only when the
server's answer shows that its table holds the id, and the stored checkpoint
moves only in the transaction that queues or counts what it passes. -/

namespace SshLogger
open Library Library.History Library.Grouping

/-- The server's table holds the id under this server. -/
def Stored (server : String) (db : Fleet) (id : Bytes) : Prop :=
  ∃ row ∈ db.events, row.serverId = server ∧ row.event.id = id

section Events
variable {server : String} {now : Int}

theorem storeEvents_kept {row : EventRow} (events : List Event) {db : Fleet} (member : row ∈ db.events) :
    row ∈ (events.foldl (storeEvent server now) db).events := by
  induction events generalizing db with
  | nil => exact member
  | cons e rest ih =>
    refine ih ?_
    simp only [storeEvent]
    split
    · exact member
    · exact List.mem_append_left _ member

theorem storeEvents_unique (events : List Event) {db : Fleet} (unique : Rows.Unique EventRow.key db.events) :
    Rows.Unique EventRow.key (events.foldl (storeEvent server now) db).events := by
  induction events generalizing db with
  | nil => exact unique
  | cons e rest ih =>
    refine ih ?_
    simp only [storeEvent]
    split
    · exact unique
    next absent =>
      have fresh := Rows.has_false_iff.mp (Bool.not_eq_true _ ▸ absent)
      exact unique.append fresh

theorem storeEvents_stored {events : List Event} {e : Event} (listed : e ∈ events) (db : Fleet) :
    Stored server (events.foldl (storeEvent server now) db) e.id := by
  induction events generalizing db with
  | nil => cases listed
  | cons first rest ih =>
    rcases List.mem_cons.mp listed with rfl | later
    · have here : Stored server (storeEvent server now db e) e.id := by
        simp only [storeEvent]
        split
        next present =>
          obtain ⟨row, member, same⟩ := Rows.has_iff.mp present
          obtain ⟨own, id⟩ := Prod.mk.inj same
          exact ⟨row, member, own, id⟩
        · exact ⟨_, List.mem_append_right _ (List.mem_singleton_self _), rfl, rfl⟩
      obtain ⟨row, member, found⟩ := here
      exact ⟨row, storeEvents_kept rest member, found⟩
    · exact ih later _

theorem storeEvents_origin {row : EventRow} (events : List Event) {db : Fleet}
    (member : row ∈ (events.foldl (storeEvent server now) db).events) :
    row ∈ db.events ∨ row.serverId = server ∧ row.event ∈ events := by
  induction events generalizing db with
  | nil => exact Or.inl member
  | cons e rest ih =>
    rcases ih member with earlier | ⟨own, listed⟩
    · simp only [storeEvent] at earlier
      split at earlier
      · exact Or.inl earlier
      · rcases List.mem_append.mp earlier with earlier | added
        · exact Or.inl earlier
        · obtain rfl := List.mem_singleton.mp added
          exact Or.inr ⟨rfl, by simp⟩
    · exact Or.inr ⟨own, by simp [listed]⟩

end Events

theorem ingestAs_events (server : String) (db : Fleet) (b : Batch) (now : Int) (fresh : String) :
    ∃ start, start.events = db.events ∧
      (ingestAs server db b now fresh).2.events = (b.events.foldl (storeEvent server now) start).events := by
  refine ⟨(ingestFirewall (ingestTerminations db server b now).2 server fresh b now).2, ?_, rfl⟩
  rw [(ingestFirewall_frame server now _ fresh b).2.2.1, ingestTerminations_snd,
    (reportTerminations_frame server now _ b.terminationResults).2.2.1]

theorem ServeEffect.events {hash : String → String} {db : Db} {now : Int} {request : Request} {after : Fleet}
    (effect : ServeEffect hash db now request after) : (∀ row ∈ db.events, row ∈ after.events) ∧
      (Rows.Unique EventRow.key db.events → Rows.Unique EventRow.key after.events) := by
  cases effect with
  | quiet => exact ⟨fun _ => id, id⟩
  | changed _ done => exact done.frame.2.2.1 ▸ ⟨fun _ => id, id⟩
  | created => exact ⟨fun _ => id, id⟩
  | renamed => exact ⟨fun _ => id, id⟩
  | rotated done => exact done.frame.2.2.1 ▸ ⟨fun _ => id, id⟩
  | requested done =>
    obtain ⟨username, rfl⟩ := done.stored
    exact ⟨fun _ => id, id⟩
  | @ingested token b fresh server known =>
    obtain ⟨start, same, events⟩ := ingestAs_events server db.toFleet b.redacted now fresh
    rw [events, ← same]
    exact ⟨fun _ => storeEvents_kept _, storeEvents_unique _⟩

/-- A new row holds an event of a batch that was ingested as the row's server. -/
theorem ServeEffect.event_origin {hash : String → String} {db : Db} {now : Int} {request : Request} {after : Fleet}
    (effect : ServeEffect hash db now request after) {row : EventRow} (member : row ∈ after.events) :
    row ∈ db.events ∨ ∃ token b fresh, request = .ingest token b fresh ∧
      authenticate db.toFleet (hash token) = some row.serverId ∧ ∃ e ∈ b.events, row.event = e.redacted := by
  cases effect with
  | quiet => exact Or.inl member
  | changed _ done => exact Or.inl (done.frame.2.2.1 ▸ member)
  | created => exact Or.inl member
  | renamed => exact Or.inl member
  | rotated done => exact Or.inl (done.frame.2.2.1 ▸ member)
  | requested done =>
    obtain ⟨username, rfl⟩ := done.stored
    exact Or.inl member
  | @ingested token b fresh server known =>
    obtain ⟨start, same, events⟩ := ingestAs_events server db.toFleet b.redacted now fresh
    rcases storeEvents_origin _ (events ▸ member) with old | ⟨rfl, listed⟩
    · exact Or.inl (same ▸ old)
    · obtain ⟨e, sent, encoded⟩ := List.mem_map.mp listed
      exact Or.inr ⟨token, b, fresh, rfl, known, e, sent, encoded.symm⟩

def TokensOwned (owner : String → String) (db : Fleet) : Prop := ∀ s ∈ db.servers, owner s.tokenHash = s.id

theorem TokensOwned.authenticate {owner : String → String} {db : Fleet} (owned : TokensOwned owner db)
    {tokenHash server : String} (known : authenticate db tokenHash = some server) : owner tokenHash = server := by
  obtain ⟨s, found, rfl⟩ := Option.map_eq_some_iff.mp known
  have matched := List.find?_some found
  simp only [Bool.and_eq_true, beq_iff_eq] at matched
  rw [← matched.1]
  exact owned s (List.mem_of_find?_eq_some found)

theorem ingestAs_servers (server : String) (db : Fleet) (b : Batch) (now : Int) (fresh : String) :
    (ingestAs server db b now fresh).2.servers = Rows.update (fun s => s.id == server)
      (fun s => { s with lastSeen := now, health := b.health, backlog := b.backlog, dropped := b.dropped }) db.servers := by
  simp only [ingestAs, heartbeat]
  rw [(storeEvents_frame server now _ b.events).2.2.2, (ingestFirewall_frame server now _ fresh b).2.2.2,
    ingestTerminations_snd, (reportTerminations_frame server now _ b.terminationResults).2.2.2]

/-- The token a request makes, if it makes one, is for the server it names. -/
def MakesOwned (hash owner : String → String) : Request → Prop
  | .createServer _ _ id token => owner (hash token) = id
  | .changeToken _ id token _ => owner (hash token) = id
  | _ => True

theorem Admissible.makesOwned {hash owner : String → String} {home : String} {drawn next : List String}
    {request : Request} (allowed : Admissible hash owner home drawn request next) : MakesOwned hash owner request := by
  cases request with
  | createServer who name id token => exact allowed.1
  | changeToken who id token revoke => exact allowed.1
  | _ => trivial

theorem ServeEffect.tokensOwned {hash owner : String → String} {db : Db} {now : Int} {request : Request} {after : Fleet}
    (effect : ServeEffect hash db now request after) (made : MakesOwned hash owner request)
    (owned : TokensOwned owner db.toFleet) : TokensOwned owner after := by
  cases effect with
  | quiet => exact owned
  | changed _ done => exact fun s member => owned s (done.frame.2.2.2 ▸ member)
  | created =>
    intro s member
    rcases List.mem_append.mp member with old | new
    · exact owned s old
    · obtain rfl := List.mem_singleton.mp new
      exact made
  | renamed =>
    intro s member
    obtain ⟨old, there, ⟨-, rfl⟩ | ⟨-, rfl⟩⟩ := Rows.mem_update.mp member <;> exact owned old there
  | rotated done =>
    obtain ⟨accounts, who, -, rfl⟩ := done.stored
    intro s member
    obtain ⟨old, there, ⟨chosen, rfl⟩ | ⟨-, rfl⟩⟩ := Rows.mem_update.mp member
    · simp only [isEditable, Bool.and_eq_true, beq_iff_eq] at chosen
      exact made.trans chosen.1.1.symm
    · exact owned old there
  | requested done =>
    obtain ⟨username, rfl⟩ := done.stored
    exact owned
  | @ingested token b fresh server known =>
    intro s member
    rw [ingestAs_servers] at member
    obtain ⟨old, there, ⟨-, rfl⟩ | ⟨-, rfl⟩⟩ := Rows.mem_update.mp member <;> exact owned old there

namespace Spool

theorem mem_ack {s : Spool} {events : List Event} {stored : Bool} {row : QueueRow} (member : row ∈ s.db.queue) :
    row ∈ (s.ack events stored).db.queue ∨ ∃ e ∈ events, row.id = e.id := by
  unfold ack
  split
  · exact Or.inl member
  · simp only
    generalize s.db.queue = queue at member ⊢
    induction events generalizing queue with
    | nil => exact Or.inl member
    | cons e rest ih =>
      by_cases same : row.id = e.id
      · exact Or.inr ⟨e, by simp, same⟩
      · rcases ih (Rows.delete (fun row => row.id == e.id) queue) (by simp [member, same]) with kept | ⟨other, listed, equal⟩
        · exact Or.inl kept
        · exact Or.inr ⟨other, by simp [listed], equal⟩

theorem of_mem_ack {s : Spool} {events : List Event} {stored : Bool} {row : QueueRow}
    (member : row ∈ (s.ack events stored).db.queue) : row ∈ s.db.queue := by
  unfold ack at member
  split at member
  · exact member
  · simp only at member
    generalize s.db.queue = queue at member ⊢
    induction events generalizing queue with
    | nil => exact member
    | cons e rest ih => exact (Rows.mem_delete.mp (ih _ member)).1

theorem mem_batch {s : Spool} {e : Event} (sent : e ∈ s.batch.1) : ∃ row ∈ s.db.queue, row.payload.event = e := by
  have taken : ∀ (rows : List QueueRow) (size : Nat) (out : List Event), e ∈ takeBatch size out rows →
      e ∈ out ∨ ∃ row ∈ rows, row.payload.event = e := by
    intro rows
    induction rows with
    | nil => exact fun size out member => Or.inl member
    | cons row rest ih =>
      intro size out member
      simp only [takeBatch] at member
      split at member
      · exact Or.inl member
      · rcases ih _ _ member with there | ⟨other, listed, same⟩
        · rcases List.mem_append.mp there with there | here
          · exact Or.inl there
          · exact Or.inr ⟨row, by simp, (List.mem_singleton.mp here).symm⟩
        · exact Or.inr ⟨other, by simp [listed], same⟩
  rcases taken _ _ _ sent with nothing | ⟨row, listed, same⟩
  · cases nothing
  · exact ⟨row, List.mem_of_mem_take listed, same⟩

end Spool

def lost (limit : Nat) (state : Admission) : List Event → List Event
  | [] => []
  | ev :: rest =>
    if (offer limit state ev).dropped = state.dropped then lost limit (offer limit state ev) rest
    else ev :: lost limit (offer limit state ev) rest

theorem offer_accounts (limit : Nat) (state : Admission) (ev : Event) :
    (∃ row ∈ (offer limit state ev).queue, row.id = ev.id) ∧ (offer limit state ev).dropped = state.dropped ∨
      (offer limit state ev).dropped = state.dropped + 1 := by
  simp only [offer]
  split
  next present =>
    obtain ⟨row, member, same⟩ := Rows.has_iff.mp present
    exact Or.inl ⟨⟨row, member, same⟩, rfl⟩
  · split
    · exact Or.inr rfl
    · exact Or.inl ⟨⟨_, List.mem_append_right _ (List.mem_singleton_self _), rfl⟩, rfl⟩

theorem lost_sublist (limit : Nat) (events : List Event) (state : Admission) : (lost limit state events).Sublist events := by
  induction events generalizing state with
  | nil => exact List.Sublist.slnil
  | cons ev rest ih =>
    rw [lost]
    split
    · exact (ih _).cons ev
    · exact (ih _).cons_cons ev

/-- Every offered event is in the queue afterwards or counted. -/
theorem offerAll_accounts (limit : Nat) (events : List Event) (state : Admission) :
    (offerAll limit state events).dropped = state.dropped + (lost limit state events).length ∧
      ∀ ev ∈ events, ev ∈ lost limit state events ∨ ∃ row ∈ (offerAll limit state events).queue, row.id = ev.id := by
  induction events generalizing state with
  | nil => exact ⟨rfl, by simp⟩
  | cons ev rest ih =>
    obtain ⟨count, others⟩ := ih (offer limit state ev)
    have step : offerAll limit state (ev :: rest) = offerAll limit (offer limit state ev) rest := rfl
    rw [step, lost]
    rcases offer_accounts limit state ev with ⟨⟨row, member, same⟩, unchanged⟩ | counted
    · rw [if_pos unchanged]
      refine ⟨by rw [count, unchanged], ?_⟩
      intro other listed
      rcases List.mem_cons.mp listed with rfl | later
      · exact Or.inr ⟨row, offerAll_keeps member, same⟩
      · exact others other later
    · rw [if_neg (by omega)]
      refine ⟨by rw [count, counted, List.length_cons]; omega, ?_⟩
      intro other listed
      rcases List.mem_cons.mp listed with rfl | later
      · exact Or.inl (by simp)
      · rcases others other later with lost | queued
        · exact Or.inl (by simp [lost])
        · exact Or.inr queued

def readFrom (c : Collector) (cp : Checkpoint) (dir : LogDir) : LogFile × Nat :=
  let (cp, file) := locate (attach c cp dir).1 dir
  (file, (checkTruncated cp file).offset)

/-- The gaps a call counts before it reads: a reboot, a file that is gone, a file that was cut. -/
def gaps (c : Collector) (cp : Checkpoint) (dir : LogDir) : Nat :=
  (if cp.boot ≠ [] ∧ cp.boot ≠ c.boot then 1 else 0) +
  (if (attach c cp dir).1.inode ∉ (dir.current :: dir.rotated).map LogFile.inode then 1 else 0) +
  (if (readFrom c cp dir).1.size < (locate (attach c cp dir).1 dir).1.offset then 1 else 0)

/-- How one call may change what the spool stores. -/
inductive CheckpointStep (c : Collector) (dir : LogDir) (now : Int) (before after : Spool) : Prop
  | kept : after.db = before.db → CheckpointStep c dir now before after
  /-- Reading starts at a new place; nothing has been read. -/
  | attached : (attach c before.cp dir).2 = true → after.db.checkpoint = some (attach c before.cp dir).1 →
      after.db.queue = before.db.queue → CheckpointStep c dir now before after
  /-- The checkpoint moves behind settled lines or from a settled file to the
  current one. The events of each group with a record on these lines are in the
  queue or among the losses, and the counter grows by these and the gaps. -/
  | committed (next : Checkpoint) (losses : List Event) :
      (next.inode = (readFrom c before.cp dir).1.inode ∧ next.offset = (readFrom c before.cp dir).2 +
          (settledAt (readFrom c before.cp dir).1 (readFrom c before.cp dir).2 now).flatten.length ∨
        next.inode = dir.current.inode ∧ next.offset = 0 ∧ (readFrom c before.cp dir).1.inode ≠ dir.current.inode ∧
          (readFrom c before.cp dir).1.size ≤ (readFrom c before.cp dir).2 +
            (settledAt (readFrom c before.cp dir).1 (readFrom c before.cp dir).2 now).flatten.length) →
      after.db.checkpoint = some next →
      next.dropped = before.cp.dropped + gaps c before.cp dir + losses.length →
      losses.Sublist (offered c before.cp dir now) →
      (∀ row ∈ before.db.queue, row ∈ after.db.queue) →
      (∀ id ∈ keys Record.id (records (settledAt (readFrom c before.cp dir).1 (readFrom c before.cp dir).2 now)),
        ∀ ev ∈ eventsFor (members Record.id id (records (windowAt (readFrom c before.cp dir).1 (readFrom c before.cp dir).2)))
          c.boot c.lookup, ev ∈ losses ∨ ∃ row ∈ after.db.queue, row.id = ev.id) →
      CheckpointStep c dir now before after

theorem attach_dropped (c : Collector) (cp : Checkpoint) (dir : LogDir) :
    (attach c cp dir).1.dropped = cp.dropped + if cp.boot ≠ [] ∧ cp.boot ≠ c.boot then 1 else 0 := by
  simp only [attach]
  split
  · by_cases rebooted : cp.boot ≠ [] ∧ cp.boot ≠ c.boot
    · simp [rebooted]
    · have still : (cp.boot != [] && cp.boot != c.boot) = false := by simpa using rebooted
      simp [rebooted, still]
  next still =>
    simp only [Bool.or_eq_true, beq_iff_eq, bne_iff_ne, not_or, not_not] at still
    rw [if_neg fun rebooted => rebooted.2 still.2, Nat.add_zero]

theorem locate_dropped (cp : Checkpoint) (dir : LogDir) : (locate cp dir).1.dropped =
    cp.dropped + if cp.inode ∉ (dir.current :: dir.rotated).map LogFile.inode then 1 else 0 := by
  simp only [locate]
  split
  next same => simp [beq_iff_eq.mp same]
  next other =>
    have away : cp.inode ≠ dir.current.inode := by simpa using other
    split
    next file found =>
      have there : cp.inode ∈ dir.rotated.map LogFile.inode :=
        List.mem_map.mpr ⟨file, List.mem_of_find?_eq_some found, by simpa using List.find?_some found⟩
      simp [there]
    next absent =>
      have gone : cp.inode ∉ dir.rotated.map LogFile.inode := by
        intro member
        obtain ⟨file, listed, same⟩ := List.mem_map.mp member
        simpa [same] using List.find?_eq_none.mp absent file listed
      simp [away, gone]

theorem checkTruncated_dropped (cp : Checkpoint) (file : LogFile) :
    (checkTruncated cp file).dropped = cp.dropped + if file.size < cp.offset then 1 else 0 := by
  simp only [checkTruncated]
  split <;> rfl

theorem gaps_counted (c : Collector) (cp : Checkpoint) (dir : LogDir) :
    (checkTruncated (locate (attach c cp dir).1 dir).1 (locate (attach c cp dir).1 dir).2).dropped =
      cp.dropped + gaps c cp dir := by
  rw [checkTruncated_dropped, locate_dropped, attach_dropped, gaps]
  simp only [readFrom, Nat.add_assoc]
  rfl

/-- What a call commits. -/
theorem collect_cases (s : Spool) (c : Collector) (dir : LogDir) (now : Int) (attached stored : Bool) :
    (s.collect c dir now attached stored).1 = s ∨
    ((attach c s.cp dir).2 = true ∧ (s.collect c dir now attached stored).1 = s.commit (attach c s.cp dir).1 [] true) ∨
    ∃ next passed, read (attach c s.cp dir).1 dir now = .ok (next, passed) ∧
      ((s.collect c dir now attached stored).1 = s.commit next (groupEvents c passed) true ∨
        (s.collect c dir now attached stored).1 =
          (s.commit (attach c s.cp dir).1 [] true).commit next (groupEvents c passed) true) := by
  rcases collect_outcome s c dir now attached stored with
    ⟨-, same | attachment⟩ | ⟨-, -, -, next, passed, got, same⟩
  · exact Or.inl same
  · exact Or.inr (Or.inl attachment)
  · refine Or.inr (Or.inr ⟨next, passed, got, ?_⟩)
    rw [same]
    split
    · exact Or.inr rfl
    · exact Or.inl rfl

/-- A read moves the checkpoint over the settled lines, passes on their groups and counts the gaps. -/
theorem read_settles {c : Collector} {cp next : Checkpoint} {dir : LogDir} {now : Int} {passed : List Group}
    (got : read (attach c cp dir).1 dir now = .ok (next, passed)) :
    passed.map Group.records = passedAt (readFrom c cp dir).1 (readFrom c cp dir).2 now ∧
    next.dropped = cp.dropped + gaps c cp dir ∧
    (next.inode = (readFrom c cp dir).1.inode ∧ next.offset = (readFrom c cp dir).2 +
        (settledAt (readFrom c cp dir).1 (readFrom c cp dir).2 now).flatten.length ∨
      next.inode = dir.current.inode ∧ next.offset = 0 ∧ (readFrom c cp dir).1.inode ≠ dir.current.inode ∧
        (readFrom c cp dir).1.size ≤ (readFrom c cp dir).2 +
          (settledAt (readFrom c cp dir).1 (readFrom c cp dir).2 now).flatten.length) := by
  have counted := gaps_counted c cp dir
  have same := locate_inode (attach c cp dir).1 dir
  simp only [read, readFrom] at got ⊢
  generalize locate (attach c cp dir).1 dir = located at got same counted ⊢
  obtain ⟨cp', file⟩ := located
  simp only at got same counted ⊢
  obtain ⟨inside, inode⟩ := checkTruncated_inside cp' file
  rw [readFile_checked] at got
  rcases readFile_settles (checkTruncated cp' file) file dir now inside with
    ⟨problem, failed, -⟩ | ⟨next', passed', found, groups, place⟩
  · rw [failed] at got
    cases got
  · rw [found] at got
    obtain ⟨rfl, rfl⟩ := Prod.mk.inj (Except.ok.inj got)
    refine ⟨groups, ?_, ?_⟩
    · rw [place]
      split <;> exact counted
    · rw [place]
      split
      next moved => exact Or.inr ⟨rfl, rfl, moved⟩
      · exact Or.inl ⟨inode.trans same, rfl⟩

theorem collect_checkpoint (s : Spool) (c : Collector) (dir : LogDir) (now : Int) (attached stored : Bool) :
    CheckpointStep c dir now s (s.collect c dir now attached stored).1 := by
  rcases collect_cases s c dir now attached stored with same | ⟨fresh, same⟩ | ⟨next, passed, got, commits⟩
  · exact .kept (by rw [same])
  · exact .attached fresh (by rw [same]; rfl) (by rw [same]; rfl)
  · obtain ⟨groups, counted, place⟩ := read_settles got
    have commit : (s.collect c dir now attached stored).1.db.queue =
          (offerAll s.limit ⟨s.db.queue, queuedSize s.db.queue, next.dropped⟩ (groupEvents c passed)).queue ∧
        (s.collect c dir now attached stored).1.db.checkpoint = some { next with dropped :=
          (offerAll s.limit ⟨s.db.queue, queuedSize s.db.queue, next.dropped⟩ (groupEvents c passed)).dropped } := by
      rcases commits with same | same <;> rw [same] <;> exact ⟨rfl, rfl⟩
    obtain ⟨count, covered⟩ :=
      offerAll_accounts s.limit (groupEvents c passed) ⟨s.db.queue, queuedSize s.db.queue, next.dropped⟩
    have given : offered c s.cp dir now = groupEvents c passed := by simp only [offered, got]
    refine .committed _ (lost s.limit ⟨s.db.queue, queuedSize s.db.queue, next.dropped⟩ (groupEvents c passed))
      ?_ commit.2 ?_ ?_ ?_ ?_
    · exact place
    · rw [count, counted]
    · rw [given]
      exact lost_sublist _ _ _
    · intro row member
      rw [commit.1]
      exact offerAll_keeps member
    · intro id settled ev produced
      rw [commit.1]
      refine covered ev ?_
      have listed : members Record.id id (records (windowAt (readFrom c s.cp dir).1 (readFrom c s.cp dir).2)) ∈
          passed.map Group.records := by
        rw [groups]
        exact List.mem_map_of_mem settled
      obtain ⟨g, member, same⟩ := List.mem_map.mp listed
      exact List.mem_flatMap.mpr ⟨g, member, same ▸ produced⟩

/-- A call only adds rows that hold the encoding of an event within the limits. -/
theorem mem_collect {s : Spool} {c : Collector} {dir : LogDir} {now : Int} {attached stored : Bool} {row : QueueRow}
    (member : row ∈ (s.collect c dir now attached stored).1.db.queue) :
    row ∈ s.db.queue ∨ ∃ ev : Event, row.payload = marshal ev ∧ exceedsLimits (marshal ev) ev = false := by
  have committed : ∀ (t : Spool) (cp : Checkpoint) (events : List Event), t.db.queue = s.db.queue →
      row ∈ (t.commit cp events true).db.queue →
        row ∈ s.db.queue ∨ ∃ ev : Event, row.payload = marshal ev ∧ exceedsLimits (marshal ev) ev = false := by
    intro t cp events same inside
    rcases mem_offerAll inside with old | ⟨ev, -, rfl, kept⟩
    · exact Or.inl (same ▸ old)
    · exact Or.inr ⟨ev, rfl, kept⟩
  rcases collect_cases s c dir now attached stored with same | ⟨-, same⟩ | ⟨next, passed, -, same | same⟩
  · exact Or.inl (same ▸ member)
  · exact committed s _ [] rfl (same ▸ member)
  · exact committed s _ _ rfl (same ▸ member)
  · exact committed _ _ _ rfl (same ▸ member)

theorem collect_keeps {s : Spool} {c : Collector} {dir : LogDir} {now : Int} {attached stored : Bool} {row : QueueRow}
    (member : row ∈ s.db.queue) : row ∈ (s.collect c dir now attached stored).1.db.queue := by
  rcases collect_cases s c dir now attached stored with same | ⟨-, same⟩ | ⟨next, passed, -, same | same⟩
  · rwa [same]
  all_goals
    rw [same]
    exact offerAll_keeps member

/-- The answer whose events are still to be acknowledged. -/
def Phase.answer : Phase → Option Answered
  | .saving _ rest => rest
  | .applying _ rest => rest
  | .answered rest => some rest
  | _ => none

def Phase.request : Phase → Option (Nat × List Event)
  | .waiting request events => some (request, events)
  | _ => none

structure DeliveryValid (owner : String → String) (hash : String → String) (home : String) (w : Deployment) : Prop where
  tokens : TokensOwned owner w.db.toFleet
  unique : Rows.Unique EventRow.key w.db.events
  encoded : ∀ row ∈ w.agent.spool.db.queue, row.payload.event.coerced = row.payload.event
  sent : ∀ sent ∈ w.sent, owner (hash sent.1) = home ∧ ∀ e ∈ sent.2.events, e.coerced = e
  waiting : ∀ n events, w.agent.phase.request = some (n, events) →
    ∃ token b, w.sent[n]? = some (token, b) ∧ b.events = events
  responses : ∀ n response, (n, response) ∈ w.responses →
    ∃ token b, w.sent[n]? = some (token, b) ∧ ∀ e ∈ b.events, Stored home w.db.toFleet e.id
  answered : ∀ rest, w.agent.phase.answer = some rest → ∀ e ∈ rest.events, Stored home w.db.toFleet e.id

variable {hash owner : String → String} {home : String} {w after : Deployment} {act : Act}

/-- What a step of the agent itself leaves: the server, the wires, and a queue
that only loses rows the answer has covered. -/
theorem DeliveryValid.agent (valid : DeliveryValid owner hash home w) {agent : Agent}
    (queue : ∀ row ∈ agent.spool.db.queue, row ∈ w.agent.spool.db.queue ∨ ∃ ev : Event, row.payload = marshal ev)
    (request : ∀ pair, agent.phase.request = some pair → w.agent.phase.request = some pair)
    (answer : ∀ rest, agent.phase.answer = some rest → ∀ e ∈ rest.events, Stored home w.db.toFleet e.id) :
    DeliveryValid owner hash home { w with agent } :=
  { valid with
    encoded := by
      intro row member
      rcases queue row member with old | ⟨ev, same⟩
      · exact valid.encoded row old
      · simp [same, marshal]
    waiting := fun n events asked => valid.waiting n events (request _ asked)
    answered := answer }

theorem DeliveryValid.quiet (valid : DeliveryValid owner hash home w) {agent : Agent}
    (queue : ∀ row ∈ agent.spool.db.queue, row ∈ w.agent.spool.db.queue ∨ ∃ ev : Event, row.payload = marshal ev)
    (phase : agent.phase.request = none ∧ agent.phase.answer = none) :
    DeliveryValid owner hash home { w with agent } := by
  refine valid.agent queue (fun pair asked => ?_) fun rest asked => ?_
  · rw [phase.1] at asked
    cases asked
  · rw [phase.2] at asked
    cases asked

theorem Agent.start_spool (a : Agent) (canTerminate : Bool) : (a.start canTerminate).spool.db = a.spool.db := by
  simp only [Agent.start]
  split
  · rfl
  · split <;> rfl

theorem Agent.start_phase (a : Agent) (canTerminate : Bool) :
    (a.start canTerminate).phase.request = none ∧ (a.start canTerminate).phase.answer = none := by
  simp only [Agent.start]
  split
  · exact ⟨rfl, rfl⟩
  · split <;> exact ⟨rfl, rfl⟩

theorem Agent.fail_frame (a : Agent) :
    a.fail.spool = a.spool ∧ a.fail.phase.request = none ∧ a.fail.phase.answer = none := by
  simp only [Agent.fail]
  split <;> exact ⟨rfl, rfl, rfl⟩

theorem Agent.receive_frame (a : Agent) (events : List Event) (response : IngestResponse) :
    (a.receive events response).spool = a.spool ∧ (a.receive events response).phase.request = none ∧
      (a.receive events response).phase.answer = some ⟨events, response.terminations⟩ := by
  simp only [Agent.receive]
  split <;> exact ⟨rfl, rfl, rfl⟩

theorem Agent.resume_phase (rest : Option Answered) :
    (Agent.resume rest).request = none ∧ (Agent.resume rest).answer = rest := by
  cases rest <;> exact ⟨rfl, rfl⟩

theorem Agent.save_frame (a : Agent) (p : FirewallPolicy) (rest : Option Answered) (stored : Bool) :
    (a.save p rest stored).spool.db.queue = a.spool.db.queue ∧
      (a.save p rest stored).spool.db.checkpoint = a.spool.db.checkpoint ∧
      (a.save p rest stored).phase.request = none ∧ (a.save p rest stored).phase.answer = rest := by
  simp only [Agent.save]
  split
  · exact ⟨rfl, rfl, rfl, rfl⟩
  · exact ⟨rfl, rfl, Agent.resume_phase rest⟩

theorem Agent.apply_frame (a : Agent) (p : FirewallPolicy) (rest : Option Answered) (outcome : NftOutcome) :
    (a.apply p rest outcome).spool = a.spool ∧ (a.apply p rest outcome).phase.request = none ∧
      (a.apply p rest outcome).phase.answer = rest := by
  cases outcome <;> exact ⟨rfl, Agent.resume_phase rest⟩

theorem Stored.serve {db : Db} {now : Int} {request : Request} {fleet : Fleet}
    (effect : ServeEffect hash db now request fleet) {id : Bytes} (stored : Stored home db.toFleet id) :
    Stored home fleet id := by
  obtain ⟨row, member, found⟩ := stored
  exact ⟨row, effect.events.1 row member, found⟩

/-- A request of anyone leaves the agent's side alone. -/
theorem DeliveryValid.serve (valid : DeliveryValid owner hash home w) {now : Int} {request : Request} {stored : Bool}
    (made : MakesOwned hash owner request) (drawn : List String) :
    DeliveryValid owner hash home { w with db := w.db.serve hash now stored request, drawn } := by
  have effect := serve_effect hash w.db now stored request
  exact { valid with
    tokens := effect.tokensOwned made valid.tokens
    unique := effect.events.2 valid.unique
    responses := by
      intro n response member
      obtain ⟨token, b, there, all⟩ := valid.responses n response member
      exact ⟨token, b, there, fun e listed => (all e listed).serve effect⟩
    answered := fun rest asked e listed => (valid.answered rest asked e listed).serve effect }

/-- A successful answer means that each event of the batch is stored under the agent's server. -/
theorem ingest_stores {db : Fleet} {token : String} {b : Batch} {now : Int} {fresh : String} {stored : Bool}
    {response : IngestResponse} (owned : TokensOwned owner db) (own : owner (hash token) = home)
    (encoded : ∀ e ∈ b.events, e.coerced = e)
    (answered : (ingest hash db token b.coerced now fresh stored).1 = .ok response) :
    ∀ e ∈ b.events, Stored home (ingest hash db token b.coerced now fresh stored).2 e.id := by
  rcases ingest_cases hash db token b.coerced now fresh stored with ⟨problem, refused⟩ | ⟨server, known, served⟩
  · rw [refused] at answered
    cases answered
  · rw [served]
    intro e listed
    obtain ⟨start, -, events⟩ := ingestAs_events server db b.coerced.redacted now fresh
    obtain rfl : home = server := own.symm.trans (owned.authenticate known)
    have decoded : e.redacted ∈ b.coerced.redacted.events :=
      List.mem_map_of_mem (List.mem_map.mpr ⟨e, listed, encoded e listed⟩)
    obtain ⟨row, member, found⟩ := @storeEvents_stored home now _ _ decoded start
    exact ⟨row, events ▸ member, found⟩

theorem DeliveryValid.step (valid : DeliveryValid owner hash home w)
    (moved : Deployment.Step hash owner home w act after) : DeliveryValid owner hash home after := by
  cases moved with
  | start _ down =>
    refine valid.quiet (fun row member => Or.inl ?_) (w.agent.start_phase _)
    rwa [Agent.start_spool] at member
  | stop => exact valid.quiet (fun row member => Or.inl member) ⟨rfl, rfl⟩
  | collect _ _ _ _ _ idle =>
    exact valid.quiet (fun row member => (mem_collect member).imp_right fun ⟨ev, same, _⟩ => ⟨ev, same⟩) ⟨rfl, rfl⟩
  | wait => exact valid.quiet (fun row member => Or.inl member) ⟨rfl, rfl⟩
  | @beat token canFirewall canAllowlist active health ready own =>
    have longer : ∀ (n : Nat) (request : String × Batch), w.sent[n]? = some request →
        (w.sent ++ [(token, w.agent.batch health canFirewall canAllowlist active)])[n]? = some request := by
      intro n request there
      rw [List.getElem?_append_left (List.getElem?_eq_some_iff.mp there).1, there]
    exact { valid with
      sent := by
        intro sent member
        rcases List.mem_append.mp member with old | new
        · exact valid.sent sent old
        · obtain rfl := List.mem_singleton.mp new
          refine ⟨own, fun e listed => ?_⟩
          obtain ⟨row, queued, rfl⟩ := Spool.mem_batch listed
          exact valid.encoded row queued
      waiting := by
        intro n events asked
        obtain ⟨rfl, rfl⟩ := Prod.mk.inj (Option.some.inj asked)
        exact ⟨token, w.agent.batch health canFirewall canAllowlist active, by simp, rfl⟩
      responses := by
        intro n response member
        obtain ⟨token, b, there, all⟩ := valid.responses n response member
        exact ⟨token, b, longer n _ there, all⟩
      answered := by simp [Phase.answer] }
  | @deliver request now fresh stored token b there isFresh =>
    have served := @DeliveryValid.serve _ _ _ _ valid now (.ingest token b.coerced fresh) stored trivial (fresh :: w.drawn)
    obtain ⟨own, encoded⟩ := valid.sent (token, b) (List.mem_of_getElem? there)
    refine { served with responses := ?_ }
    intro n response member
    simp only [Deployment.deliver] at member
    cases answer : (ingest hash w.db.toFleet token b.coerced now fresh stored).1 with
    | error problem =>
      rw [answer] at member
      exact served.responses n response member
    | ok answered =>
      rw [answer] at member
      rcases List.mem_append.mp member with old | new
      · exact served.responses n response old
      · obtain ⟨rfl, rfl⟩ := Prod.mk.inj (List.mem_singleton.mp new)
        exact ⟨token, b, there, ingest_stores valid.tokens own encoded answer⟩
  | @receive response request events waiting arrived =>
    obtain ⟨spool, none_waiting, answer⟩ := w.agent.receive_frame events response
    refine valid.agent (fun row member => Or.inl (spool ▸ member)) (by simp [none_waiting]) ?_
    intro rest asked
    obtain ⟨token, b, there, all⟩ := valid.responses request response arrived
    obtain ⟨_, _, also, same⟩ := valid.waiting request events (by simp [waiting, Phase.request])
    obtain ⟨rfl, rfl⟩ := Prod.mk.inj (Option.some.inj (there.symm.trans also))
    obtain rfl := Option.some.inj (answer.symm.trans asked)
    exact same ▸ all
  | fail waiting =>
    obtain ⟨spool, phase⟩ := w.agent.fail_frame
    exact valid.quiet (fun row member => Or.inl (spool ▸ member)) phase
  | @save stored p rest saving =>
    obtain ⟨queue, -, none_waiting, answer⟩ := w.agent.save_frame p rest stored
    refine valid.agent (fun row member => Or.inl (queue ▸ member)) (by simp [none_waiting]) ?_
    rw [answer]
    exact fun other same => valid.answered other (by simp [saving, Phase.answer, same])
  | @apply outcome p rest applying =>
    obtain ⟨spool, none_waiting, answer⟩ := w.agent.apply_frame p rest outcome
    refine valid.agent (fun row member => Or.inl (spool ▸ member)) (by simp [none_waiting]) ?_
    rw [answer]
    exact fun other same => valid.answered other (by simp [applying, Phase.answer, same])
  | finish answered =>
    exact valid.quiet (fun row member => Or.inl (Spool.of_mem_ack member)) ⟨rfl, rfl⟩
  | serve _ _ _ allowed => exact valid.serve allowed.makesOwned _

theorem delivery_valid {history : List (Transition Deployment Act)}
    (run : Run (deployment hash owner home) history w) : DeliveryValid owner hash home w := by
  refine run.invariant (DeliveryValid owner hash home) ?_ fun _ _ _ valid moved => valid.step moved
  rintro w ⟨empty, ⟨limit, installed⟩, sent, responses⟩
  have servers : w.db.servers = [] := congrArg Fleet.servers empty
  have events : w.db.events = [] := congrArg Fleet.events empty
  constructor <;>
    simp [TokensOwned, servers, events, installed, Agent.installed, openSpool, sent, responses, Phase.request, Phase.answer]

/-- A row that leaves the queue is stored on the server. -/
theorem queued_or_stored (valid : DeliveryValid owner hash home w) (moved : Deployment.Step hash owner home w act after)
    {row : QueueRow} (held : row ∈ w.agent.spool.db.queue ∨ Stored home w.db.toFleet row.id) :
    row ∈ after.agent.spool.db.queue ∨ Stored home after.db.toFleet row.id := by
  cases moved with
  | start _ down => exact held.imp (fun queued => (Agent.start_spool w.agent _).symm ▸ queued) id
  | stop => exact held
  | collect _ _ _ _ _ idle => exact held.imp collect_keeps id
  | wait => exact held
  | beat => exact held
  | @deliver request now fresh stored token b =>
    exact held.imp id fun kept => kept.serve (serve_effect hash w.db now stored (.ingest token b.coerced fresh))
  | @receive response request events =>
    exact held.imp (fun queued => (w.agent.receive_frame events response).1.symm ▸ queued) id
  | fail => exact held.imp (fun queued => w.agent.fail_frame.1.symm ▸ queued) id
  | @save stored p rest => exact held.imp (fun queued => (w.agent.save_frame p rest stored).1.symm ▸ queued) id
  | @apply outcome p rest => exact held.imp (fun queued => (w.agent.apply_frame p rest outcome).1.symm ▸ queued) id
  | @finish outcome stored rest answered =>
    rcases held with queued | kept
    · rcases @Spool.mem_ack _ rest.events stored _ queued with kept | ⟨e, listed, same⟩
      · exact Or.inl kept
      · exact Or.inr (same ▸ valid.answered rest (by simp [answered, Phase.answer]) e listed)
    · exact Or.inr kept
  | @serve request now stored => exact held.imp id fun kept => kept.serve (serve_effect hash w.db now stored request)

def WasQueued (history : List (Transition Deployment Act)) (e : Event) : Prop :=
  ∃ t ∈ history, ∃ row ∈ t.before.agent.spool.db.queue, row.payload.event = e

theorem WasQueued.later {history : List (Transition Deployment Act)} {e : Event} (queued : WasQueued history e)
    (t : Transition Deployment Act) : WasQueued (t :: history) e := by
  obtain ⟨s, member, found⟩ := queued
  exact ⟨s, by simp [member], found⟩

/-- Only the agent's batches put events under its server, and they hold queued events. -/
theorem sent_events_queued {history : List (Transition Deployment Act)}
    (run : Run (deployment hash owner home) history w) :
    (∀ sent ∈ w.sent, ∀ e ∈ sent.2.events, WasQueued history e) ∧
      ∀ row ∈ w.db.events, row.serverId = home → ∃ e, WasQueued history e ∧ row.event = e.redacted := by
  have valid := @delivery_valid hash owner home
  refine run.induct (fun history w => (∀ sent ∈ w.sent, ∀ e ∈ sent.2.events, WasQueued history e) ∧
    ∀ row ∈ w.db.events, row.serverId = home → ∃ e, WasQueued history e ∧ row.event = e.redacted) ?_ ?_
  · rintro w ⟨empty, -, sent, -⟩
    have events : w.db.events = [] := congrArg Fleet.events empty
    simp [sent, events]
  · intro history w act after run ⟨batches, rows⟩ moved
    have later : (∀ sent ∈ w.sent, ∀ e ∈ sent.2.events, WasQueued (⟨w, act, after⟩ :: history) e) ∧
        ∀ row ∈ w.db.events, row.serverId = home → ∃ e, WasQueued (⟨w, act, after⟩ :: history) e ∧ row.event = e.redacted :=
      ⟨fun sent member e listed => (batches sent member e listed).later _, fun row member own => by
        obtain ⟨e, queued, same⟩ := rows row member own
        exact ⟨e, queued.later _, same⟩⟩
    cases moved with
    | @beat token canFirewall canAllowlist active health =>
      refine ⟨fun sent member e listed => ?_, later.2⟩
      rcases List.mem_append.mp member with old | new
      · exact later.1 sent old e listed
      · obtain rfl := List.mem_singleton.mp new
        obtain ⟨row, queued, same⟩ := Spool.mem_batch listed
        exact ⟨_, List.mem_cons_self, row, queued, same⟩
    | @deliver request now fresh stored token b there =>
      refine ⟨later.1, fun row member own => ?_⟩
      have effect := serve_effect hash w.db now stored (.ingest token b.coerced fresh)
      rcases effect.event_origin member with old | ⟨_, _, _, asked, -, e, listed, same⟩
      · exact later.2 row old own
      · obtain ⟨rfl, rfl, rfl⟩ := Request.ingest.inj asked
        obtain ⟨sent, inside, rfl⟩ := List.mem_map.mp listed
        have encoded := ((valid run).sent _ (List.mem_of_getElem? there)).2 sent inside
        exact ⟨_, encoded.symm ▸ later.1 _ (List.mem_of_getElem? there) sent inside, same⟩
    | @serve request now stored drawn allowed =>
      refine ⟨later.1, fun row member own => ?_⟩
      rcases (serve_effect hash w.db now stored request).event_origin member with old | ⟨token, b, fresh, rfl, known, -⟩
      · exact later.2 row old own
      · exact absurd (((valid run).tokens.authenticate known).trans own) allowed.1
    | _ => exact later

theorem step_checkpoint (moved : Deployment.Step hash owner home w act after) :
    after.agent.spool.db.checkpoint = w.agent.spool.db.checkpoint ∨ ∃ c dir now attached stored,
      act = .collect c dir now attached stored ∧ CheckpointStep c dir now w.agent.spool after.agent.spool := by
  cases moved with
  | start => exact Or.inl (congrArg SpoolDb.checkpoint (Agent.start_spool w.agent _))
  | @collect c dir now attached stored => exact Or.inr ⟨c, dir, now, attached, stored, rfl, collect_checkpoint _ _ _ _ _ _⟩
  | @receive response request events =>
    exact Or.inl (congrArg (fun spool => spool.db.checkpoint) (w.agent.receive_frame events response).1)
  | fail => exact Or.inl (congrArg (fun spool => spool.db.checkpoint) w.agent.fail_frame.1)
  | @save stored p rest => exact Or.inl (w.agent.save_frame p rest stored).2.1
  | @apply outcome p rest =>
    exact Or.inl (congrArg (fun spool => spool.db.checkpoint) (w.agent.apply_frame p rest outcome).1)
  | @finish outcome stored rest =>
    refine Or.inl ?_
    simp only [Agent.finish, Spool.ack]
    split <;> rfl
  | _ => exact Or.inl rfl

/-- The checkpoint in memory is the stored one. -/
def Spool.Current (s : Spool) : Prop := s.cp = s.db.checkpoint.getD noCheckpoint

theorem Spool.Current.commit {s : Spool} (current : s.Current) (cp : Checkpoint) (events : List Event) (stored : Bool) :
    (s.commit cp events stored).Current := by
  cases stored with
  | false => exact current
  | true => rfl

theorem Spool.Current.collect {s : Spool} (current : s.Current) (c : Collector) (dir : LogDir) (now : Int)
    (attached stored : Bool) : (s.collect c dir now attached stored).1.Current := by
  rcases collect_cases s c dir now attached stored with same | ⟨-, same⟩ | ⟨next, passed, -, same | same⟩ <;> rw [same]
  · exact current
  · exact current.commit _ _ _
  · exact current.commit _ _ _
  · exact (current.commit _ _ _).commit _ _ _

theorem step_current (moved : Deployment.Step hash owner home w act after) (current : w.agent.spool.Current) :
    after.agent.spool.Current := by
  cases moved with
  | start _ down =>
    simp only [Agent.start]
    split
    · rfl
    · split <;> rfl
  | collect => exact current.collect _ _ _ _ _
  | @receive response request events => exact (w.agent.receive_frame events response).1 ▸ current
  | fail => exact w.agent.fail_frame.1 ▸ current
  | save =>
    simp only [Agent.save]
    split <;> exact current
  | @apply outcome p rest => exact (w.agent.apply_frame p rest outcome).1 ▸ current
  | finish =>
    simp only [Agent.finish, Spool.ack]
    split <;> exact current
  | _ => exact current

theorem run_current {history : List (Transition Deployment Act)} (run : Run (deployment hash owner home) history w) :
    w.agent.spool.Current := by
  refine run.invariant (fun w => w.agent.spool.Current) ?_ fun _ _ _ current moved => step_current moved current
  rintro w ⟨-, ⟨limit, installed⟩, -⟩
  rw [installed]
  rfl

/-- What holds of the agent's events and checkpoint in every run. -/
structure Delivered (home : String) (history : List (Transition Deployment Act)) (w : Deployment) : Prop where
  /-- A queued event stays queued until the server's table holds its id. -/
  kept : ∀ t ∈ history, ∀ row ∈ t.after.agent.spool.db.queue,
    row ∈ w.agent.spool.db.queue ∨ Stored home w.db.toFleet row.id
  /-- The server's rows for this agent are events that were queued. -/
  genuine : ∀ row ∈ w.db.events, row.serverId = home → ∃ e, WasQueued history e ∧ row.event = e.redacted
  unique : Rows.Unique EventRow.key w.db.events
  /-- The stored checkpoint moves only with the queue, in the transaction of a call. -/
  together : ∀ t ∈ history, t.after.agent.spool.db.checkpoint = t.before.agent.spool.db.checkpoint ∨
    ∃ c dir now attached stored, t.action = .collect c dir now attached stored ∧
      CheckpointStep c dir now t.before.agent.spool t.after.agent.spool
  /-- The counter a call starts from is the stored one. -/
  current : ∀ t ∈ history, t.before.agent.spool.Current

theorem events_delivered {history : List (Transition Deployment Act)}
    (run : Run (deployment hash owner home) history w) : Delivered home history w := by
  refine ⟨?_, (sent_events_queued run).2, (delivery_valid run).unique, ?_, ?_⟩
  · intro t member row queued
    obtain ⟨later, older, rfl⟩ := List.append_of_mem member
    exact run.persists (fun w => row ∈ w.agent.spool.db.queue ∨ Stored home w.db.toFleet row.id) (Or.inl queued)
      fun _ _ _ _ before held moved => queued_or_stored (delivery_valid before) moved held
  · intro t member
    obtain ⟨older, -, moved⟩ := run.of_mem member
    exact step_checkpoint moved
  · intro t member
    obtain ⟨older, before, -⟩ := run.of_mem member
    exact run_current before

/-- A login is read, sent, stored and acknowledged. -/
def deliveryStart : Deployment := ⟨newStore, Agent.installed 67108864, [], [], []⟩

def deliveryOwner (token : String) : String := if token = "t1" then "s1" else ""

def deliveryLog : LogDir :=
  ⟨⟨"1:1", Bytes.utf8 "type=USER_LOGIN msg=audit(1.000:1): pid=7 uid=0 auid=1000 ses=3 exe=\"/usr/sbin/sshd\" addr=10.0.0.1 res=success\n"⟩, []⟩

theorem events_delivered_login : ∃ history w, Delivered "s1" history w ∧ w.agent.spool.db.queue = [] ∧
    w.db.events.map EventRow.key = [("s1", Bytes.utf8 "b:1.000:1:login_success")] := by
  have fresh : Run (deployment id deliveryOwner "s1") [] deliveryStart := .start ⟨rfl, ⟨67108864, rfl⟩, rfl, rfl⟩
  have registered := fresh.next (.serve (.createServer ⟨"root", "super_admin"⟩ "web" "s1" "t1") 1000 true ⟨rfl, rfl⟩)
  have started := registered.next (.start true rfl)
  have read := started.next (.collect ⟨Bytes.utf8 "b", true, id⟩ deliveryLog 1000000 true true rfl)
  have sent := read.next (.beat "t1" false false (some []) rfl rfl)
  have stored := sent.next (.deliver 0 1000000 "p1" true rfl ⟨by decide, by decide⟩)
  have answered := stored.next (.receive ⟨none, 1, []⟩ rfl (by decide +kernel))
  have acknowledged := answered.next (.finish (fun _ => []) true rfl)
  exact ⟨_, _, events_delivered acknowledged, by decide +kernel, by decide +kernel⟩

end SshLogger
