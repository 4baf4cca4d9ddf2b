import SshLogger.Views
import SshLogger.Proofs.Delivery
import SshLogger.Library.Utf8

/-! Which sessions are shown as active. Whatever order batches arrive in, a server's
row and the marks of its sessions all come from one batch of its agent, the one that
was accepted last; and an agent that has lost a record does not say that it is well. -/

namespace SshLogger
open Library Library.Bytes Library.History

section
variable {server : String} {se : SessionRow} {now : Int}

/-- A live session has not ended, and the batch lists it. -/
theorem markLive_live {active : List Bytes} {sessions : List SessionRow} (member : se ∈ markLive server active sessions)
    (own : se.serverId = server) (live : se.live = true) : se.ended = none ∧ se.id ∈ active := by
  have marked : ∀ (rest : List Bytes) (sessions : List SessionRow), (∀ id ∈ rest, id ∈ active) →
      (∀ se ∈ sessions, se.serverId = server → se.live = true → se.ended = none ∧ se.id ∈ active) →
        ∀ se ∈ rest.foldl (fun sessions id => Rows.update (fun se => se.serverId == server && se.id == id && se.ended.isNone)
          (fun se => { se with live := true }) sessions) sessions,
          se.serverId = server → se.live = true → se.ended = none ∧ se.id ∈ active := by
    intro rest
    induction rest with
    | nil => exact fun sessions _ holds => holds
    | cons id rest ih =>
      intro sessions listed holds
      refine ih _ (fun other member => listed other (List.mem_cons_of_mem _ member)) ?_
      intro se member own live
      obtain ⟨old, there, ⟨picked, rfl⟩ | ⟨-, rfl⟩⟩ := Rows.mem_update.mp member
      · simp only [Bool.and_eq_true, beq_iff_eq, Option.isNone_iff_eq_none] at picked
        obtain ⟨⟨-, same⟩, running⟩ := picked
        refine ⟨running, ?_⟩
        rw [same]
        exact listed id List.mem_cons_self
      · exact holds old there own live
  refine marked active _ (fun id listed => listed) ?_ se member own live
  intro se member own live
  obtain ⟨old, there, ⟨picked, rfl⟩ | ⟨other, rfl⟩⟩ := Rows.mem_update.mp member
  · cases live
  · rw [own] at other
    simp at other

theorem update_other {selected : SessionRow → Bool} {change : SessionRow → SessionRow} {sessions : List SessionRow}
    (member : se ∈ Rows.update selected change sessions) (other : ∀ old, selected old = true → old.serverId = server)
    (kept : ∀ old, (change old).serverId = old.serverId) (different : se.serverId ≠ server) : se ∈ sessions := by
  obtain ⟨old, there, ⟨picked, rfl⟩ | ⟨-, rfl⟩⟩ := Rows.mem_update.mp member
  · exact absurd ((kept old).trans (other old picked)) different
  · exact there

theorem markLive_other {active : List Bytes} {sessions : List SessionRow} (member : se ∈ markLive server active sessions)
    (different : se.serverId ≠ server) : se ∈ sessions := by
  have marked : ∀ (rest : List Bytes) (sessions : List SessionRow),
      se ∈ rest.foldl (fun sessions id => Rows.update (fun se => se.serverId == server && se.id == id && se.ended.isNone)
        (fun se => { se with live := true }) sessions) sessions → se ∈ sessions := by
    intro rest
    induction rest with
    | nil => exact fun sessions member => member
    | cons id rest ih =>
      intro sessions member
      refine update_other (ih _ member) (fun old picked => ?_) (fun _ => rfl) different
      simp only [Bool.and_eq_true, beq_iff_eq] at picked
      exact picked.1.1
  exact update_other (marked active _ member) (fun old picked => by simpa using picked) (fun _ => rfl) different

theorem trackSession_other {e : Event} {sessions : List SessionRow} (member : se ∈ trackSession server e sessions)
    (different : se.serverId ≠ server) : se ∈ sessions := by
  have upserted : ∀ {row : SessionRow} {merge : SessionRow → SessionRow}, row.serverId = server →
      (∀ old, (merge old).serverId = old.serverId) → se ∈ Rows.upsert SessionRow.key row merge sessions → se ∈ sessions := by
    intro row merge own kept member
    rcases Rows.mem_upsert member with ⟨there, -⟩ | ⟨-, rfl⟩ | ⟨old, there, same, rfl⟩
    · exact there
    · exact absurd own different
    · have named : old.serverId = row.serverId := congrArg Prod.fst same
      exact absurd ((kept old).trans (named.trans own)) different
  simp only [trackSession] at member
  split at member
  · exact member
  · split at member
    · refine upserted ?_ (fun _ => ?_) member <;> rfl
    · refine upserted ?_ (fun _ => ?_) member <;> rfl
    · exact member

/-- A batch leaves the sessions of other servers alone. -/
theorem ingestAs_other {db : Fleet} {b : Batch} {fresh : String} (member : se ∈ (ingestAs server db b now fresh).2.sessions)
    (different : se.serverId ≠ server) : se ∈ db.sessions := by
  have reported : ∀ (results : List TerminationResult) (db : Fleet),
      se ∈ (results.foldl (reportTermination server now) db).sessions → se ∈ db.sessions := by
    intro results
    induction results with
    | nil => exact fun db member => member
    | cons result rest ih =>
      intro db member
      have one := ih _ member
      simp only [reportTermination] at one
      split at one
      · refine update_other one (fun old picked => ?_) (fun _ => rfl) different
        simp only [Bool.and_eq_true, beq_iff_eq] at picked
        exact picked.1
      · exact one
  have stored : ∀ (events : List Event) (db : Fleet),
      se ∈ (events.foldl (storeEvent server now) db).sessions → se ∈ db.sessions := by
    intro events
    induction events with
    | nil => exact fun db member => member
    | cons e rest ih =>
      intro db member
      have one := ih _ member
      simp only [storeEvent] at one
      split at one
      · exact one
      · exact trackSession_other one different
  simp only [ingestAs, heartbeat] at member
  have before := stored _ _ (markLive_other member different)
  rw [(@ingestFirewall_frame server now _ fresh b).1, ingestTerminations_snd] at before
  have there := reported _ _ before
  exact there

end

def Truthful (health : Bytes) (dropped : Int) : Prop := coerce health = utf8 "ok" → dropped = 0

theorem collect_truthful (a : Agent) (c : Collector) (dir : LogDir) (now : Int) (attached stored : Bool) :
    ∃ health, (a.collect c dir now attached stored).phase = .collected health ∧
      Truthful health (a.collect c dir now attached stored).spool.cp.dropped := by
  cases found : a.spool.collect c dir now attached stored with
  | mk spool problem =>
    refine ⟨if problem.isSome then utf8 "audit_read_error" else if spool.cp.dropped > 0 then utf8 "collection_gap"
      else utf8 "ok", by simp only [Agent.collect, found], fun well => ?_⟩
    simp only [Agent.collect, found]
    split at well
    · rw [coerce_utf8] at well
      exact absurd well (by decide)
    · split at well
      · rw [coerce_utf8] at well
        exact absurd well (by decide)
      next lossless => exact congrArg Int.ofNat (Nat.eq_zero_of_not_pos lossless)

theorem batch_truthful {a : Agent} {health : Bytes} (truthful : Truthful health a.spool.cp.dropped)
    (canFirewall canAllowlist : Bool) (active : Option (List Bytes)) :
    Truthful (a.batch health canFirewall canAllowlist active).health (a.batch health canFirewall canAllowlist active).dropped := by
  intro well
  simp only [Agent.batch] at well ⊢
  split at well
  · rw [coerce_utf8] at well
    exact absurd well (by decide)
  · exact truthful well

section
variable {hash owner : String → String} {home : String} {w after : Deployment} {act : Act}

structure Honest (w : Deployment) : Prop where
  collected : ∀ health, w.agent.phase = .collected health → Truthful health w.agent.spool.cp.dropped
  sent : ∀ sent ∈ w.sent, Truthful sent.2.health sent.2.dropped

theorem Honest.agent (honest : Honest w) {agent : Agent} (silent : ∀ health, agent.phase ≠ .collected health) :
    Honest { w with agent } :=
  ⟨fun health phase => absurd phase (silent health), honest.sent⟩

theorem resume_silent (rest : Option Answered) (health : Bytes) : Agent.resume rest ≠ .collected health := by
  cases rest <;> simp [Agent.resume]

theorem Honest.step (honest : Honest w) (moved : Deployment.Step hash owner home w act after) : Honest after := by
  cases moved with
  | start canTerminate down =>
    refine honest.agent fun health phase => ?_
    simp only [Agent.start] at phase
    split at phase
    · cases phase
    · split at phase <;> cases phase
  | stop => exact honest.agent (by simp [Agent.stop])
  | collect c dir now attached stored idle =>
    obtain ⟨health, phase, truthful⟩ := collect_truthful w.agent c dir now attached stored
    refine ⟨fun other same => ?_, honest.sent⟩
    obtain rfl := Phase.collected.inj (phase.symm.trans same)
    exact truthful
  | wait ready => exact honest.agent (by simp [Agent.wait])
  | @beat token canFirewall canAllowlist active health ready own =>
    refine ⟨fun health phase => (by cases phase), fun sent member => ?_⟩
    rcases List.mem_append.mp member with old | new
    · exact honest.sent sent old
    · obtain rfl := List.mem_singleton.mp new
      exact batch_truthful (honest.collected health ready) canFirewall canAllowlist active
  | deliver => exact ⟨honest.collected, honest.sent⟩
  | receive response waiting arrived =>
    refine honest.agent fun health phase => ?_
    simp only [Agent.receive] at phase
    split at phase <;> cases phase
  | fail waiting =>
    refine honest.agent fun health phase => ?_
    simp only [Agent.fail] at phase
    split at phase <;> cases phase
  | @save stored p rest saving =>
    refine honest.agent fun health phase => ?_
    simp only [Agent.save] at phase
    split at phase
    · cases phase
    · exact resume_silent rest health phase
  | @apply outcome p rest applying =>
    refine honest.agent fun health phase => ?_
    cases outcome <;> exact resume_silent rest health phase
  | finish outcome stored answered => exact honest.agent (by simp [Agent.finish])
  | serve => exact ⟨honest.collected, honest.sent⟩

theorem honest_of_run {history : List (Transition Deployment Act)} (run : Run (deployment hash owner home) history w) :
    Honest w := by
  refine run.invariant Honest ?_ fun _ _ _ honest moved => honest.step moved
  rintro w ⟨-, ⟨limit, installed⟩, sent, -⟩
  constructor <;> simp [installed, Agent.installed, sent]

/-- The row of the agent's server and the marks of its sessions are those of the batch,
which the server stored and answered. -/
structure ReportedBy (hash : String → String) (home : String) (t : Transition Deployment Act) (b : Batch) (s : ServerRow)
    (db : Fleet) : Prop where
  delivered : ∃ request token fresh response, t.action = .deliver request s.lastSeen fresh true ∧
    t.before.sent[request]? = some (token, b) ∧
    (ingest hash t.before.db.toFleet token b.coerced s.lastSeen fresh true).1 = .ok response
  health : s.health = coerce b.health
  backlog : s.backlog = b.backlog
  dropped : s.dropped = b.dropped
  live : ∀ se ∈ db.sessions, se.serverId = home → se.live = true → se.ended = none ∧ se.id ∈ b.activeSessions.map coerce

structure Presence (hash : String → String) (home : String) (history : List (Transition Deployment Act)) (w : Deployment) : Prop where
  row : ∀ s ∈ w.db.servers, s.id = home →
    (s.health = utf8 "waiting" ∧ ∀ se ∈ w.db.sessions, se.serverId = home → se.live = false) ∨
      ∃ t ∈ history, ∃ b, ReportedBy hash home t b s w.db.toFleet
  known : ∀ se ∈ w.db.sessions, ∃ s ∈ w.db.servers, s.id = se.serverId

/-- A request that is not a batch of the agent's: its server's row keeps what it says,
or is new and says nothing yet. -/
structure Elsewhere (home : String) (db after : Fleet) : Prop where
  servers : ∀ s ∈ after.servers, s.id = home →
    (∃ old ∈ db.servers, old.id = home ∧ s.lastSeen = old.lastSeen ∧ s.health = old.health ∧ s.backlog = old.backlog ∧
      s.dropped = old.dropped) ∨ (s.health = utf8 "waiting" ∧ ∀ old ∈ db.servers, old.id ≠ home)
  sessions : ∀ se ∈ after.sessions, se.serverId = home → se ∈ db.sessions

theorem ServeEffect.elsewhere {db : Db} {now : Int} {request : Request} {after : Fleet}
    (effect : ServeEffect hash db now request after) (owned : TokensOwned owner db.toFleet)
    (foreign : ∀ token b fresh, request = .ingest token b fresh → owner (hash token) ≠ home) :
    Elsewhere home db.toFleet after := by
  have rows : ∀ {s : ServerRow}, s ∈ db.servers → s.id = home → ∃ old ∈ db.servers, old.id = home ∧
      s.lastSeen = old.lastSeen ∧ s.health = old.health ∧ s.backlog = old.backlog ∧ s.dropped = old.dropped :=
    fun member own => ⟨_, member, own, rfl, rfl, rfl, rfl⟩
  cases effect with
  | quiet => exact ⟨fun s member own => .inl (rows member own), fun se member _ => member⟩
  | @ingested token b fresh server known =>
    have different : server ≠ home := fun same => foreign token b fresh rfl ((owned.authenticate known).trans same)
    refine ⟨fun s member own => .inl ?_, fun se member own => ingestAs_other member (own ▸ different.symm)⟩
    rw [ingestAs_servers] at member
    obtain ⟨old, there, ⟨picked, rfl⟩ | ⟨-, rfl⟩⟩ := Rows.mem_update.mp member
    · have same : old.id = server := by simpa using picked
      exact absurd (same.symm.trans own) different
    · exact rows there own
  | requested done =>
    obtain ⟨username, rfl⟩ := done.stored
    exact ⟨fun s member own => .inl (rows member own), fun se member _ => member⟩
  | changed _ done =>
    obtain ⟨sessions, -, -, servers⟩ := done.frame
    exact ⟨fun s member own => .inl (rows (servers ▸ member) own), fun se member _ => sessions ▸ member⟩
  | @created who name id token fresh =>
    refine ⟨fun s member own => ?_, fun se member _ => member⟩
    rcases List.mem_append.mp member with old | new
    · exact .inl (rows old own)
    · obtain rfl := List.mem_singleton.mp new
      exact .inr ⟨rfl, fun old there same => (fresh old there).1 (same.trans own.symm)⟩
  | renamed =>
    refine ⟨fun s member own => .inl ?_, fun se member _ => member⟩
    obtain ⟨old, there, ⟨-, rfl⟩ | ⟨-, rfl⟩⟩ := Rows.mem_update.mp member
    · exact ⟨old, there, own, rfl, rfl, rfl, rfl⟩
    · exact rows there own
  | rotated done =>
    obtain ⟨accounts, who, -, rfl⟩ := done.stored
    refine ⟨fun s member own => .inl ?_, fun se member _ => member⟩
    obtain ⟨old, there, ⟨-, rfl⟩ | ⟨-, rfl⟩⟩ := Rows.mem_update.mp member
    · exact ⟨old, there, own, rfl, rfl, rfl, rfl⟩
    · exact rows there own

def Registered (db : Fleet) : Prop := ∀ se ∈ db.sessions, ∃ s ∈ db.servers, s.id = se.serverId

theorem ServeEffect.known {db : Db} {now : Int} {request : Request} {after : Fleet}
    (effect : ServeEffect hash db now request after) (known : Registered db.toFleet) : Registered after := by
  have updated : ∀ {selected : ServerRow → Bool} {change : ServerRow → ServerRow}, (∀ s, (change s).id = s.id) →
      ∀ {id : String}, (∃ s ∈ db.servers, s.id = id) → ∃ s ∈ Rows.update selected change db.servers, s.id = id := by
    rintro selected change kept id ⟨s, member, rfl⟩
    exact Rows.exists_update kept member
  intro se member
  cases effect with
  | quiet => exact known se member
  | @ingested token b fresh server authenticated =>
    rw [ingestAs_servers]
    have there : ∃ s ∈ db.servers, s.id = se.serverId := by
      by_cases own : se.serverId = server
      · obtain ⟨s, found, same⟩ := Option.map_eq_some_iff.mp authenticated
        exact ⟨s, List.mem_of_find?_eq_some found, same.trans own.symm⟩
      · exact known se (ingestAs_other member own)
    refine updated ?_ there
    exact fun _ => rfl
  | requested done =>
    obtain ⟨username, rfl⟩ := done.stored
    exact known se member
  | changed _ done =>
    obtain ⟨sessions, -, -, servers⟩ := done.frame
    rw [servers]
    exact known se (sessions ▸ member)
  | created =>
    obtain ⟨s, there, same⟩ := known se member
    exact ⟨s, List.mem_append_left _ there, same⟩
  | renamed =>
    refine updated ?_ (known se member)
    exact fun _ => rfl
  | rotated done =>
    obtain ⟨accounts, who, -, rfl⟩ := done.stored
    refine updated ?_ (known se member)
    exact fun _ => rfl

section
variable {history : List (Transition Deployment Act)} {t : Transition Deployment Act}

theorem Presence.later (presence : Presence hash home history w) (t : Transition Deployment Act) : Presence hash home (t :: history) w where
  row s member own := by
    rcases presence.row s member own with waiting | ⟨u, listed, b, reported⟩
    · exact .inl waiting
    · exact .inr ⟨u, List.mem_cons_of_mem _ listed, b, reported⟩
  known := presence.known

/-- Nothing changes for the server of the agent. -/
theorem Presence.elsewhere (presence : Presence hash home history w) {after : Deployment}
    (elsewhere : Elsewhere home w.db.toFleet after.db.toFleet) (known : Registered after.db.toFleet) :
    Presence hash home history after := by
  refine ⟨fun s member own => ?_, known⟩
  rcases elsewhere.servers s member own with ⟨old, there, same, seen, health, backlog, dropped⟩ | ⟨waiting, absent⟩
  · rcases presence.row old there same with ⟨waiting, quiet⟩ | ⟨t, listed, b, reported⟩
    · exact .inl ⟨health.trans waiting, fun se inside own => quiet se (elsewhere.sessions se inside own) own⟩
    · refine .inr ⟨t, listed, b, ?_, health.trans reported.health, backlog.trans reported.backlog,
        dropped.trans reported.dropped, fun se inside own => reported.live se (elsewhere.sessions se inside own) own⟩
      rw [seen]
      exact reported.delivered
  · refine .inl ⟨waiting, fun se inside own => ?_⟩
    obtain ⟨old, there, same⟩ := presence.known se (elsewhere.sessions se inside own)
    exact absurd (same.trans own) (absent old there)

/-- A batch of the agent that is accepted says everything anew. -/
theorem reported_by_delivery {request : Nat} {token : String} {b : Batch} {now : Int} {fresh : String}
    {response : IngestResponse} (action : t.action = .deliver request now fresh true)
    (there : t.before.sent[request]? = some (token, b))
    (answered : (ingest hash t.before.db.toFleet token b.coerced now fresh true).1 = .ok response) (db : Fleet) : ∀ s ∈ (ingestAs home db b.coerced.redacted now fresh).2.servers, s.id = home →
      ReportedBy hash home t b s (ingestAs home db b.coerced.redacted now fresh).2 := by
  intro s member own
  rw [ingestAs_servers] at member
  obtain ⟨old, inside, ⟨-, rfl⟩ | ⟨other, rfl⟩⟩ := Rows.mem_update.mp member
  · refine ⟨⟨request, token, fresh, response, action, there, answered⟩, rfl, rfl, rfl, fun se listed mine live => ?_⟩
    simp only [ingestAs, heartbeat] at listed
    exact markLive_live listed mine live
  · rw [own] at other
    simp at other

theorem presence_of_run (run : Run (deployment hash owner home) history w) : Presence hash home history w := by
  have valid := @delivery_valid hash owner home
  refine run.induct (Presence hash home) ?_ ?_
  · rintro w ⟨empty, -, -, -⟩
    have servers : w.db.servers = [] := congrArg Fleet.servers empty
    have sessions : w.db.sessions = [] := congrArg Fleet.sessions empty
    constructor <;> simp [servers, sessions]
  · intro history w act after run presence moved
    have owned := (valid run).tokens
    cases moved with
    | @deliver request now fresh stored token b there isFresh =>
      have effect := serve_effect hash w.db now stored (.ingest token b.coerced fresh)
      have known := effect.known presence.known
      have own := ((valid run).sent _ (List.mem_of_getElem? there)).1
      refine ⟨fun s member named => ?_, known⟩
      simp only [Deployment.deliver] at member ⊢
      rcases ingest_cases hash w.db.toFleet token b.coerced now fresh stored with ⟨problem, refused⟩ | ⟨server, found, served⟩
      · rw [refused] at member ⊢
        exact (presence.later _).row s member named
      · obtain rfl : server = home := (owned.authenticate found).symm.trans own
        have answered := congrArg Prod.fst served
        obtain rfl := ingest_stored answered
        rw [served] at member ⊢
        refine .inr ⟨_, List.mem_cons_self, b, ?_⟩
        exact reported_by_delivery rfl there answered w.db.toFleet s member named
    | @serve request now stored drawn admissible =>
      have effect := serve_effect hash w.db now stored request
      refine (presence.later _).elsewhere (effect.elsewhere owned ?_) (effect.known presence.known)
      rintro token b fresh rfl
      exact admissible.1
    | _ =>
      refine (presence.later _).elsewhere ?_ presence.known
      exact ⟨fun s member own => .inl ⟨s, member, own, rfl, rfl, rfl, rfl⟩, fun se member _ => member⟩

/-- A session that is shown as active was listed by the batch of the agent that was
accepted last, less than a minute ago, and the agent had lost nothing when it sent it. -/
theorem shown_active_reported (run : Run (deployment hash owner home) history w) {se : SessionRow} {server : ServerRow}
    (stored : se ∈ w.db.sessions) (mine : se.serverId = home) (known : server ∈ w.db.servers) (own : server.id = home)
    {now : Int} (shown : Views.sessionState now se server = .active) :
    se.ended = none ∧ server.dropped = 0 ∧ now - 60000 < server.lastSeen ∧
      ∃ t ∈ history, ∃ b, ReportedBy hash home t b server w.db.toFleet ∧ se.id ∈ b.activeSessions.map coerce ∧ b.dropped = 0 := by
  simp only [Views.sessionState] at shown
  split at shown
  · cases shown
  · split at shown
    next active =>
      simp only [Bool.and_eq_true, decide_eq_true_eq, beq_iff_eq] at active
      obtain ⟨⟨⟨live, recent⟩, -⟩, well⟩ := active
      rcases (presence_of_run run).row server known own with ⟨waiting, -⟩ | ⟨t, listed, b, reported⟩
      · rw [waiting] at well
        exact absurd well (by decide)
      · obtain ⟨running, inside⟩ := reported.live se stored mine live
        obtain ⟨request, token, fresh, response, action, sent, answered⟩ := reported.delivered
        obtain ⟨older, before, -⟩ := run.of_mem listed
        have lossless := (honest_of_run before).sent _ (List.mem_of_getElem? sent) (reported.health.symm.trans well)
        exact ⟨running, reported.dropped.trans lossless, recent, t, listed, b, reported, inside, lossless⟩
    next => cases shown

end

end

/-- A login that is still open when the batch is sent. -/
def openedLog : LogDir :=
  ⟨⟨"1:1", utf8 "type=USER_START msg=audit(1.000:1): pid=7 uid=0 auid=1000 ses=3 exe=\"/usr/sbin/sshd\" addr=10.0.0.1 res=success\n"⟩, []⟩

theorem shown_active_reported_login :
    ∃ (history : List (Transition Deployment Act)) (w : Deployment), ∃ se ∈ w.db.sessions, ∃ server ∈ w.db.servers,
      Views.sessionState 1030000 se server = .active ∧ server.dropped = 0 ∧
        ∃ t ∈ history, ∃ b, ReportedBy id "s1" t b server w.db.toFleet ∧ se.id ∈ b.activeSessions.map coerce ∧ b.dropped = 0 := by
  have fresh : Run (deployment id deliveryOwner "s1") [] deliveryStart := .start ⟨rfl, ⟨67108864, rfl⟩, rfl, rfl⟩
  have registered := fresh.next (.serve (.createServer ⟨"root", "super_admin"⟩ "web" "s1" "t1") 1000 true ⟨rfl, rfl⟩)
  have started := registered.next (.start true rfl)
  have read := started.next (.collect ⟨utf8 "b", true, id⟩ openedLog 1000000 true true rfl)
  have sent := read.next (.beat "t1" false false (some [utf8 "b:3"]) rfl rfl)
  have stored := sent.next (.deliver 0 1000000 "p1" true rfl ⟨by decide, by decide⟩)
  obtain ⟨history, w, run, sessions, servers⟩ : ∃ history w, Run (deployment id deliveryOwner "s1") history w ∧
      w.db.sessions = [⟨"s1", utf8 "b:3", [], utf8 "10.0.0.1", 1000, none, true⟩] ∧
      w.db.servers = [⟨"s1", "web", "t1", 1000, 1000000, utf8 "ok", 1, 0, false⟩] :=
    ⟨_, _, stored, by decide +kernel, by decide +kernel⟩
  have listed : (⟨"s1", utf8 "b:3", [], utf8 "10.0.0.1", 1000, none, true⟩ : SessionRow) ∈ w.db.sessions := by
    simp [sessions]
  have known : (⟨"s1", "web", "t1", 1000, 1000000, utf8 "ok", 1, 0, false⟩ : ServerRow) ∈ w.db.servers := by
    simp [servers]
  have shown : Views.sessionState 1030000 ⟨"s1", utf8 "b:3", [], utf8 "10.0.0.1", 1000, none, true⟩
      ⟨"s1", "web", "t1", 1000, 1000000, utf8 "ok", 1, 0, false⟩ = .active := by decide +kernel
  obtain ⟨-, lossless, -, reported⟩ := shown_active_reported run listed rfl known rfl shown
  exact ⟨history, w, _, listed, _, known, shown, lossless, reported⟩

end SshLogger
