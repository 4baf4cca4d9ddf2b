import SshLogger.Proofs.DecodedBatches
import SshLogger.Proofs.ControlReports
import SshLogger.Proofs.Delivery
import SshLogger.Proofs.ResponseLimit
import SshLogger.Library.Simulation

/-! The agent and the server with bytes between them refine the deployment in which
they exchange records: whatever a body or an answer is turned into on its way, the
receiver acts as on the record that was sent. -/

namespace SshLogger
open Library Library.Bytes Library.Json Library.History

theorem coerceKind_canonical {kind : Kind} (canonical : Kind.ofText (coerce kind.text) = Event.coerceKind kind) :
    Kind.ofText (coerce (Event.coerceKind kind).text) = Event.coerceKind (Event.coerceKind kind) := by
  cases kind with
  | unknown text =>
    simp only [Event.coerceKind, Kind.text, coerce_coerce] at canonical ⊢
    exact canonical
  | _ => exact canonical

theorem Event.Encodable.coerced {e : Event} (encodable : e.Encodable) : e.coerced.Encodable where
  time := encodable.time
  kind := coerceKind_canonical encodable.kind
  pid := encodable.pid
  ppid := encodable.ppid

theorem known_canonical {kind : Kind} (known : isKnownKind kind = true) :
    Kind.ofText (coerce kind.text) = Event.coerceKind kind := by
  cases kind with
  | unknown text => cases known
  | _ => decide +kernel

theorem parseRecord_range {line : Bytes} {r : Record} (parsed : parseRecord line = some r) :
    -2 ^ 63 ≤ r.time ∧ r.time < 2 ^ 63 := by
  rw [parseRecord_time parsed, stampTime]
  have low := @Int.le_bmod (parseIntSaturating ((r.id).takeWhile isDigit) * 1000 +
    parseIntSaturating (((((r.id).dropWhile isDigit).drop 1).takeWhile isDigit ++ utf8 "000").take 3)) (2 ^ 64) (by decide)
  have high := @Int.bmod_lt (parseIntSaturating ((r.id).takeWhile isDigit) * 1000 +
    parseIntSaturating (((((r.id).dropWhile isDigit).drop 1).takeWhile isDigit ++ utf8 "000").take 3)) (2 ^ 64) (by decide)
  omega

theorem eventsFor_encodable {rows : List Record} {boot : Bytes} {lookup : Bytes → Bytes} {ev : Event}
    (timed : ∀ r ∈ rows, -2 ^ 63 ≤ r.time ∧ r.time < 2 ^ 63) (made : ev ∈ eventsFor rows boot lookup) : ev.Encodable := by
  have traced := eventsFor_traced made
  obtain ⟨r, member, -, same⟩ := traced.named
  refine ⟨same ▸ timed r member, known_canonical traced.kind, fun pid found => ?_, fun ppid found => ?_⟩
  · have range := traced.pid pid found
    omega
  · have range := traced.ppid ppid found
    omega

theorem groupEvents_encodable {c : Collector} {cp next : Checkpoint} {dir : LogDir} {now : Int} {passed : List Group}
    (got : read (attach c cp dir).1 dir now = .ok (next, passed)) : ∀ ev ∈ groupEvents c passed, ev.Encodable := by
  intro ev made
  obtain ⟨g, listed, made⟩ := List.mem_flatMap.mp made
  refine eventsFor_encodable (fun r inside => ?_) made
  have passed_on : g.records ∈ passed.map Group.records := List.mem_map_of_mem listed
  rw [(read_settles got).1] at passed_on
  obtain ⟨id, -, same⟩ := List.mem_map.mp passed_on
  rw [← same] at inside
  obtain ⟨line, -, parsed⟩ := List.mem_filterMap.mp (List.mem_of_mem_filter inside)
  exact parseRecord_range parsed

/-- A call only adds the encodings of events of the log. -/
theorem collect_encodable {s : Spool} {c : Collector} {dir : LogDir} {now : Int} {attached stored : Bool} {row : QueueRow}
    (member : row ∈ (s.collect c dir now attached stored).1.db.queue) :
    row ∈ s.db.queue ∨ ∃ ev : Event, row.payload = marshal ev ∧ ev.Encodable := by
  have committed : ∀ {t : Spool} {cp : Checkpoint} {events : List Event}, t.db.queue = s.db.queue →
      (∀ ev ∈ events, ev.Encodable) → row ∈ (t.commit cp events true).db.queue →
        row ∈ s.db.queue ∨ ∃ ev : Event, row.payload = marshal ev ∧ ev.Encodable := by
    intro t cp events same encodable inside
    rcases mem_offerAll inside with old | ⟨ev, listed, rfl, -⟩
    · exact Or.inl (same ▸ old)
    · exact Or.inr ⟨ev, rfl, encodable ev listed⟩
  rcases collect_cases s c dir now attached stored with same | ⟨-, same⟩ | ⟨next, passed, got, commits⟩
  · exact Or.inl (same ▸ member)
  · exact committed rfl (by simp) (same ▸ member)
  · have encodable := groupEvents_encodable got
    rcases commits with same | same
    · exact committed rfl encodable (same ▸ member)
    · exact committed rfl encodable (same ▸ member)

theorem FirewallPolicy.Same.refl (p : FirewallPolicy) : p.Same p := ⟨rfl, rfl, rfl, .refl _, rfl, rfl, rfl⟩

theorem FirewallPolicy.Same.isValid {p q : FirewallPolicy} (same : p.Same q) : p.isValid = q.isValid := by
  obtain ⟨revision, mode, allowed, names, ports, protectedIPs, bans⟩ := p
  obtain ⟨rfl, rfl, rfl, perm, rfl, rfl, rfl⟩ := same
  have checked := @validate_names q names perm
  simp only [FirewallPolicy.isValid]
  rw [show (⟨q.revision, q.mode, q.allowed, names, q.ports, q.protectedIPs, q.bans⟩ : FirewallPolicy).validate = q.validate
    from checked]

abbrev SamePolicy : Option FirewallPolicy → Option FirewallPolicy → Prop := Option.Rel FirewallPolicy.Same

def Spool.withCache (s : Spool) (cache : Option FirewallPolicy) : Spool := { s with db := { s.db with firewallCache := cache } }

inductive Phase.Alike : Phase → Phase → Prop
  | down : Alike .down .down
  | idle : Alike .idle .idle
  | collected (health) : Alike (.collected health) (.collected health)
  | waiting (request events) : Alike (.waiting request events) (.waiting request events)
  | saving {p q} (rest) : p.Same q → Alike (.saving p rest) (.saving q rest)
  | applying {p q} (rest) : p.Same q → Alike (.applying p rest) (.applying q rest)
  | answered (rest) : Alike (.answered rest) (.answered rest)

/-- The same agent, the order of the names in its policies apart. -/
structure Agent.Alike (a b : Agent) : Prop where
  spool : a.spool = b.spool.withCache a.spool.db.firewallCache
  cache : SamePolicy a.spool.db.firewallCache b.spool.db.firewallCache
  table : SamePolicy a.table b.table
  canTerminate : a.canTerminate = b.canTerminate
  cached : SamePolicy a.cached b.cached
  firewallResult : a.firewallResult = b.firewallResult
  results : a.results = b.results
  phase : a.phase.Alike b.phase

section
variable {a b : Agent}

theorem resume_alike (rest : Option Answered) : (Agent.resume rest).Alike (Agent.resume rest) := by
  cases rest with
  | none => exact .idle
  | some rest => exact .answered rest

theorem Agent.Alike.refl (a : Agent) : a.Alike a := by
  have policy : ∀ p : Option FirewallPolicy, SamePolicy p p := by
    intro p
    cases p with
    | none => exact .none
    | some p => exact .some (.refl p)
  refine ⟨rfl, policy _, policy _, rfl, policy _, rfl, rfl, ?_⟩
  cases a.phase with
  | down => exact .down
  | idle => exact .idle
  | collected health => exact .collected health
  | waiting request events => exact .waiting request events
  | saving p rest => exact .saving rest (.refl p)
  | applying p rest => exact .applying rest (.refl p)
  | answered rest => exact .answered rest

/-- What a spool does with the log does not depend on its cache. -/
theorem collect_withCache (s : Spool) (cache : Option FirewallPolicy) (c : Collector) (dir : LogDir) (now : Int)
    (attached stored : Bool) : (s.withCache cache).collect c dir now attached stored =
      ((s.collect c dir now attached stored).1.withCache cache, (s.collect c dir now attached stored).2) := by
  have committed : ∀ (s : Spool) (cp : Checkpoint) (events : List Event) (stored : Bool),
      (s.withCache cache).commit cp events stored = (s.commit cp events stored).withCache cache := by
    intro s cp events stored
    cases stored <;> rfl
  have cp : (s.withCache cache).cp = s.cp := rfl
  cases fresh : (attach c s.cp dir).2 <;> cases attached <;> cases got : read (attach c s.cp dir).1 dir now <;>
    simp [Spool.collect, cp, fresh, got, committed]

theorem Agent.Alike.collect (alike : a.Alike b) (c : Collector) (dir : LogDir) (now : Int) (attached stored : Bool) :
    (a.collect c dir now attached stored).Alike (b.collect c dir now attached stored) := by
  have same := collect_withCache b.spool a.spool.db.firewallCache c dir now attached stored
  rw [← alike.spool] at same
  have kept : ∀ s : Spool, (s.collect c dir now attached stored).1.db.firewallCache = s.db.firewallCache := by
    intro s
    rcases collect_cases s c dir now attached stored with same | ⟨-, same⟩ | ⟨next, passed, -, same | same⟩ <;> rw [same] <;> rfl
  have health : (a.collect c dir now attached stored).phase = (b.collect c dir now attached stored).phase := by
    simp only [Agent.collect, same]
    rfl
  refine ⟨?_, ?_, alike.table, alike.canTerminate, alike.cached, alike.firewallResult, alike.results, ?_⟩
  · simp only [Agent.collect, same]
    rfl
  · simp only [Agent.collect, kept]
    exact alike.cache
  · rw [health]
    exact .collected _

theorem Agent.Alike.start (alike : a.Alike b) (canTerminate : Bool) : (a.start canTerminate).Alike (b.start canTerminate) := by
  obtain ⟨⟨⟨checkpoint, queue, cacheA⟩, cp, limit⟩, tableA, canA, cachedA, resultA, resultsA, phaseA⟩ := a
  obtain ⟨⟨⟨checkpoint', queue', cacheB⟩, cp', limit'⟩, tableB, canB, cachedB, resultB, resultsB, phaseB⟩ := b
  obtain ⟨spool, cache, table, rfl, cached, rfl, rfl, phase⟩ := alike
  simp only [Spool.withCache, Spool.mk.injEq, SpoolDb.mk.injEq] at spool
  obtain ⟨⟨rfl, rfl, -⟩, rfl, rfl⟩ := spool
  cases cache with
  | none => exact ⟨rfl, .none, table, rfl, .none, rfl, rfl, .idle⟩
  | @some p q same =>
    have valid := same.isValid
    simp only [Agent.start, openSpool, valid]
    split
    · exact ⟨rfl, .some same, table, rfl, .some same, rfl, rfl, .saving none same⟩
    · exact ⟨rfl, .some same, table, rfl, cached, rfl, rfl, .down⟩

/-- Only the phase and the variables outside the spool change. -/
theorem Agent.Alike.moved {phase other : Phase} (alike : a.Alike b) (moved : phase.Alike other) :
    Agent.Alike { a with phase } { b with phase := other } :=
  ⟨alike.spool, alike.cache, alike.table, alike.canTerminate, alike.cached, alike.firewallResult, alike.results, moved⟩

theorem Agent.Alike.fail (alike : a.Alike b) : a.fail.Alike b.fail := by
  obtain ⟨spoolA, tableA, canA, cachedA, resultA, resultsA, phaseA⟩ := a
  obtain ⟨spoolB, tableB, canB, cachedB, resultB, resultsB, phaseB⟩ := b
  have cached : SamePolicy cachedA cachedB := alike.cached
  cases cached with
  | none => exact alike.moved .idle
  | some same => exact alike.moved (.saving none same)

theorem Agent.Alike.receive {read response : IngestResponse} (alike : a.Alike b) (same : read.Same response)
    (events : List Event) : (a.receive events read).Alike (b.receive events response) := by
  obtain ⟨firewall, accepted, terminations⟩ := read
  obtain ⟨firewall', accepted', terminations'⟩ := response
  obtain ⟨policy, -, commands⟩ := same
  obtain rfl : terminations = terminations' := commands
  cases policy with
  | none => exact alike.moved (.answered _)
  | some same => exact ⟨alike.spool, alike.cache, alike.table, alike.canTerminate, .some same, alike.firewallResult,
      alike.results, .saving _ same⟩

theorem Agent.Alike.save {p q : FirewallPolicy} (alike : a.Alike b) (same : p.Same q) (rest : Option Answered)
    (stored : Bool) : (a.save p rest stored).Alike (b.save q rest stored) := by
  have valid := same.isValid
  have spool := alike.spool
  simp only [Agent.save, valid]
  split
  · refine ⟨?_, .some same, alike.table, alike.canTerminate, alike.cached, alike.firewallResult, alike.results,
      .applying rest same⟩
    rw [spool]
    rfl
  · refine ⟨alike.spool, alike.cache, alike.table, alike.canTerminate, alike.cached, ?_, alike.results, resume_alike rest⟩
    rw [same.revision]

theorem Agent.Alike.apply {p q : FirewallPolicy} (alike : a.Alike b) (same : p.Same q) (rest : Option Answered)
    (outcome : NftOutcome) : (a.apply p rest outcome).Alike (b.apply q rest outcome) := by
  have revision := same.revision
  cases outcome with
  | loaded =>
    refine ⟨alike.spool, alike.cache, .some same, alike.canTerminate, alike.cached, ?_, alike.results, resume_alike rest⟩
    simp only [Agent.apply, revision]
  | failed message =>
    refine ⟨alike.spool, alike.cache, alike.table, alike.canTerminate, alike.cached, ?_, alike.results, resume_alike rest⟩
    simp only [Agent.apply, revision]
  | killed message =>
    refine ⟨alike.spool, alike.cache, .some same, alike.canTerminate, alike.cached, ?_, alike.results, resume_alike rest⟩
    simp only [Agent.apply, revision]

theorem Agent.Alike.finish (alike : a.Alike b) (rest : Answered) (outcome : Termination → Bytes) (stored : Bool) :
    (a.finish rest outcome stored).Alike (b.finish rest outcome stored) := by
  have acked : a.spool.ack rest.events stored = (b.spool.ack rest.events stored).withCache a.spool.db.firewallCache := by
    rw [alike.spool]
    cases stored <;> rfl
  have kept : ∀ s : Spool, (s.ack rest.events stored).db.firewallCache = s.db.firewallCache := by
    intro s
    cases stored <;> rfl
  refine ⟨?_, ?_, alike.table, alike.canTerminate, alike.cached, alike.firewallResult, ?_, .idle⟩
  · simp only [Agent.finish, kept]
    exact acked
  · simp only [Agent.finish, kept]
    exact alike.cache
  · simp only [Agent.finish, alike.canTerminate]

theorem Agent.Alike.batch (alike : a.Alike b) (health : Bytes) (canFirewall canAllowlist : Bool)
    (active : Option (List Bytes)) : a.batch health canFirewall canAllowlist active = b.batch health canFirewall canAllowlist active := by
  have events : a.spool.batch = b.spool.batch := by
    rw [alike.spool]
    rfl
  have cp : a.spool.cp = b.spool.cp := by
    rw [alike.spool]
    rfl
  simp only [Agent.batch, alike.firewallResult, alike.canTerminate, alike.results, events, cp]

end

theorem decodeBatch_decoded {body : Bytes} {b : Batch} (accepted : decodeBatch body = .ok b) : b.IsDecoded :=
  fun e listed => ((decodeBatch_wellformed accepted).events e listed).sessionId

theorem checkEvents_status {now : Int} {events : List Event} {problem : Problem}
    (refused : checkEvents now events = .error problem) : problem.1 = 400 := by
  induction events with
  | nil => cases refused
  | cons e rest ih =>
    rw [checkEvents_cons] at refused
    split at refused
    next other found =>
      obtain rfl := Except.error.inj refused
      simp only [checkEvent] at found
      split at found
      · obtain rfl := Except.error.inj found
        rfl
      · split at found
        · obtain rfl := Except.error.inj found
          rfl
        · cases found
    next =>
      split at refused
      next other found =>
        obtain rfl := Except.error.inj refused
        exact ih found
      next => cases refused

theorem checkBatch_status {now : Int} {b : Batch} {problem : Problem} (refused : checkBatch now b = .error problem) :
    problem.1 = 400 := by
  rw [checkBatch] at refused
  split at refused
  · obtain rfl := Except.error.inj refused
    rfl
  · split at refused
    · obtain rfl := Except.error.inj refused
      rfl
    · split at refused
      · obtain rfl := Except.error.inj refused
        rfl
      · split at refused
        next other found =>
          obtain rfl := Except.error.inj refused
          exact checkEvents_status found
        next =>
          split at refused
          · obtain rfl := Except.error.inj refused
            rfl
          · cases refused

section
variable {hash : String → String} {db : Fleet} {token : String} {now : Int} {fresh : String} {stored : Bool}

theorem ingest_status {b : Batch} {problem : Problem}
    (refused : (ingest hash db token b now fresh stored).1 = .error problem) : problem.1 ≠ 200 := by
  have server : ∀ status : Nat, problem.1 = status → status ≠ 200 → problem.1 ≠ 200 := fun _ same => same ▸ id
  simp only [ingest] at refused
  split at refused
  · exact server 401 (congrArg Prod.fst (Except.error.inj refused).symm) (by decide)
  · split at refused
    next other found =>
      obtain rfl := Except.error.inj refused
      exact server 400 (checkBatch_status found) (by decide)
    next checked found =>
      simp only [transaction, storeBatch] at refused
      cases stored with
      | false => exact server 503 (congrArg Prod.fst (Except.error.inj refused).symm) (by decide)
      | true =>
        cases known : authenticate db (hash token) with
        | none =>
          simp only [known] at refused
          exact server 401 (congrArg Prod.fst (Except.error.inj refused).symm) (by decide)
        | some server =>
          simp only [known] at refused
          cases refused

theorem decodeBatch_status {body : Bytes} {problem : Problem} (refused : decodeBatch body = .error problem) :
    problem.1 = 400 := by
  simp only [decodeBatch, decode] at refused
  split at refused
  · obtain rfl := Except.error.inj refused
    rfl
  · split at refused
    · obtain rfl := Except.error.inj refused
      rfl
    · split at refused
      · cases refused
      · obtain rfl := Except.error.inj refused
        rfl

/-- The token is looked at before the body and again after it. -/
theorem ingestBody_decoded {body : Bytes} {b : Batch} (accepted : decodeBatch body = .ok b) :
    ingestBody hash db token body now fresh stored = ingest hash db token b now fresh stored := by
  simp only [ingestBody, accepted]
  split
  next absent =>
    rw [ingest, if_pos absent]
  · rfl

theorem ingestBody_refused {body : Bytes} {problem : Problem} (refused : decodeBatch body = .error problem) :
    ∃ answered, ingestBody hash db token body now fresh stored = (.error answered, db) ∧ answered.1 ≠ 200 := by
  simp only [ingestBody, refused]
  split
  · exact ⟨_, rfl, by decide⟩
  · refine ⟨problem, rfl, ?_⟩
    rw [decodeBatch_status refused]
    decide

/-- Only the answer to an accepted batch is of use to the agent. -/
theorem fail_unusable {problem : Problem} (status : problem.1 ≠ 200) (read : IngestResponse) :
    sendBatch (fail problem).1 (fail problem).2 ≠ .ok read := by
  have other : (problem.1 != 200) = true := bne_iff_ne.mpr status
  rw [fail, sendBatch, if_pos other]
  simp

/-- What the agent reads is the answer to an accepted batch, the order of the names apart. -/
theorem reply_read {b : Batch} {nils : NilLists} {read : IngestResponse} {db : Db} (sendable : Sendable db.toFleet)
    (decoded : b.IsDecoded) (drawn : IsID fresh)
    (usable : sendBatch (reply nils (ingest hash db.toFleet token b now fresh stored).1).1
      (reply nils (ingest hash db.toFleet token b now fresh stored).1).2 = .ok read) :
    ∃ response, (ingest hash db.toFleet token b now fresh stored).1 = .ok response ∧ read.Same response := by
  cases outcome : (ingest hash db.toFleet token b now fresh stored).1 with
  | error problem =>
    rw [outcome] at usable
    exact absurd usable (fail_unusable (ingest_status outcome) read)
  | ok response =>
    rw [outcome] at usable
    obtain ⟨other, whole, same⟩ := (sendable.answer decoded drawn outcome).sendBatch nils
    obtain rfl := Except.ok.inj (whole.symm.trans usable)
    exact ⟨response, rfl, same⟩

end

/-- A body that is not too long is decoded as the batch that was sent. -/
structure Conveys (request : String × Bytes) (original : String × Batch) : Prop where
  token : request.1 = original.1
  body : request.2.length ≤ 2 <<< 20 → decodeBatch request.2 = .ok original.2.coerced

theorem Conveys.decoded {request : String × Bytes} {original : String × Batch} (conveys : Conveys request original) {b : Batch}
    (accepted : decodeBatch request.2 = .ok b) : b = original.2.coerced :=
  Except.ok.inj (accepted.symm.trans (conveys.body (decodeBatch_strict accepted).1))

def QueueEncodable (a : Agent) : Prop := ∀ row ∈ a.spool.db.queue, ∃ ev : Event, row.payload = marshal ev ∧ ev.Encodable

/-- The two systems hold the same, and every usable answer is that to a batch. -/
structure Mirrors (w : Wired) (d : Deployment) : Prop where
  db : w.db = d.db
  agent : w.agent.Alike d.agent
  drawn : w.drawn = d.drawn
  sent : List.Forall₂ Conveys w.sent d.sent
  answers : ∀ request answered, (request, answered) ∈ w.answers → ∀ read, sendBatch answered.1 answered.2 = .ok read →
    ∃ response, (request, response) ∈ d.responses ∧ read.Same response
  sendable : Sendable w.db.toFleet
  queue : QueueEncodable w.agent

/-- What is assumed of a step: random ids are 24 bytes, the clock is far from the end
of its range, and the counters of the agent are 64-bit integers. -/
def WireAct.IsGenuine (w : Wired) : WireAct → Prop
  | .beat _ _ _ _ => w.agent.spool.cp.dropped < 2 ^ 63 ∧ w.agent.spool.db.queue.length < 2 ^ 63
  | .deliver _ _ fresh _ _ => IsID fresh
  | .post _ _ _ fresh _ => IsID fresh
  | .serve request now _ => ∀ cookieHash server session id, request = .terminateSession cookieHash server session id →
      IsID id ∧ -2 ^ 63 ≤ now + 30000 ∧ now + 30000 < 2 ^ 63
  | _ => True

section
variable {hash owner : String → String} {home : String} {w after : Wired} {d : Deployment}

theorem Mirrors.moved (same : Mirrors w d) {one other : Agent} (alike : one.Alike other)
    (queue : ∀ row ∈ one.spool.db.queue, row ∈ w.agent.spool.db.queue ∨ ∃ ev : Event, row.payload = marshal ev ∧ ev.Encodable) :
    Mirrors { w with agent := one } { d with agent := other } :=
  { same with
    agent := alike
    queue := fun row member => (queue row member).elim (same.queue row) id }

theorem Mirrors.batch_encodable (same : Mirrors w d) {health : Bytes} {canFirewall canAllowlist : Bool}
    {active : Option (List Bytes)} (dropped : w.agent.spool.cp.dropped < 2 ^ 63) (backlog : w.agent.spool.db.queue.length < 2 ^ 63) :
    (w.agent.batch health canFirewall canAllowlist active).Encodable := by
  refine ⟨?_, ?_, ?_⟩
  · intro e listed
    obtain ⟨row, member, rfl⟩ := Spool.mem_batch listed
    obtain ⟨ev, payload, encodable⟩ := same.queue row member
    rw [payload]
    exact encodable.coerced
  · have count : (w.agent.batch health canFirewall canAllowlist active).backlog = (w.agent.spool.db.queue.length : Int) := rfl
    omega
  · have count : (w.agent.batch health canFirewall canAllowlist active).dropped = (w.agent.spool.cp.dropped : Int) := rfl
    omega

/-- A request conveys the batch of the agent. -/
theorem Mirrors.beat (same : Mirrors w d) (token : String) {health : Bytes} {canFirewall canAllowlist : Bool}
    {active : Option (List Bytes)} (dropped : w.agent.spool.cp.dropped < 2 ^ 63) (backlog : w.agent.spool.db.queue.length < 2 ^ 63) :
    Mirrors
      { w with
        sent := w.sent ++ [(token, (w.agent.batch health canFirewall canAllowlist active).json active)]
        agent := { w.agent with phase := .waiting w.sent.length w.agent.spool.batch.1 } }
      { d with
        sent := d.sent ++ [(token, d.agent.batch health canFirewall canAllowlist active)]
        agent := { d.agent with phase := .waiting d.sent.length d.agent.spool.batch.1 } } := by
  have encodable := @Mirrors.batch_encodable w d same health canFirewall canAllowlist active dropped backlog
  have batch := same.agent.batch health canFirewall canAllowlist active
  have events : w.agent.spool.batch = d.agent.spool.batch := by
    rw [same.agent.spool]
    rfl
  have conveys : Conveys (token, (w.agent.batch health canFirewall canAllowlist active).json active)
      (token, d.agent.batch health canFirewall canAllowlist active) := by
    refine ⟨rfl, fun short => ?_⟩
    have decoded := decodeBatch_json encodable rfl short
    rwa [batch] at decoded ⊢
  refine { same with agent := ?_, sent := List.rel_append same.sent (.cons conveys .nil) }
  rw [same.sent.length_eq, events]
  exact same.agent.moved (.waiting _ _)

theorem Mirrors.served (same : Mirrors w d) {request : Request} {now : Int} {stored : Bool} {drawn : List String}
    (sendable : Sendable (w.db.serve hash now stored request).toFleet) :
    Mirrors { w with db := w.db.serve hash now stored request, drawn }
      { d with db := d.db.serve hash now stored request, drawn } :=
  { same with
    db := congrArg (fun db => Db.serve hash db now stored request) same.db
    drawn := rfl
    sendable }

theorem Sendable.ingested {db : Db} {token : String} {b : Batch} {fresh : String} {now : Int} {stored : Bool}
    (sendable : Sendable db.toFleet) (decoded : b.IsDecoded) (drawn : IsID fresh) :
    Sendable (db.serve hash now stored (.ingest token b fresh)).toFleet := by
  refine sendable.serve (by simp) ?_
  rintro _ _ _ ⟨⟩
  exact ⟨decoded, drawn⟩

theorem Mirrors.deliver_refused (same : Mirrors w d) {request : Nat} {token : String} {body : Bytes} {now : Int}
    {fresh : String} {stored : Bool} {nils : NilLists} {problem : Problem} (refused : decodeBatch body = .error problem) :
    Mirrors (w.deliver hash request token body now fresh stored nils) d := by
  obtain ⟨answered, outcome, status⟩ := @ingestBody_refused hash w.db.toFleet token now fresh stored _ _ refused
  simp only [Wired.deliver, outcome, drawFor, refused]
  refine { same with answers := ?_ }
  intro n reply member read usable
  rcases List.mem_append.mp member with old | new
  · exact same.answers n reply old read usable
  · obtain ⟨rfl, rfl⟩ := Prod.mk.inj (List.mem_singleton.mp new)
    exact absurd usable (fail_unusable status read)

theorem Mirrors.deliver (same : Mirrors w d) {request : Nat} {token : String} {body : Bytes} {original : Batch} {now : Int}
    {fresh : String} {stored : Bool} {nils : NilLists} (accepted : decodeBatch body = .ok original.coerced) (drawn : IsID fresh) :
    Mirrors (w.deliver hash request token body now fresh stored nils)
      (d.deliver hash request token original now fresh stored) := by
  have decoded := decodeBatch_decoded accepted
  have served := @Mirrors.served hash w d same (.ingest token original.coerced fresh) now stored (fresh :: w.drawn)
    (same.sendable.ingested decoded drawn)
  simp only [Wired.deliver, Deployment.deliver, ingestBody_decoded accepted, drawFor, accepted]
  rw [← same.db, ← same.drawn]
  rw [← same.db] at served
  refine { served with answers := ?_ }
  intro n answered member read usable
  rcases List.mem_append.mp member with old | new
  · obtain ⟨response, listed, same⟩ := same.answers n answered old read usable
    refine ⟨response, ?_, same⟩
    cases (ingest hash w.db.toFleet token original.coerced now fresh stored).1 with
    | error problem => exact listed
    | ok other => exact List.mem_append_left _ listed
  · obtain ⟨rfl, rfl⟩ := Prod.mk.inj (List.mem_singleton.mp new)
    obtain ⟨response, outcome, same⟩ := reply_read same.sendable decoded drawn usable
    refine ⟨response, ?_, same⟩
    rw [outcome]
    exact List.mem_append_right _ List.mem_cons_self

theorem Mirrors.post (same : Mirrors w d) {token : String} {body : Bytes} {b : Batch} {now : Int} {fresh : String}
    {stored : Bool} (accepted : decodeBatch body = .ok b) (drawn : IsID fresh) :
    Mirrors (w.post hash token body now fresh stored)
      { d with db := d.db.serve hash now stored (.ingest token b fresh), drawn := fresh :: d.drawn } := by
  have served := @Mirrors.served hash w d same (.ingest token b fresh) now stored (fresh :: w.drawn)
    (same.sendable.ingested (decodeBatch_decoded accepted) drawn)
  simp only [Wired.post, ingestBody_decoded accepted, drawFor, accepted]
  rwa [same.drawn] at served ⊢

theorem Mirrors.post_refused (same : Mirrors w d) {token : String} {body : Bytes} {now : Int} {fresh : String}
    {stored : Bool} {problem : Problem} (refused : decodeBatch body = .error problem) :
    Mirrors (w.post hash token body now fresh stored) d := by
  obtain ⟨answered, outcome, -⟩ := @ingestBody_refused hash w.db.toFleet token now fresh stored _ _ refused
  simp only [Wired.post, outcome, drawFor, refused]
  exact same

theorem Phase.Alike.eq {one other : Phase} (alike : one.Alike other)
    (settled : ∀ p rest, one ≠ .saving p rest ∧ one ≠ .applying p rest) : other = one := by
  cases alike with
  | saving rest => exact absurd rfl (settled _ _).1
  | applying rest => exact absurd rfl (settled _ _).2
  | _ => rfl

theorem Phase.Alike.of_saving {p : FirewallPolicy} {rest : Option Answered} {other : Phase}
    (alike : (Phase.saving p rest).Alike other) : ∃ q, p.Same q ∧ other = .saving q rest := by
  cases alike with
  | saving _ same => exact ⟨_, same, rfl⟩

theorem Phase.Alike.of_applying {p : FirewallPolicy} {rest : Option Answered} {other : Phase}
    (alike : (Phase.applying p rest).Alike other) : ∃ q, p.Same q ∧ other = .applying q rest := by
  cases alike with
  | applying _ same => exact ⟨_, same, rfl⟩

theorem Mirrors.phase (same : Mirrors w d) {phase : Phase} (stands : w.agent.phase = phase)
    (settled : ∀ p rest, phase ≠ .saving p rest ∧ phase ≠ .applying p rest) : d.agent.phase = phase := by
  have alike := same.agent.phase
  rw [stands] at alike
  exact alike.eq settled

theorem Mirrors.step {act : WireAct} (same : Mirrors w d) (genuine : act.IsGenuine w)
    (moved : Wired.Step hash owner home w act after) :
    Mirrors after d ∨ ∃ act next, Deployment.Step hash owner home d act next ∧ Mirrors after next := by
  cases moved with
  | start canTerminate down =>
    refine .inr ⟨_, _, .start canTerminate (same.phase down (by simp)), same.moved (same.agent.start canTerminate) ?_⟩
    exact fun row member => .inl (Agent.start_spool w.agent canTerminate ▸ member)
  | stop => exact .inr ⟨_, _, .stop, same.moved (same.agent.moved .down) fun row => .inl⟩
  | collect c dir now attached stored idle =>
    refine .inr ⟨_, _, .collect c dir now attached stored (same.phase idle (by simp)), ?_⟩
    exact same.moved (same.agent.collect c dir now attached stored) fun row member => collect_encodable member
  | wait ready =>
    exact .inr ⟨_, _, .wait (same.phase ready (by simp)), same.moved (same.agent.moved .idle) fun row => .inl⟩
  | beat token canFirewall canAllowlist active ready own =>
    exact .inr ⟨_, _, .beat token canFirewall canAllowlist active (same.phase ready (by simp)) own,
      same.beat token genuine.1 genuine.2⟩
  | @deliver request now fresh stored nils token body there isFresh =>
    cases accepted : decodeBatch body with
    | error problem => exact .inl (same.deliver_refused accepted)
    | ok b =>
      obtain ⟨inside, listed⟩ := List.getElem?_eq_some_iff.mp there
      have conveys := same.sent.get inside (same.sent.length_eq ▸ inside)
      have sent : w.sent.get ⟨request, inside⟩ = (token, body) := listed
      rw [sent] at conveys
      obtain rfl := conveys.decoded accepted
      refine .inr ⟨_, _, .deliver request now fresh stored ?_ (same.drawn ▸ isFresh), same.deliver accepted genuine⟩
      have original := List.getElem?_eq_getElem (same.sent.length_eq ▸ inside : request < d.sent.length)
      rw [original]
      exact congrArg some (Prod.ext conveys.token.symm rfl)
  | @receive answered request events waiting arrived =>
    cases usable : sendBatch answered.1 answered.2 with
    | error problem =>
      have failed : w.agent.receiveAnswer events answered = w.agent.fail := by simp only [Agent.receiveAnswer, usable]
      rw [failed]
      refine .inr ⟨_, _, .fail (same.phase waiting (by simp)), same.moved same.agent.fail ?_⟩
      exact fun row member => .inl (w.agent.fail_frame.1 ▸ member)
    | ok read =>
      obtain ⟨response, listed, alike⟩ := same.answers request answered arrived read usable
      have received : w.agent.receiveAnswer events answered = w.agent.receive events read := by
        simp only [Agent.receiveAnswer, usable]
      rw [received]
      refine .inr ⟨_, _, .receive response (same.phase waiting (by simp)) listed,
        same.moved (same.agent.receive alike events) ?_⟩
      exact fun row member => .inl ((w.agent.receive_frame events read).1 ▸ member)
  | fail waiting =>
    refine .inr ⟨_, _, .fail (same.phase waiting (by simp)), same.moved same.agent.fail ?_⟩
    exact fun row member => .inl (w.agent.fail_frame.1 ▸ member)
  | @save stored p rest saving =>
    have alike := same.agent.phase
    rw [saving] at alike
    obtain ⟨q, one, other⟩ := alike.of_saving
    refine .inr ⟨_, _, .save stored other, same.moved (same.agent.save one rest stored) ?_⟩
    exact fun row member => .inl ((w.agent.save_frame p rest stored).1 ▸ member)
  | @apply outcome p rest applying =>
    have alike := same.agent.phase
    rw [applying] at alike
    obtain ⟨q, one, other⟩ := alike.of_applying
    refine .inr ⟨_, _, .apply outcome other, same.moved (same.agent.apply one rest outcome) ?_⟩
    exact fun row member => .inl ((w.agent.apply_frame p rest outcome).1 ▸ member)
  | @finish outcome stored rest answered =>
    refine .inr ⟨_, _, .finish outcome stored (same.phase answered (by simp)),
      same.moved (same.agent.finish rest outcome stored) ?_⟩
    exact fun row member => .inl (Spool.of_mem_ack member)
  | @post token body now fresh stored other isFresh =>
    cases accepted : decodeBatch body with
    | error problem => exact .inl (same.post_refused accepted)
    | ok b => exact .inr ⟨_, _, .serve (.ingest token b fresh) now stored ⟨other, same.drawn ▸ isFresh, rfl⟩,
        same.post accepted genuine⟩
  | @serve request now stored drawn other admissible =>
    have sendable : Sendable (w.db.serve hash now stored request).toFleet := by
      cases request with
      | terminateSession cookieHash server session id =>
        obtain ⟨fresh, clock⟩ := genuine _ _ _ _ rfl
        exact same.sendable.terminate fresh clock
      | ingest token b fresh => exact absurd rfl (other token b fresh)
      | _ => exact same.sendable.serve (by simp) (by simp)
    exact .inr ⟨_, _, .serve request now stored (same.drawn ▸ admissible), same.served sendable⟩

end

def wireSimulation (hash owner : String → String) (home : String) :
    Simulation (wired hash owner home) (deployment hash owner home) (fun w act => WireAct.IsGenuine w act) where
  related := Mirrors
  initial w := by
    rintro ⟨empty, installed, sent, answers⟩
    refine ⟨⟨w.db, w.agent, [], [], w.drawn⟩, ⟨empty, installed, rfl, rfl⟩, rfl, .refl _, rfl, ?_, ?_, ?_, ?_⟩
    · rw [sent]
      exact .nil
    · simp [answers]
    · rw [empty]
      exact .initial
    · obtain ⟨limit, same⟩ := installed
      simp [QueueEncodable, same, Agent.installed, openSpool]
  step same genuine moved := same.step genuine moved

section
variable {hash owner : String → String} {home : String} {w : Wired}

/-- Whatever bytes go back and forth, the agent and the server act as if they had
exchanged the records themselves. -/
theorem wired_refines_deployment {history : List (Transition Wired WireAct)} (run : Run (wired hash owner home) history w)
    (genuine : ∀ t ∈ history, t.action.IsGenuine t.before) :
    ∃ past d, Run (deployment hash owner home) past d ∧ Mirrors w d :=
  (wireSimulation hash owner home).run run genuine

/-- Over bytes, too, an event that was queued stays queued until the server's table
holds its id, and the table holds no id twice. -/
theorem wired_delivers {history : List (Transition Wired WireAct)} (run : Run (wired hash owner home) history w)
    (genuine : ∀ t ∈ history, t.action.IsGenuine t.before) :
    (∀ t ∈ history, ∀ row ∈ t.after.agent.spool.db.queue,
      row ∈ w.agent.spool.db.queue ∨ Stored home w.db.toFleet row.id) ∧ Rows.Unique EventRow.key w.db.events := by
  refine ⟨fun t member row queued => ?_, ?_⟩
  · obtain ⟨later, older, rfl⟩ := List.append_of_mem member
    have agree : ∀ {w : Wired} {d : Deployment}, Mirrors w d →
        ((row ∈ w.agent.spool.db.queue ∨ Stored home w.db.toFleet row.id) ↔
          (row ∈ d.agent.spool.db.queue ∨ Stored home d.db.toFleet row.id)) := by
      intro w d same
      have queue : w.agent.spool.db.queue = d.agent.spool.db.queue := by
        rw [same.agent.spool]
        rfl
      rw [queue, same.db]
    exact @Simulation.persists _ _ _ _ _ _ _ (wireSimulation hash owner home) (DeliveryValid owner hash home)
      (fun run => delivery_valid run) (fun w => row ∈ w.agent.spool.db.queue ∨ Stored home w.db.toFleet row.id)
      (fun d => row ∈ d.agent.spool.db.queue ∨ Stored home d.db.toFleet row.id) agree
      (fun valid moved held => queued_or_stored valid moved held) _ _ _ _ run genuine (Or.inl queued)
  · obtain ⟨d, same, valid⟩ := (wireSimulation hash owner home).invariant (fun run => delivery_valid run) run genuine
    rw [same.db]
    exact valid.unique

end

/-- A login is read, sent, stored, answered and acknowledged as bytes. -/
def wiredStart : Wired := ⟨newStore, Agent.installed 67108864, [], [], []⟩

theorem wired_login : ∃ history w, Run (wired id deliveryOwner "s1") history w ∧
    (∀ t ∈ history, t.action.IsGenuine t.before) ∧ w.agent.spool.db.queue = [] ∧
      w.db.events.map EventRow.key = [("s1", Bytes.utf8 "b:1.000:1:login_success")] := by
  have drawn : IsID freshRevision := ⟨by decide, List.all_eq_true.mp (by decide)⟩
  have fresh : Run (wired id deliveryOwner "s1") [] wiredStart := .start ⟨rfl, ⟨67108864, rfl⟩, rfl, rfl⟩
  have registered := fresh.next (.serve (.createServer ⟨"root", "super_admin"⟩ "web" "s1" "t1") 1000 true (by simp) ⟨rfl, rfl⟩)
  have started := registered.next (.start true rfl)
  have read := started.next (.collect ⟨Bytes.utf8 "b", true, id⟩ deliveryLog 1000000 true true rfl)
  have sent := read.next (.beat "t1" false false (some []) rfl rfl)
  have stored := sent.next (.deliver 0 1000000 freshRevision true ⟨false, true, true⟩ rfl ⟨by decide, by decide⟩)
  have answered := stored.next (.receive _ rfl (List.mem_append_right _ List.mem_cons_self))
  obtain ⟨history, w, answered, ⟨phase, empty, events⟩, genuine⟩ : ∃ history w, Run (wired id deliveryOwner "s1") history w ∧
      (w.agent.phase = .answered ⟨w.agent.spool.batch.1, []⟩ ∧ (w.agent.spool.ack w.agent.spool.batch.1 true).db.queue = [] ∧
        w.db.events.map EventRow.key = [("s1", Bytes.utf8 "b:1.000:1:login_success")]) ∧
          ∀ t ∈ history, t.action.IsGenuine t.before := by
    refine ⟨_, _, answered, by decide +kernel, ?_⟩
    simp only [List.forall_mem_cons, List.not_mem_nil, false_implies, implies_true, and_true, WireAct.IsGenuine, true_and]
    refine ⟨drawn, by decide +kernel, ?_⟩
    rintro _ _ _ _ ⟨⟩
  exact ⟨_, _, answered.next (.finish (fun _ => []) true phase), List.forall_mem_cons.mpr ⟨trivial, genuine⟩, empty, events⟩

theorem wired_refines_login : ∃ w past d, Run (deployment id deliveryOwner "s1") past d ∧ Mirrors w d ∧
    w.db.events.map EventRow.key = [("s1", Bytes.utf8 "b:1.000:1:login_success")] := by
  obtain ⟨history, w, run, genuine, -, events⟩ := wired_login
  obtain ⟨past, d, matched, same⟩ := wired_refines_deployment run genuine
  exact ⟨w, past, d, matched, same, events⟩

theorem wired_delivers_login : ∃ (history : List (Transition Wired WireAct)) (w : Wired), (∀ t ∈ history, ∀ row ∈ t.after.agent.spool.db.queue,
      row ∈ w.agent.spool.db.queue ∨ Stored "s1" w.db.toFleet row.id) ∧ w.agent.spool.db.queue = [] ∧
    w.db.events.map EventRow.key = [("s1", Bytes.utf8 "b:1.000:1:login_success")] := by
  obtain ⟨history, w, run, genuine, empty, events⟩ := wired_login
  exact ⟨history, w, (wired_delivers run genuine).1, empty, events⟩

end SshLogger
