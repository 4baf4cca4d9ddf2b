import SshLogger.ControlReports
import SshLogger.Proofs.BodySizes
import SshLogger.Proofs.Poison
import SshLogger.Proofs.Queue
import SshLogger.Proofs.Delivery

/-! What the agent reports about its own actions travels with the events, so a
report that the server refuses holds them back. The agent cuts the output of nft
after 350 characters and the server counts bytes: the report passes exactly when
that output is short once it has been coerced. -/

namespace SshLogger
open Library Library.Bytes Library.Interaction Library.History

/-- Go's text for a failed call: an operation, a path and the error. -/
def BriefFailure {α : Type} (answer : Except Failure α) : Prop :=
  ∀ failure, answer = .error failure → Plain 400 failure.text

def Brief : (call : SystemCall) → call.Answer → Prop
  | .now, _ | .close _, _ | .sleep, _ => True
  | .readOwnSession, answer => BriefFailure answer
  | .readDir, answer => BriefFailure answer
  | .pidfdOpen _, answer => BriefFailure answer
  | .readSession _, answer => BriefFailure answer
  | .pidfdSendSignal _, answer => BriefFailure answer
  | .readStat _, answer => BriefFailure answer

/-- The server takes such a text, and it is short in a request as well. -/
def Reportable (text : Bytes) : Prop := (coerce text).length ≤ 500

instance (text : Bytes) : Decidable (Reportable text) := inferInstanceAs (Decidable (_ ≤ _))

theorem Plain.reportable {text : Bytes} (plain : Plain 400 text) : Reportable text :=
  Nat.le_trans plain.coerced (by decide)

theorem fixed_reportable : ∀ text ∈ [utf8 "방화벽 정책 로컬 저장 실패", utf8 "세션 종료를 지원하지 않는 에이전트입니다.",
    utf8 "종료 요청이 만료되었습니다.", utf8 "다른 부팅의 세션입니다.", utf8 "잘못된 세션 ID입니다.",
    utf8 "에이전트 자신의 세션은 종료할 수 없습니다.", utf8 "세션 프로세스가 아직 남아 있습니다."], Reportable text := by
  decide +kernel

theorem reportable_signal {text : Bytes} (plain : Plain 400 text) : Reportable (utf8 "세션 종료 실패: " ++ text) := by
  have cut : utf8 "세션 종료 실패: " ++ text = utf8 "세션 종료 실패:" ++ ascii ' ' :: text := rfl
  have start : (coerce (utf8 "세션 종료 실패:")).length = 21 := by decide +kernel
  have short := plain.coerced
  rw [Reportable, cut, coerce_split (by decide), List.length_append, List.length_cons, start]
  omega

theorem signalPinned_brief {name sid text : Bytes} {fd : Nat}
    (yields : Yields Brief (signalPinned name sid fd) (.error text)) : Plain 400 text := by
  simp only [signalPinned, system, yields_bind, yields_ask] at yields
  obtain ⟨read, brief, yields⟩ := yields
  cases read with
  | error failure =>
    simp only [yields_pure] at yields
    split at yields
    · cases yields
    · cases yields
      exact brief failure rfl
  | ok found =>
    simp only at yields
    split at yields
    · cases yields
    · simp only [yields_bind, yields_ask] at yields
      obtain ⟨signalled, brief, yields⟩ := yields
      cases signalled with
      | ok _ => cases yields
      | error failure =>
        simp only [yields_pure] at yields
        split at yields
        · cases yields
        · cases yields
          exact brief failure rfl

theorem signalSessionProcess_brief {getpid : Int} {name sid text : Bytes}
    (yields : Yields Brief (signalSessionProcess getpid name sid) (.error text)) : Plain 400 text := by
  simp only [signalSessionProcess] at yields
  split at yields
  · cases yields
  · split at yields
    · cases yields
    · simp only [system, yields_bind, yields_ask] at yields
      obtain ⟨opened, brief, yields⟩ := yields
      cases opened with
      | error failure =>
        simp only [yields_pure] at yields
        split at yields
        · cases yields
        · cases yields
          exact brief failure rfl
      | ok fd =>
        simp only [yields_bind, yields_ask] at yields
        obtain ⟨result, signalled, _, -, same⟩ := yields
        cases same
        exact signalPinned_brief signalled

theorem signalEntries_reportable {getpid : Int} {sid text : Bytes} {entries : List Bytes}
    (yields : Yields Brief (signalEntries getpid sid entries) (.error text)) : Reportable text := by
  induction entries with
  | nil => cases yields
  | cons name entries ih =>
    simp only [signalEntries, yields_bind] at yields
    obtain ⟨result, signalled, yields⟩ := yields
    cases result with
    | error problem =>
      cases yields
      exact reportable_signal (signalSessionProcess_brief signalled)
    | ok _ => exact ih yields

theorem signalPasses_reportable {getpid : Int} {sid text : Bytes} {passes : Nat}
    (yields : Yields Brief (signalPasses getpid sid passes) (.error text)) : Reportable text := by
  induction passes with
  | zero => cases yields
  | succ passes ih =>
    simp only [signalPasses, system, yields_bind, yields_ask] at yields
    obtain ⟨listed, brief, yields⟩ := yields
    cases listed with
    | error failure =>
      cases yields
      exact (brief failure rfl).reportable
    | ok entries =>
      simp only [yields_bind] at yields
      obtain ⟨result, signalled, yields⟩ := yields
      cases result with
      | error problem =>
        cases yields
        exact signalEntries_reportable signalled
      | ok _ =>
        simp only [yields_bind] at yields
        obtain ⟨_, -, again⟩ := yields
        exact ih again

theorem checkEntries_reportable {sid text : Bytes} {entries : List Bytes}
    (yields : Yields Brief (checkEntries sid entries) (.error text)) : Reportable text := by
  induction entries with
  | nil => cases yields
  | cons name entries ih =>
    simp only [checkEntries] at yields
    split at yields
    · exact ih yields
    · simp only [system, yields_bind, yields_ask] at yields
      obtain ⟨read, brief, yields⟩ := yields
      cases read with
      | error failure =>
        simp only at yields
        split at yields
        · exact ih yields
        · cases yields
          exact (brief failure rfl).reportable
      | ok found =>
        simp only at yields
        split at yields
        · exact ih yields
        · simp only [yields_bind, yields_ask] at yields
          obtain ⟨stat, brief, yields⟩ := yields
          cases stat with
          | error failure =>
            simp only at yields
            split at yields
            · exact ih yields
            · cases yields
              exact (brief failure rfl).reportable
          | ok stat =>
            simp only at yields
            split at yields
            · exact ih yields
            · cases yields
              exact fixed_reportable _ (by simp)

theorem terminationSession_reportable {boot id text : Bytes} (refused : terminationSession boot id = .error text) :
    Reportable text := by
  have invalid : Reportable (utf8 "잘못된 세션 ID입니다.") := fixed_reportable _ (by simp)
  simp only [terminationSession] at refused
  split at refused
  · cases refused
    exact fixed_reportable _ (by simp)
  · split at refused
    · cases refused
      exact invalid
    · split at refused
      · cases refused
        exact invalid
      · cases refused

/-- Whatever goes wrong with a command, the server takes the text about it. -/
theorem terminateAuditSession_reportable {getpid : Int} {boot text : Bytes} {c : Termination}
    (yields : Yields Brief (terminateAuditSession getpid boot c) (.error text)) : Reportable text := by
  simp only [terminateAuditSession, system, yields_bind, yields_ask] at yields
  obtain ⟨now, -, yields⟩ := yields
  split at yields
  · cases yields
    exact fixed_reportable _ (by simp)
  · split at yields
    next problem refused =>
      cases yields
      exact terminationSession_reportable refused
    next sid _ =>
      simp only [yields_bind, yields_ask] at yields
      obtain ⟨read, brief, yields⟩ := yields
      cases read with
      | error failure =>
        cases yields
        exact (brief failure rfl).reportable
      | ok own =>
        simp only at yields
        split at yields
        · cases yields
          exact fixed_reportable _ (by simp)
        · simp only [yields_bind] at yields
          obtain ⟨result, signalled, yields⟩ := yields
          cases result with
          | error problem =>
            cases yields
            exact signalPasses_reportable signalled
          | ok _ =>
            simp only [yields_bind, yields_ask] at yields
            obtain ⟨listed, brief, yields⟩ := yields
            cases listed with
            | error failure =>
              cases yields
              exact (brief failure rfl).reportable
            | ok entries => exact checkEntries_reportable yields

theorem runCommand_reportable {getpid : Int} {boot : Bytes} {canTerminate : Bool}
    {outcome : Termination → Except Bytes Unit} {command : Termination}
    (possible : canTerminate = true → Yields Brief (terminateAuditSession getpid boot command) (outcome command)) :
    Reportable (runCommand canTerminate outcome command).error := by
  cases canTerminate with
  | false => exact fixed_reportable _ (by simp [runCommand])
  | true =>
    have yields := possible rfl
    simp only [runCommand]
    cases ended : outcome command with
    | ok _ => exact Nat.zero_le _
    | error text =>
      rw [ended] at yields
      exact terminateAuditSession_reportable yields

theorem nft_coerced (failure output : Bytes) :
    (coerce (utf8 "nft 적용 실패: " ++ nftMessage failure output)).length =
      21 + (coerce failure).length + (coerce (takeRunes 350 output)).length := by
  have cut : utf8 "nft 적용 실패: " ++ nftMessage failure output =
      utf8 "nft 적용 실패:" ++ ascii ' ' :: (failure ++ ascii ':' :: ascii ' ' :: takeRunes 350 output) := by
    simp only [nftMessage, List.append_assoc]
    rfl
  have start : (coerce (utf8 "nft 적용 실패:")).length = 18 := by decide +kernel
  rw [cut, coerce_split (by decide), coerce_split (by decide), coerce_cons (by decide)]
  simp only [List.length_append, List.length_cons, start]
  omega

structure Reconciliation where
  policy : FirewallPolicy
  stored : Bool
  run : NftRun

def Reconciliation.result (r : Reconciliation) : FirewallResult := reconcileFirewall r.policy r.stored r.run

/-- An error of nft and the start of its output are short, however the bytes that are no text are replaced. -/
def Reconciliation.Concise (r : Reconciliation) : Prop :=
  r.policy.isValid = true → r.stored = true → ∀ failure, r.run.failure = some failure →
    (coerce failure).length + (coerce (takeRunes 350 r.run.output)).length ≤ 479

theorem reconcile_reportable {r : Reconciliation} : Reportable r.result.error ↔ r.Concise := by
  simp only [Reconciliation.Concise, Reconciliation.result, reconcileFirewall]
  split
  next applied =>
    obtain ⟨valid, stored⟩ := Bool.and_eq_true_iff.mp applied
    cases failed : r.run.failure with
    | none => exact iff_of_true (Nat.zero_le _) fun _ _ _ none => by cases none
    | some failure =>
      simp only [Reportable, nft_coerced, valid, stored, forall_const, Option.some.injEq, forall_eq']
      omega
  next kept =>
    refine iff_of_true (fixed_reportable _ (by simp)) fun valid stored => ?_
    simp [valid, stored] at kept

structure IsUuid (boot : Bytes) : Prop where
  size : boot.length = 36
  each : ∀ byte ∈ boot, (hexDigit byte).isSome ∨ byte = ascii '-'

/-- A session id that the kernel shows is a number of 32 bits. -/
def ShowsSessions (dirs : List ProcEntry) : Prop :=
  ∀ entry ∈ dirs, ∀ text, entry.sessionid = .ok text → ∃ n < 2 ^ 32, Kernel.IsSession n text

theorem unescaped_byte {byte : UInt8} (shown : (hexDigit byte).isSome ∨ byte = ascii '-' ∨ byte = ascii ':') :
    byte < 0x80 ∧ escapeByte byte = [byte] := by
  have every : ∀ n < 256, ((hexDigit (UInt8.ofNat n)).isSome ∨ UInt8.ofNat n = ascii '-' ∨ UInt8.ofNat n = ascii ':') →
      UInt8.ofNat n < 0x80 ∧ escapeByte (UInt8.ofNat n) = [UInt8.ofNat n] := by decide +kernel
  have found := every byte.toNat byte.toNat_lt
  rw [UInt8.ofNat_toNat] at found
  exact found shown

structure IsShown (id : Bytes) : Prop where
  short : id.length ≤ 47
  plain : IsUnescaped id

theorem isShown_session {boot text : Bytes} {n : Nat} (uuid : IsUuid boot) (small : n < 2 ^ 32)
    (session : Kernel.IsSession n text) (named : sessionID boot (Bytes.trimSpace text) ≠ []) :
    IsShown (sessionID boot (Bytes.trimSpace text)) := by
  obtain ⟨ending, line, rfl⟩ := session
  rw [trimSpace_numeral n line] at named ⊢
  obtain none | whole := sessionID_shape boot (numeral n)
  · exact absurd none named
  · rw [whole]
    have digits : (numeral n).length ≤ 10 := by
      rw [numeral, List.length_map]
      exact (Nat.length_toDigits_le_iff (by decide) (by decide)).mpr (by omega)
    refine ⟨?_, fun byte member => unescaped_byte ?_⟩
    · rw [List.length_append, List.length_cons, uuid.size]
      omega
    · simp only [List.mem_append, List.mem_cons] at member
      obtain boot | rfl | digit := member
      · exact (uuid.each byte boot).imp_right .inl
      · exact .inr (.inr rfl)
      · exact .inl (by simp [hexDigit, isDigit_numeral digit])

theorem scanSessions_shown {boot : Bytes} {set ids : List Bytes} {entries : List ProcEntry} (uuid : IsUuid boot)
    (shows : ShowsSessions entries) (old : ∀ id ∈ set, IsShown id) (scanned : scanSessions boot set entries = some ids) :
    ∀ id ∈ ids, IsShown id := by
  induction entries generalizing set with
  | nil =>
    cases scanned
    exact old
  | cons entry entries ih =>
    have later : ShowsSessions entries := fun other member => shows other (List.mem_cons_of_mem _ member)
    have skip : scanSessions boot set entries = some ids → ∀ id ∈ ids, IsShown id := ih later old
    simp only [scanSessions] at scanned
    split at scanned
    · exact skip scanned
    · split at scanned
      · cases scanned
      · exact skip scanned
      · split at scanned
        · exact skip scanned
        · split at scanned
          · cases scanned
          · exact skip scanned
          next text read =>
            refine ih later ?_ scanned
            split
            · exact old
            next named =>
              intro id member
              obtain rfl | there := List.mem_insert_iff.mp member
              · obtain ⟨n, small, session⟩ := shows entry List.mem_cons_self text read
                exact isShown_session uuid small session (by simpa using named)
              · exact old id there

theorem activeSessions_shown {boot : Bytes} {dirs : Option (List ProcEntry)} {ids : List Bytes} (uuid : IsUuid boot)
    (shows : ∀ entries ∈ dirs, ShowsSessions entries) (active : activeSessions boot dirs = some ids) :
    ∀ id ∈ ids, IsShown id := by
  obtain ⟨set, scanned, rfl⟩ := Option.map_eq_some_iff.mp active
  obtain ⟨entries, listed, scanned⟩ := Option.bind_eq_some_iff.mp scanned
  have shown := scanSessions_shown uuid (shows entries listed) (by simp) scanned
  exact fun id member => shown id (List.mem_mergeSort.mp member)

def Phase.health : Phase → Option Bytes
  | .collected health => some health
  | _ => none

/-- What the agent sends next besides its reports: queued events within the limits, and a short health. -/
structure Agent.Tidy (a : Agent) : Prop where
  rows : ∀ row ∈ a.spool.db.queue, ∃ ev : Event, row.payload = marshal ev ∧ exceedsLimits (marshal ev) ev = false
  health : ∀ health ∈ a.phase.health, Plain 20 health

theorem Agent.resume_health (rest : Option Answered) : (Agent.resume rest).health = none := by
  cases rest <;> rfl

theorem Agent.Step.tidy {a after : Agent} {act : AgentAct} (tidy : a.Tidy) (moved : Agent.Step a act after) :
    after.Tidy := by
  have quiet : ∀ {next : Agent}, (∀ row ∈ next.spool.db.queue, row ∈ a.spool.db.queue) → next.phase.health = none →
      next.Tidy := fun kept none => ⟨fun row member => tidy.rows row (kept row member), by simp [none]⟩
  cases moved with
  | start canTerminate =>
    refine quiet (by rw [Agent.start_spool]; exact fun _ member => member) ?_
    simp only [Agent.start]
    split
    · rfl
    · split <;> rfl
  | stop | wait | beat => exact quiet (fun _ member => member) rfl
  | collect c dir now attached stored =>
    refine ⟨fun row member => ?_, fun health collected => ?_⟩
    · obtain old | added := mem_collect member
      · exact tidy.rows row old
      · exact added
    · simp only [Agent.collect, Phase.health, Option.mem_def, Option.some.injEq] at collected
      subst collected
      split
      · exact ⟨by decide, isAscii_of_all rfl⟩
      · split <;> exact ⟨by decide, isAscii_of_all rfl⟩
  | receive response =>
    refine quiet (by rw [(a.receive_frame _ response).1]; exact fun _ member => member) ?_
    simp only [Agent.receive]
    split <;> rfl
  | fail =>
    refine quiet (by rw [a.fail_frame.1]; exact fun _ member => member) ?_
    simp only [Agent.fail]
    split <;> rfl
  | @save stored p rest =>
    refine quiet (by rw [(a.save_frame p rest stored).1]; exact fun _ member => member) ?_
    simp only [Agent.save]
    split
    · rfl
    · exact Agent.resume_health rest
  | @apply outcome p rest =>
    refine quiet (by rw [(a.apply_frame p rest outcome).1]; exact fun _ member => member) ?_
    cases outcome <;> exact Agent.resume_health rest
  | finish outcome stored => exact quiet (fun _ member => Spool.of_mem_ack member) rfl

theorem agent_tidy {history : List (Transition Agent AgentAct)} {a : Agent} (run : Run agentRuns history a) : a.Tidy := by
  refine run.invariant Agent.Tidy ?_ fun _ _ _ tidy moved => Agent.Step.tidy tidy moved
  rintro _ ⟨limit, rfl⟩
  exact ⟨by simp [Agent.installed, openSpool], by simp [Agent.installed, Phase.health]⟩

theorem jsonMember_bounded {name : String} {value : Bytes} {width : Nat} (short : name.utf8ByteSize ≤ 20)
    (bounded : value.length ≤ width) : (jsonMember name value).length ≤ 123 + width := by
  have quoted := quote_length (utf8 name)
  rw [utf8_length] at quoted
  rw [jsonMember_length]
  omega

theorem jsonArray_bounded {items : List Bytes} {width : Nat} (each : ∀ item ∈ items, item.length ≤ width) :
    (jsonArray items).length ≤ items.length * (width + 1) + 2 := by
  have inner := commaSeparated_bounded each
  simp only [jsonArray, List.length_cons, List.length_append, List.length_nil]
  omega

theorem reportJson_bounded {key name : String} {error : Bytes} (short : key.utf8ByteSize ≤ 20)
    (named : name.utf8ByteSize ≤ 200) (reportable : Reportable error) : (reportJson key name error).length ≤ 4500 := by
  have named : (quote (utf8 name)).length ≤ 1202 := by
    have quoted := quote_length (utf8 name)
    rw [utf8_length] at quoted
    omega
  have reported : (quote error).length ≤ 3002 := by
    have quoted := quote_length error
    have raw := length_coerce error
    have coerced : (coerce error).length ≤ 500 := reportable
    omega
  have first : (jsonMember key (quote (utf8 name))).length ≤ 123 + 1202 := jsonMember_bounded short named
  have second : (jsonMember "error" (quote error)).length ≤ 123 + 3002 := jsonMember_bounded (by decide) reported
  simp only [reportJson, jsonObject, commaSeparated_length, List.length_cons, List.length_append, List.length_nil,
    List.map_cons, List.map_nil, List.sum_cons, List.sum_nil]
  omega

/-- Up to a hundred queued events within a mebibyte. -/
theorem batch_events {s : Spool} (rows : ∀ row ∈ s.db.queue, ∃ ev : Event, row.payload = marshal ev ∧
    exceedsLimits (marshal ev) ev = false) :
    s.batch.1.length ≤ 100 ∧ (jsonArray (s.batch.1.map Event.json)).length ≤ 1024 * 1024 + 102 := by
  have oldest : ∀ row ∈ s.db.queue.take 100, row.payload.event.json.length ≤ row.payload.size ∧
      row.payload.size ≤ 256 * 1024 := by
    intro row member
    obtain ⟨ev, same, kept⟩ := rows row (List.mem_of_mem_take member)
    simp only [exceedsLimits, Bool.or_eq_false_iff, decide_eq_false_iff_not, Nat.not_lt] at kept
    rw [same]
    exact ⟨ev.coerced_json, kept.1.1.1.1.1⟩
  obtain ⟨n, inside, taken, sum, -⟩ := takeBatch_prefix 0 [] (s.db.queue.take 100) (Nat.zero_le _) (fun _ => rfl)
    fun row member => (oldest row member).2
  have few : (s.db.queue.take 100).length ≤ 100 := by
    rw [List.length_take]
    exact Nat.min_le_left _ _
  have batch : s.batch.1 = ((s.db.queue.take 100).take n).map fun row => row.payload.event := taken
  have count : s.batch.1.length ≤ 100 := by
    rw [batch, List.length_map, List.length_take]
    omega
  refine ⟨count, ?_⟩
  have bytes : ((s.batch.1.map Event.json).map List.length).sum ≤ 1024 * 1024 := by
    rw [batch, List.map_map, List.map_map]
    have each := @List.sum_le_sum QueueRow Nat _ _ _ _ ((s.db.queue.take 100).take n)
      (fun row => row.payload.event.json.length) (fun row => row.payload.size)
      fun row member => (oldest row (List.mem_of_mem_take member)).1
    rw [Nat.zero_add] at sum
    exact Nat.le_trans each sum
  simp only [jsonArray, List.length_cons, List.length_append, List.length_nil, commaSeparated_length]
  rw [List.length_map]
  omega

/-- The server's checks come to the same as those of the events alone, and the body is small enough to be read. -/
structure Harmless (b : Batch) (active : Option (List Bytes)) : Prop where
  verdict : ∀ now, checkBatch now b.coerced =
    (checkEvents now b.coerced.events).map fun events => { b.coerced with events }
  size : (b.json active).length ≤ 2 * 1024 * 1024

def Acceptable (name : String) (bound : Nat) (error : Bytes) : Prop := name.utf8ByteSize ≤ bound ∧ Reportable error

theorem checkEvents_problem {now : Int} {events : List Event} {problem : Problem}
    (refused : checkEvents now events = .error problem) :
    problem = (400, "invalid event") ∨ problem = (400, "invalid event kind") := by
  induction events with
  | nil => cases refused
  | cons e rest ih =>
    rw [checkEvents_cons] at refused
    cases checked : checkEvent now e with
    | error other =>
      simp only [checked] at refused
      cases refused
      simp only [checkEvent] at checked
      split at checked
      · exact .inl (Except.error.inj checked).symm
      · split at checked
        · exact .inr (Except.error.inj checked).symm
        · cases checked
    | ok _ =>
      simp only [checked] at refused
      cases others : checkEvents now rest with
      | error other =>
        simp only [others] at refused
        cases refused
        exact ih others
      | ok _ => simp [others] at refused

/-- What the agent keeps within the limits whatever it reports. -/
structure Batch.Modest (b : Batch) : Prop where
  results : b.terminationResults.length ≤ 100
  events : b.events.length ≤ 500
  sessions : b.activeSessions.length ≤ 10000
  shown : ∀ id ∈ b.activeSessions, IsShown id
  health : Plain 20 b.health
  backlog : 0 ≤ b.backlog ∧ b.backlog < 2 ^ 63
  dropped : 0 ≤ b.dropped ∧ b.dropped < 2 ^ 63

theorem IsShown.coerced {id : Bytes} (shown : IsShown id) : coerce id = id :=
  coerce_ascii fun byte member => (shown.plain byte member).1

/-- An error that the events do not give is never the verdict on them. -/
theorem verdict_problem {b : Batch} {now : Int} {problem : Problem}
    (verdict : checkBatch now b.coerced =
      (checkEvents now b.coerced.events).map fun events => { b.coerced with events })
    (refused : checkBatch now b.coerced = .error problem) :
    problem = (400, "invalid event") ∨ problem = (400, "invalid event kind") := by
  rw [refused] at verdict
  cases checked : checkEvents now b.coerced.events with
  | ok _ => simp [checked, Except.map] at verdict
  | error found =>
    obtain rfl : problem = found := by simpa [checked, Except.map] using verdict
    exact checkEvents_problem checked

theorem verdict_iff {b : Batch} (modest : b.Modest) :
    (∀ now, checkBatch now b.coerced = (checkEvents now b.coerced.events).map fun events => { b.coerced with events }) ↔
      (∀ result ∈ b.firewallResult, Acceptable result.revision 100 result.error) ∧
        ∀ result ∈ b.terminationResults, Acceptable result.id 200 result.error := by
  have firewall : (b.coerced.firewallResult.any fun result =>
      result.revision.utf8ByteSize > 100 || result.error.length > 500) = false ↔ ∀ result ∈ b.firewallResult, Acceptable result.revision 100 result.error := by
    cases reported : b.firewallResult <;> simp [Batch.coerced, reported, Acceptable, Reportable]
  have results : (b.coerced.terminationResults.any fun result => result.id.utf8ByteSize > 200 || result.error.length > 500) =
      false ↔ ∀ result ∈ b.terminationResults, Acceptable result.id 200 result.error := by
    simp [Batch.coerced, Acceptable, Reportable]
  have counts : (b.coerced.terminationResults.length > 100 || b.coerced.events.length > 500 ||
      b.coerced.activeSessions.length > 10000 || b.coerced.health.length > 200 || b.coerced.backlog < 0 ||
        b.coerced.dropped < 0) = false := by
    have health := modest.health.coerced
    have counts := And.intro modest.results (And.intro modest.events modest.sessions)
    simp only [Batch.coerced, List.length_map, Bool.or_eq_false_iff]
    refine ⟨⟨⟨⟨⟨decide_eq_false ?_, decide_eq_false ?_⟩, decide_eq_false ?_⟩, decide_eq_false ?_⟩,
      decide_eq_false ?_⟩, decide_eq_false ?_⟩
    · omega
    · omega
    · omega
    · omega
    · exact Int.not_lt.mpr modest.backlog.1
    · exact Int.not_lt.mpr modest.dropped.1
  have sessions : (b.coerced.activeSessions.any fun id => id.length > 200) = false := by
    have short : ∀ id ∈ b.activeSessions, (coerce id).length ≤ 200 := fun id member => by
      have shown := modest.shown id member
      rw [shown.coerced]
      exact Nat.le_trans shown.short (by decide)
    simpa [Batch.coerced] using short
  rw [← firewall, ← results]
  constructor
  · intro verdict
    have reported : (b.coerced.firewallResult.any fun result =>
        result.revision.utf8ByteSize > 100 || result.error.length > 500) = false := by
      rw [← Bool.not_eq_true]
      intro long
      have refused : checkBatch 0 b.coerced = .error (400, "invalid firewall result") := by
        simp only [checkBatch, long, if_true]
      simpa using verdict_problem (verdict 0) refused
    refine ⟨reported, ?_⟩
    rw [← Bool.not_eq_true]
    intro long
    have refused : checkBatch 0 b.coerced = .error (400, "invalid termination result") := by
      simp only [checkBatch, reported, counts, long, Bool.false_eq_true, if_false, if_true]
    simpa using verdict_problem (verdict 0) refused
  · rintro ⟨reported, ended⟩ now
    simp only [checkBatch, reported, counts, ended, sessions, Bool.false_eq_true, if_false]
    cases checkEvents now b.coerced.events <;> rfl

theorem commaSeparated_cost (parts : List Bytes) :
    (commaSeparated parts).length ≤ (parts.map fun part => part.length + 1).sum := by
  have sum : (parts.map fun part => part.length + 1).sum = (parts.map List.length).sum + parts.length := by
    induction parts with
    | nil => rfl
    | cons part rest ih => simp only [List.map_cons, List.sum_cons, List.length_cons, ih]; omega
  rw [commaSeparated_length, sum]
  omega

theorem omitFalse_cost {name : String} (short : name.utf8ByteSize ≤ 20) (value : Bool) :
    ((omitFalse name value).map fun part => part.length + 1).sum ≤ 128 := by
  cases value with
  | false => exact Nat.zero_le _
  | true =>
    have member := @jsonMember_bounded name (utf8 "true") 4 short (by decide)
    simp only [omitFalse, if_true, List.map_cons, List.map_nil, List.sum_cons, List.sum_nil]
    omega

theorem sessions_bounded {ids : List Bytes} (few : ids.length ≤ 10000) (shown : ∀ id ∈ ids, IsShown id) :
    (jsonArray (ids.map quote)).length ≤ 500002 := by
  have each : ∀ text ∈ ids.map quote, text.length ≤ 49 := by
    intro text member
    obtain ⟨id, listed, rfl⟩ := List.mem_map.mp member
    rw [quote_unescaped (shown id listed).plain]
    exact Nat.add_le_add_right (shown id listed).short 2
  have whole := jsonArray_bounded each
  rw [List.length_map] at whole
  omega

/-- Everything together stays below two mebibytes. -/
theorem body_size {b : Batch} (modest : b.Modest) {active : Option (List Bytes)} (same : b.activeSessions = active.getD [])
    (events : (jsonArray (b.events.map Event.json)).length ≤ 1024 * 1024 + 102)
    (reported : ∀ result ∈ b.firewallResult, Acceptable result.revision 100 result.error)
    (ended : ∀ result ∈ b.terminationResults, Acceptable result.id 200 result.error) :
    (b.json active).length ≤ 2 * 1024 * 1024 := by
  have firewall : ((b.firewallResult.map fun result => jsonMember "firewall_result" result.json).toList.map
      fun part => part.length + 1).sum ≤ 4624 := by
    cases found : b.firewallResult with
    | none => exact Nat.zero_le _
    | some result =>
      obtain ⟨short, reportable⟩ := reported result found
      have value : result.json.length ≤ 4500 := reportJson_bounded (by decide) (Nat.le_trans short (by decide)) reportable
      have member := @jsonMember_bounded "firewall_result" _ _ (by decide) value
      simp only [Option.map_some, Option.toList_some, List.map_cons, List.map_nil, List.sum_cons, List.sum_nil]
      omega
  have results : ((if b.terminationResults.isEmpty then []
      else [jsonMember "termination_results" (jsonArray (b.terminationResults.map TerminationResult.json))]).map
        fun part => part.length + 1).sum ≤ 450226 := by
    split
    · exact Nat.zero_le _
    · have each : ∀ item ∈ b.terminationResults.map TerminationResult.json, item.length ≤ 4500 := by
        intro item member
        obtain ⟨result, listed, rfl⟩ := List.mem_map.mp member
        obtain ⟨short, reportable⟩ := ended result listed
        exact reportJson_bounded (by decide) short reportable
      have value : (jsonArray (b.terminationResults.map TerminationResult.json)).length ≤ 450102 := by
        have bounded := jsonArray_bounded each
        have few := modest.results
        rw [List.length_map] at bounded
        omega
      have member := @jsonMember_bounded "termination_results" _ _ (by decide) value
      simp only [List.map_cons, List.map_nil, List.sum_cons, List.sum_nil]
      omega
  have sessions : (sessionsJson active).length ≤ 500002 := by
    cases active with
    | none => decide
    | some ids =>
      have listed : b.activeSessions = ids := same
      exact sessions_bounded (listed ▸ modest.sessions) (listed ▸ modest.shown)
  have health : (quote b.health).length ≤ 122 := by
    have quoted := quote_length b.health
    have short := modest.health.short
    omega
  have first := @jsonMember_bounded "events" _ _ (by decide) events
  have second := @jsonMember_bounded "health" _ _ (by decide) health
  have third := @jsonMember_bounded "backlog" _ _ (by decide) (decimal_length modest.backlog.1 modest.backlog.2)
  have fourth := @jsonMember_bounded "dropped" _ _ (by decide) (decimal_length modest.dropped.1 modest.dropped.2)
  have fifth := @jsonMember_bounded "active_sessions" _ _ (by decide) sessions
  have canFirewall := @omitFalse_cost "can_firewall" (by decide) b.canFirewall
  have canAllowlist := @omitFalse_cost "can_allowlist" (by decide) b.canAllowlist
  have canTerminate := @omitFalse_cost "can_terminate" (by decide) b.canTerminate
  unfold Batch.json
  rw [jsonObject, List.length_append, List.length_cons]
  refine Nat.le_trans (Nat.add_le_add_right (Nat.add_le_add_right (commaSeparated_cost _) 1) _) ?_
  simp only [List.map_append, List.sum_append, List.map_cons, List.map_nil, List.sum_cons, List.sum_nil, List.length_cons,
    List.length_nil]
  omega

section
variable {history : List (Transition Agent AgentAct)} {a : Agent} {health boot : Bytes} {getpid : Int}
  {report : Option Reconciliation} {commands : List Termination} {outcome : Termination → Except Bytes Unit}
  {dirs : Option (List ProcEntry)} {canTerminate : Bool}

theorem batch_modest (run : Run agentRuns history a) (collected : a.phase = .collected health)
    (dropped : a.spool.cp.dropped < 2 ^ 63) (backlog : a.spool.db.queue.length < 2 ^ 63)
    (answered : a.results.length ≤ 100) (uuid : IsUuid boot) (shows : ∀ entries ∈ dirs, ShowsSessions entries)
    (few : ∀ ids ∈ activeSessions boot dirs, ids.length ≤ 10000) (canFirewall canAllowlist : Bool) :
    (a.batch health canFirewall canAllowlist (activeSessions boot dirs)).Modest := by
  have tidy := agent_tidy run
  have short : Plain 20 health := tidy.health health (by rw [collected]; rfl)
  refine ⟨answered, Nat.le_trans (batch_events tidy.rows).1 (by decide), ?_, ?_, ?_, ?_, ?_⟩
  · cases active : activeSessions boot dirs with
    | none => exact Nat.zero_le _
    | some ids => exact few ids active
  · cases active : activeSessions boot dirs with
    | none => simp [Agent.batch]
    | some ids => exact activeSessions_shown uuid shows active
  · simp only [Agent.batch]
    split
    · exact ⟨by decide, isAscii_of_all rfl⟩
    · exact short
  · simp only [Agent.batch, Spool.batch]
    omega
  · simp only [Agent.batch]
    omega

/-- A batch that carries the last report of nft and the results of the last commands passes the
server's checks of them exactly when the names are short and the output of nft is. -/
theorem control_reports_harmless (run : Run agentRuns history a) (collected : a.phase = .collected health)
    (dropped : a.spool.cp.dropped < 2 ^ 63) (backlog : a.spool.db.queue.length < 2 ^ 63)
    (reported : a.firewallResult = report.map Reconciliation.result)
    (answered : a.results = commands.map (runCommand canTerminate outcome)) (most : commands.length ≤ 100)
    (possible : canTerminate = true → ∀ command ∈ commands,
      Yields Brief (terminateAuditSession getpid boot command) (outcome command))
    (uuid : IsUuid boot) (shows : ∀ entries ∈ dirs, ShowsSessions entries)
    (few : ∀ ids ∈ activeSessions boot dirs, ids.length ≤ 10000) (canFirewall canAllowlist : Bool) :
    Harmless (a.batch health canFirewall canAllowlist (activeSessions boot dirs)) (activeSessions boot dirs) ↔
      (∀ r ∈ report, r.policy.revision.utf8ByteSize ≤ 100 ∧ r.Concise) ∧
        ∀ command ∈ commands, command.id.utf8ByteSize ≤ 200 := by
  have modest := batch_modest run collected dropped backlog (by simpa [answered] using most) uuid shows few canFirewall
    canAllowlist
  have firewall : (∀ result ∈ a.firewallResult, Acceptable result.revision 100 result.error) ↔
      ∀ r ∈ report, r.policy.revision.utf8ByteSize ≤ 100 ∧ r.Concise := by
    have revision : ∀ r : Reconciliation, r.result.revision = r.policy.revision := fun r => by
      simp only [Reconciliation.result, reconcileFirewall]
      split
      · split <;> rfl
      · rfl
    rw [reported]
    cases report with
    | none => simp
    | some r => simp [Acceptable, revision, reconcile_reportable]
  have results : (∀ result ∈ a.results, Acceptable result.id 200 result.error) ↔
      ∀ command ∈ commands, command.id.utf8ByteSize ≤ 200 := by
    rw [answered, List.forall_mem_map]
    refine forall₂_congr fun command listed => ?_
    exact and_iff_left (runCommand_reportable fun able => possible able command listed)
  have verdict := verdict_iff modest
  constructor
  · intro harmless
    obtain ⟨accepted, ended⟩ := verdict.mp harmless.verdict
    exact ⟨firewall.mp accepted, results.mp ended⟩
  · rintro ⟨concise, short⟩
    refine ⟨verdict.mpr ⟨firewall.mpr concise, results.mpr short⟩, ?_⟩
    exact body_size modest rfl (batch_events (agent_tidy run).rows).2 (firewall.mpr concise) (results.mpr short)

end

section
variable {a : Agent} {p : FirewallPolicy}

theorem Agent.apply_reports (valid : p.isValid = true) (rest : Option Answered) (run : NftRun) :
    (a.apply p rest run.outcome).firewallResult = some (Reconciliation.result ⟨p, true, run⟩) := by
  cases failed : run.failure with
  | none => simp [NftRun.outcome, failed, Agent.apply, Reconciliation.result, reconcileFirewall, valid]
  | some failure =>
    cases killed : run.killed <;>
      simp [NftRun.outcome, failed, killed, Agent.apply, Reconciliation.result, reconcileFirewall, valid]

theorem Agent.apply_phase (rest : Option Answered) (outcome : NftOutcome) :
    (a.apply p rest outcome).phase = Agent.resume rest ∧ (a.apply p rest outcome).spool = a.spool ∧
      (a.apply p rest outcome).canTerminate = a.canTerminate := by
  cases outcome <;> exact ⟨rfl, rfl, rfl⟩

end

theorem collect_unstored (s : Spool) (c : Collector) (dir : LogDir) (now : Int) :
    (s.collect c dir now false false).1 = s := by
  cases fresh : (attach c s.cp dir).2 with
  | true => simp [Spool.collect, Spool.commit, fresh]
  | false =>
    simp only [Spool.collect, fresh, Bool.false_and, Bool.false_eq_true, if_false]
    split <;> rfl

def plainPolicy : FirewallPolicy := ⟨"r1", "", [], [], [22], [], []⟩

/-- A command that expired before it came. -/
def staleCommand : Termination := ⟨"t1", utf8 "b:7", 0⟩

def staleOutcome (_ : Termination) : Except Bytes Unit := .error (utf8 "종료 요청이 만료되었습니다.")

/-- The agent installs a policy, gives up on a command and goes on to its next batch. -/
theorem reporting_run (run : NftRun) : ∃ history a health, Run agentRuns history a ∧ a.phase = .collected health ∧
    a.spool.cp.dropped < 2 ^ 63 ∧ a.spool.db.queue.length < 2 ^ 63 ∧
    a.firewallResult = some (Reconciliation.result ⟨plainPolicy, true, run⟩) ∧
    a.results = [staleCommand].map (runCommand true staleOutcome) := by
  have fresh : Run agentRuns [] (Agent.installed 67108864) := .start ⟨67108864, rfl⟩
  have started := fresh.next (.start true rfl)
  have read := started.next (.collect ⟨utf8 "b", true, id⟩ ⟨⟨"1:1", []⟩, []⟩ 1000000 true true rfl)
  have sent := read.next (.beat 0 rfl)
  have received := sent.next (.receive ⟨some plainPolicy, 0, [staleCommand]⟩ rfl)
  have saved := received.next (.save true rfl)
  have valid : plainPolicy.isValid = true := by decide +kernel
  obtain ⟨_, s, saved, applying, able, spool⟩ : ∃ history s, Run agentRuns history s ∧
      s.phase = .applying plainPolicy (some ⟨[], [staleCommand]⟩) ∧ s.canTerminate = true ∧
        s.spool.cp.dropped = 0 ∧ s.spool.db.queue = [] :=
    ⟨_, _, saved, by decide +kernel, by decide +kernel, by decide +kernel, by decide +kernel⟩
  obtain ⟨phase, kept, still⟩ := @Agent.apply_phase s plainPolicy (some ⟨[], [staleCommand]⟩) run.outcome
  have applied := saved.next (.apply run.outcome applying)
  have finished := applied.next (.finish (fun command => errorText (staleOutcome command)) false phase)
  have again := finished.next (.collect ⟨utf8 "b", true, id⟩ ⟨⟨"1:1", []⟩, []⟩ 2000000 false false rfl)
  have same : ((((s.apply plainPolicy (some ⟨[], [staleCommand]⟩) run.outcome).finish ⟨[], [staleCommand]⟩
      (fun command => errorText (staleOutcome command)) false).collect ⟨utf8 "b", true, id⟩ ⟨⟨"1:1", []⟩, []⟩ 2000000
        false false)).spool = s.spool := (collect_unstored _ _ _ _).trans kept
  refine ⟨_, _, _, again, rfl, ?_, ?_, Agent.apply_reports valid _ run, ?_⟩
  · rw [same, spool.1]
    decide
  · rw [same, spool.2]
    decide
  · simp only [Agent.collect, Agent.finish, still, able]
    rfl

def exitStatus (output : Bytes) : NftRun := ⟨some (utf8 "exit status 1"), output, false⟩

def hostBoot : Bytes := utf8 "01234567-89ab-cdef-0123-456789abcdef"

def hostEntry : ProcEntry := ⟨utf8 "7", .ok (utf8 "sshd\n"), .ok (utf8 "3\n")⟩

theorem control_reports_harmless_ascii : ∃ history a health, Run agentRuns history a ∧
    a.firewallResult = some (Reconciliation.result ⟨plainPolicy, true, exitStatus (utf8 "Error: Operation not permitted")⟩) ∧
    Harmless (a.batch health true true (activeSessions hostBoot (some [hostEntry]))) (activeSessions hostBoot (some [hostEntry])) := by
  obtain ⟨history, a, health, run, collected, dropped, backlog, reported, answered⟩ :=
    reporting_run (exitStatus (utf8 "Error: Operation not permitted"))
  have uuid : IsUuid hostBoot := by
    refine ⟨by decide, fun byte member => ?_⟩
    have every : (hostBoot.all fun byte => (hexDigit byte).isSome || byte == ascii '-') = true := by decide +kernel
    simpa using List.all_eq_true.mp every byte member
  have shows : ∀ entries ∈ some [hostEntry], ShowsSessions entries := by
    rintro _ ⟨⟩ entry member text read
    obtain rfl := List.mem_singleton.mp member
    cases read
    exact ⟨3, by decide, [10], .inr rfl, by decide⟩
  have few : ∀ ids ∈ activeSessions hostBoot (some [hostEntry]), ids.length ≤ 10000 := by
    intro ids active
    obtain ⟨set, scanned, rfl⟩ := Option.map_eq_some_iff.mp active
    have found : scanSessions hostBoot [] [hostEntry] = some [hostBoot ++ utf8 ":3"] := by decide +kernel
    obtain rfl := Option.some.inj (found.symm.trans scanned)
    rw [List.length_mergeSort]
    decide
  have possible : true = true → ∀ command ∈ [staleCommand],
      Yields Brief (terminateAuditSession 1 hostBoot command) (staleOutcome command) := by
    intro _ command member
    obtain rfl := List.mem_singleton.mp member
    simp only [terminateAuditSession, system, yields_bind, yields_ask]
    exact ⟨0, trivial, rfl⟩
  have last : a.firewallResult = (some (⟨plainPolicy, true, exitStatus (utf8 "Error: Operation not permitted")⟩ :
      Reconciliation)).map Reconciliation.result := reported
  refine ⟨history, a, health, run, reported, (control_reports_harmless run collected dropped backlog last answered (by decide)
    possible uuid shows few true true).mpr ⟨?_, ?_⟩⟩
  · rintro r ⟨⟩
    refine ⟨by decide, fun _ _ failure failed => ?_⟩
    cases failed
    decide +kernel
  · intro command member
    obtain rfl := List.mem_singleton.mp member
    decide

/-- The output of nft in Korean: 160 characters of three bytes each. -/
def koreanOutput : Bytes := (List.replicate 160 (utf8 "한")).flatten

theorem nft_output_blocks_events : ∃ history a health, Run agentRuns history a ∧ a.phase = .collected health ∧
    a.firewallResult = some (Reconciliation.result ⟨plainPolicy, true, exitStatus koreanOutput⟩) ∧
    a.results.length ≤ 100 ∧ ¬ Harmless (a.batch health true true (some [])) (some []) ∧
    ∀ now, checkBatch now (a.batch health true true (some [])).coerced = .error (400, "invalid firewall result") := by
  obtain ⟨history, a, health, run, collected, -, -, reported, answered⟩ := reporting_run (exitStatus koreanOutput)
  have wordy : ¬ Reconciliation.Concise ⟨plainPolicy, true, exitStatus koreanOutput⟩ := fun concise =>
    absurd (concise (by decide +kernel) rfl _ rfl) (by decide +kernel)
  have long : 500 < (coerce (Reconciliation.result ⟨plainPolicy, true, exitStatus koreanOutput⟩).error).length :=
    Nat.lt_of_not_le fun short => wordy (reconcile_reportable.mp short)
  have refused : ∀ now, checkBatch now (a.batch health true true (some [])).coerced =
      .error (400, "invalid firewall result") := by
    intro now
    simp [checkBatch, Batch.coerced, Agent.batch, reported, long]
  refine ⟨history, a, health, run, collected, reported, by simp [answered], fun harmless => ?_, refused⟩
  simpa using verdict_problem (harmless.verdict 0) (refused 0)

end SshLogger
