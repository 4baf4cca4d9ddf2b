import SshLogger.Collect

/-! The agent's main loop and its side of the firewall protocol
(`agent/main.go`, `agent/firewall.go`). A tick runs through phases, so that the
process can be stopped between any two of its effects. -/

namespace SshLogger
open Library Library.Bytes

/-- What is left to do after a successful answer once the firewall is reconciled. -/
structure Answered where
  events : List Event
  terminations : List Termination
  deriving DecidableEq, Repr

/-- Where the process stands. `saving` and `applying` are the two halves of
`reconcileFirewall`, with what follows it. -/
inductive Phase
  | down
  | idle
  | collected (health : Bytes)
  | waiting (request : Nat) (events : List Event)
  | saving (p : FirewallPolicy) (rest : Option Answered)
  | applying (p : FirewallPolicy) (rest : Option Answered)
  | answered (rest : Answered)
  deriving DecidableEq, Repr

/-- `table` is the policy the host's nft table was last loaded from. It and the
spool's database outlive the process; the other fields are its variables. -/
structure Agent where
  spool : Spool
  table : Option FirewallPolicy
  canTerminate : Bool
  cached : Option FirewallPolicy
  firewallResult : Option FirewallResult
  results : List TerminationResult
  phase : Phase
  deriving DecidableEq, Repr

/-- How a run of `nft -f` ends. A run that is killed may already have loaded the table. -/
inductive NftOutcome
  | loaded
  | failed (message : Bytes)
  | killed (message : Bytes)
  deriving DecidableEq, Repr

namespace Agent

def installed (limit : Nat) : Agent :=
  ⟨openSpool ⟨none, [], none⟩ limit, none, false, none, none, [], .down⟩

/-- The spool is opened again. A cached policy is reconciled first, and an
invalid one keeps the agent from starting. -/
def start (a : Agent) (canTerminate : Bool) : Agent :=
  let a := { a with spool := openSpool a.spool.db a.spool.limit, canTerminate, firewallResult := none, results := [] }
  match a.spool.db.firewallCache with
  | none => { a with cached := none, phase := .idle }
  | some p => if p.isValid then { a with cached := some p, phase := .saving p none } else { a with phase := .down }

def stop (a : Agent) : Agent := { a with phase := .down }

def collect (a : Agent) (c : Collector) (dir : LogDir) (now : Int) (attached stored : Bool) : Agent :=
  let (spool, problem) := a.spool.collect c dir now attached stored
  let health := if problem.isSome then utf8 "audit_read_error"
    else if spool.cp.dropped > 0 then utf8 "collection_gap" else utf8 "ok"
  { a with spool, phase := .collected health }

/-- The tick ends here until the next delivery is due. -/
def wait (a : Agent) : Agent := { a with phase := .idle }

/-- The batch of a tick; `active` is `none` when the session scan fails. -/
def batch (a : Agent) (health : Bytes) (canFirewall canAllowlist : Bool) (active : Option (List Bytes)) : Batch where
  canFirewall
  canAllowlist
  firewallResult := a.firewallResult
  canTerminate := a.canTerminate
  terminationResults := a.results
  events := a.spool.batch.1
  health := if active.isNone then utf8 "session_scan_error" else health
  backlog := a.spool.batch.2
  dropped := a.spool.cp.dropped
  activeSessions := active.getD []

/-- No usable answer: the records are retained and the cached policy is loaded again. -/
def fail (a : Agent) : Agent :=
  match a.cached with
  | none => { a with phase := .idle }
  | some p => { a with phase := .saving p none }

def receive (a : Agent) (events : List Event) (response : IngestResponse) : Agent :=
  let rest : Answered := ⟨events, response.terminations⟩
  match response.firewall with
  | none => { a with phase := .answered rest }
  | some p => { a with cached := some p, phase := .saving p (some rest) }

def resume : Option Answered → Phase
  | none => .idle
  | some rest => .answered rest

/-- Persist desired state before applying, so a crash cannot resurrect an old ban. -/
def save (a : Agent) (p : FirewallPolicy) (rest : Option Answered) (stored : Bool) : Agent :=
  if p.isValid && stored then
    { a with spool := { a.spool with db := { a.spool.db with firewallCache := some p } }, phase := .applying p rest }
  else
    { a with firewallResult := some ⟨p.revision, utf8 "방화벽 정책 로컬 저장 실패"⟩, phase := resume rest }

/-- One nft transaction replaces only this program's table. -/
def apply (a : Agent) (p : FirewallPolicy) (rest : Option Answered) : NftOutcome → Agent
  | .loaded => { a with table := some p, firewallResult := some ⟨p.revision, []⟩, phase := resume rest }
  | .failed message =>
    { a with firewallResult := some ⟨p.revision, utf8 "nft 적용 실패: " ++ message⟩, phase := resume rest }
  | .killed message =>
    { a with table := some p, firewallResult := some ⟨p.revision, utf8 "nft 적용 실패: " ++ message⟩,
             phase := resume rest }

def finish (a : Agent) (rest : Answered) (outcome : Termination → Bytes) (stored : Bool) : Agent :=
  let result (command : Termination) : TerminationResult :=
    ⟨command.id, if !a.canTerminate then utf8 "세션 종료를 지원하지 않는 에이전트입니다." else outcome command⟩
  { a with results := rest.terminations.map result, spool := a.spool.ack rest.events stored, phase := .idle }

end Agent

end SshLogger
