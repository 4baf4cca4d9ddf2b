import SshLogger.Agent
import SshLogger.AgentTermination
import SshLogger.Library.Utf8
import SshLogger.Library.History

/-! What the agent tells the server about its host besides the events: how nft
ended, how its commands ended and which login sessions are active
(`agent/firewall.go`, `agent/spool.go`, `agent/main.go`). -/

namespace SshLogger
open Library Library.Bytes Library.History

/-- A run of `nft -f -`: the text of its error, if it had one, and what it printed. -/
structure NftRun where
  failure : Option Bytes
  output : Bytes
  killed : Bool
  deriving DecidableEq, Repr

/-- `%v: %.350s` -/
def nftMessage (failure output : Bytes) : Bytes := failure ++ utf8 ": " ++ takeRunes 350 output

def NftRun.outcome (run : NftRun) : NftOutcome :=
  match run.failure with
  | none => .loaded
  | some failure => if run.killed then .killed (nftMessage failure run.output) else .failed (nftMessage failure run.output)

/-- `stored` is false when the policy could not be saved. -/
def reconcileFirewall (p : FirewallPolicy) (stored : Bool) (run : NftRun) : FirewallResult :=
  if p.isValid && stored then
    match run.failure with
    | none => ⟨p.revision, []⟩
    | some failure => ⟨p.revision, utf8 "nft 적용 실패: " ++ nftMessage failure run.output⟩
  else ⟨p.revision, utf8 "방화벽 정책 로컬 저장 실패"⟩

def errorText : Except Bytes Unit → Bytes
  | .ok () => []
  | .error text => text

def runCommand (canTerminate : Bool) (outcome : Termination → Except Bytes Unit) (command : Termination) :
    TerminationResult :=
  ⟨command.id, if !canTerminate then utf8 "세션 종료를 지원하지 않는 에이전트입니다." else errorText (outcome command)⟩

/-- Why a file of `/proc` could not be read. -/
inductive ReadError
  | permission
  | other
  deriving DecidableEq, Repr

/-- A name in `/proc` and what its files say. -/
structure ProcEntry where
  name : Bytes
  comm : Except ReadError Bytes
  sessionid : Except ReadError Bytes

def scanSessions (boot : Bytes) : List Bytes → List ProcEntry → Option (List Bytes)
  | set, [] => some set
  | set, entry :: entries =>
    if (parseInt entry.name 64).isNone then scanSessions boot set entries
    else match entry.comm with
      | .error .permission => none
      | .error .other => scanSessions boot set entries
      | .ok comm =>
        if !hasPrefix (Bytes.trimSpace comm) (utf8 "sshd") then scanSessions boot set entries
        else match entry.sessionid with
          | .error .permission => none
          | .error .other => scanSessions boot set entries
          | .ok text =>
            let id := sessionID boot (Bytes.trimSpace text)
            scanSessions boot (if id == [] then set else set.insert id) entries

/-- `dirs` is `none` when `/proc` cannot be listed. -/
def activeSessions (boot : Bytes) (dirs : Option (List ProcEntry)) : Option (List Bytes) :=
  (dirs.bind (scanSessions boot [])).map fun set => set.mergeSort fun a b => a ≤ b

def jsonObject (members : List Bytes) : Bytes := ascii '{' :: commaSeparated members ++ [ascii '}']

def jsonArray (items : List Bytes) : Bytes := ascii '[' :: commaSeparated items ++ [ascii ']']

/-- `omitempty` for a boolean. -/
def omitFalse (name : String) (value : Bool) : List Bytes := if value then [jsonMember name (utf8 "true")] else []

/-- `json.Marshal` of a report of the host. -/
def reportJson (key name : String) (error : Bytes) : Bytes :=
  jsonObject [jsonMember key (quote (utf8 name)), jsonMember "error" (quote error)]

def FirewallResult.json (result : FirewallResult) : Bytes := reportJson "revision" result.revision result.error

def TerminationResult.json (result : TerminationResult) : Bytes := reportJson "id" result.id result.error

/-- A scan that failed leaves a nil list of active sessions. -/
def sessionsJson : Option (List Bytes) → Bytes
  | none => utf8 "null"
  | some ids => jsonArray (ids.map quote)

/-- `json.Marshal` of a batch. -/
def Batch.json (b : Batch) (active : Option (List Bytes)) : Bytes :=
  jsonObject (
    omitFalse "can_firewall" b.canFirewall ++ omitFalse "can_allowlist" b.canAllowlist ++
    (b.firewallResult.map fun result => jsonMember "firewall_result" result.json).toList ++
    omitFalse "can_terminate" b.canTerminate ++
    (if b.terminationResults.isEmpty then []
      else [jsonMember "termination_results" (jsonArray (b.terminationResults.map TerminationResult.json))]) ++
    [jsonMember "events" (jsonArray (b.events.map Event.json)), jsonMember "health" (quote b.health),
      jsonMember "backlog" (decimal b.backlog), jsonMember "dropped" (decimal b.dropped),
      jsonMember "active_sessions" (sessionsJson active)])

inductive AgentAct
  | start (canTerminate : Bool)
  | stop
  | collect (c : Collector) (dir : LogDir) (now : Int) (attached stored : Bool)
  | wait
  | beat (request : Nat)
  | receive (response : IngestResponse)
  | fail
  | save (stored : Bool)
  | apply (outcome : NftOutcome)
  | finish (outcome : Termination → Bytes) (stored : Bool)

inductive Agent.Step (a : Agent) : AgentAct → Agent → Prop
  | start (canTerminate) : a.phase = .down → Step a (.start canTerminate) (a.start canTerminate)
  | stop : Step a .stop a.stop
  | collect (c dir now attached stored) : a.phase = .idle →
      Step a (.collect c dir now attached stored) (a.collect c dir now attached stored)
  | wait {health} : a.phase = .collected health → Step a .wait a.wait
  | beat (request) {health} : a.phase = .collected health →
      Step a (.beat request) { a with phase := .waiting request a.spool.batch.1 }
  | receive (response) {request events} : a.phase = .waiting request events →
      Step a (.receive response) (a.receive events response)
  | fail {request events} : a.phase = .waiting request events → Step a .fail a.fail
  | save (stored) {p rest} : a.phase = .saving p rest → Step a (.save stored) (a.save p rest stored)
  | apply (outcome) {p rest} : a.phase = .applying p rest → Step a (.apply outcome) (a.apply p rest outcome)
  | finish (outcome stored) {rest} : a.phase = .answered rest →
      Step a (.finish outcome stored) (a.finish rest outcome stored)

def agentRuns : System Agent AgentAct where
  init a := ∃ limit, a = Agent.installed limit
  step := Agent.Step

end SshLogger
