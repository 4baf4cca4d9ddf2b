import SshLogger.ControlReports
import SshLogger.Deployment
import SshLogger.Responses
import SshLogger.Library.Utf8

/-! Requests and answers as bytes: how the server reads the body of a request
(`decode` in `server/api.go`, the tags in `internal/model/event.go`), what it writes
back, and the agent, the server and the bytes between them. -/

namespace SshLogger
open Library Library.Bytes Library.Json Library.History

/-- One value of at most 2 MiB with nothing behind it. `target` decodes the value. -/
def decode {α : Type} (target : Value → Option α) (body : Bytes) : Except Problem α :=
  let text := runes (body.take (2 <<< 20))
  match Json.read (text.length + 1) text with
  | none => .error (400, "잘못된 요청 형식입니다.")
  | some (value, rest) =>
    match target value with
    | none => .error (400, "잘못된 요청 형식입니다.")
    | some result =>
      if (skip rest).isEmpty && body.length ≤ 2 <<< 20 then .ok result
      else .error (400, "하나의 JSON 객체만 허용합니다.")

/-- The fields of a struct by the names in their tags, and how each is decoded into the struct. -/
abbrev Fields (α : Type) := List (String × (α → Value → Option α))

/-- `strict` refuses members that are no fields (`DisallowUnknownFields`). -/
def decodeMember {α : Type} (strict : Bool) (fields : Fields α) (target : α) (member : String × Value) : Option α :=
  match fields.find? fun field => isField member.1 field.1 with
  | some field => field.2 target member.2
  | none => if strict then none else some target

def decodeStruct {α : Type} (strict : Bool) (fields : Fields α) (target : α) : Value → Option α
  | .obj members => members.foldlM (decodeMember strict fields) target
  | .null => some target
  | _ => none

/-- A slice and what its array still holds behind it: the elements of an array are
decoded into those that are there. -/
structure Slice (α : Type) where
  items : List α
  spare : List α
  deriving DecidableEq, Repr

def decodeItems {α : Type} (item : α → Value → Option α) (zero : α) : List α → List Value → Option (Slice α)
  | array, [] => some ⟨[], array⟩
  | array, value :: rest => do
    let first ← item (array.head?.getD zero) value
    let slice ← decodeItems item zero array.tail rest
    return { slice with items := first :: slice.items }

def decodeSlice {α : Type} (item : α → Value → Option α) (zero : α) (old : Slice α) : Value → Option (Slice α)
  | .null => some ⟨[], []⟩
  | .arr [] => some ⟨[], []⟩
  | .arr values => decodeItems item zero (old.items ++ old.spare) values
  | _ => none

def Kind.ofText (text : Bytes) : Kind :=
  (([.loginSuccess, .loginFailure, .sessionStart, .sessionEnd, .exec] : List Kind).find? fun kind => kind.text == text).getD
    (.unknown text)

def decodePointer (old : Option Int) : Value → Option (Option Int)
  | .null => some none
  | value => (decodeInt (old.getD 0) value).map some

structure EventSlot where
  event : Event
  spare : List Bytes
  deriving DecidableEq, Repr

def zeroEvent : EventSlot := ⟨⟨[], 0, .unknown [], [], [], [], [], [], [], [], [], none, none⟩, []⟩

def eventFields : Fields EventSlot :=
  [("id", fun s v => (decodeBytes s.event.id v).map fun id => { s with event.id := id }),
    ("time", fun s v => (decodeInt s.event.time v).map fun time => { s with event.time := time }),
    ("kind", fun s v => (decodeBytes s.event.kind.text v).map fun kind => { s with event.kind := Kind.ofText kind }),
    ("session_id", fun s v => (decodeBytes s.event.sessionId v).map fun id => { s with event.sessionId := id }),
    ("user", fun s v => (decodeBytes s.event.user v).map fun user => { s with event.user := user }),
    ("login_uid", fun s v => (decodeBytes s.event.loginUid v).map fun uid => { s with event.loginUid := uid }),
    ("effective_user", fun s v => (decodeBytes s.event.effectiveUser v).map fun user => { s with event.effectiveUser := user }),
    ("ip", fun s v => (decodeBytes s.event.ip v).map fun ip => { s with event.ip := ip }),
    ("program", fun s v => (decodeBytes s.event.program v).map fun program => { s with event.program := program }),
    ("args", fun s v => (decodeSlice decodeBytes [] ⟨s.event.args, s.spare⟩ v).map fun args =>
      { s with event.args := args.items, spare := args.spare }),
    ("outcome", fun s v => (decodeBytes s.event.outcome v).map fun outcome => { s with event.outcome := outcome }),
    ("pid", fun s v => (decodePointer s.event.pid v).map fun pid => { s with event.pid := pid }),
    ("ppid", fun s v => (decodePointer s.event.ppid v).map fun ppid => { s with event.ppid := ppid })]

def decodeEvent (strict : Bool) : EventSlot → Value → Option EventSlot := decodeStruct strict eventFields

def firewallResultFields : Fields FirewallResult :=
  [("revision", fun r v => (decodeString r.revision v).map fun revision => { r with revision }),
    ("error", fun r v => (decodeBytes r.error v).map fun error => { r with error })]

def decodeFirewallResult (old : Option FirewallResult) : Value → Option (Option FirewallResult)
  | .null => some none
  | value => (decodeStruct true firewallResultFields (old.getD ⟨"", []⟩) value).map some

def terminationResultFields : Fields TerminationResult :=
  [("id", fun r v => (decodeString r.id v).map fun id => { r with id }),
    ("error", fun r v => (decodeBytes r.error v).map fun error => { r with error })]

structure BatchSlot where
  canFirewall : Bool
  canAllowlist : Bool
  firewallResult : Option FirewallResult
  canTerminate : Bool
  terminationResults : Slice TerminationResult
  events : Slice EventSlot
  health : Bytes
  backlog : Int
  dropped : Int
  activeSessions : Slice Bytes
  deriving DecidableEq, Repr

def zeroBatch : BatchSlot := ⟨false, false, none, false, ⟨[], []⟩, ⟨[], []⟩, [], 0, 0, ⟨[], []⟩⟩

def batchFields : Fields BatchSlot :=
  [("can_firewall", fun b v => (decodeBool b.canFirewall v).map fun canFirewall => { b with canFirewall }),
    ("can_allowlist", fun b v => (decodeBool b.canAllowlist v).map fun canAllowlist => { b with canAllowlist }),
    ("firewall_result", fun b v => (decodeFirewallResult b.firewallResult v).map fun firewallResult => { b with firewallResult }),
    ("can_terminate", fun b v => (decodeBool b.canTerminate v).map fun canTerminate => { b with canTerminate }),
    ("termination_results", fun b v =>
      (decodeSlice (decodeStruct true terminationResultFields) ⟨"", []⟩ b.terminationResults v).map fun terminationResults =>
        { b with terminationResults }),
    ("events", fun b v => (decodeSlice (decodeEvent true) zeroEvent b.events v).map fun events => { b with events }),
    ("health", fun b v => (decodeBytes b.health v).map fun health => { b with health }),
    ("backlog", fun b v => (decodeInt b.backlog v).map fun backlog => { b with backlog }),
    ("dropped", fun b v => (decodeInt b.dropped v).map fun dropped => { b with dropped }),
    ("active_sessions", fun b v => (decodeSlice decodeBytes [] b.activeSessions v).map fun activeSessions =>
      { b with activeSessions })]

def BatchSlot.batch (b : BatchSlot) : Batch where
  canFirewall := b.canFirewall
  canAllowlist := b.canAllowlist
  firewallResult := b.firewallResult
  canTerminate := b.canTerminate
  terminationResults := b.terminationResults.items
  events := b.events.items.map EventSlot.event
  health := b.health
  backlog := b.backlog
  dropped := b.dropped
  activeSessions := b.activeSessions.items

def decodeBatch (body : Bytes) : Except Problem Batch :=
  (decode (decodeStruct true batchFields zeroBatch) body).map BatchSlot.batch

/-- `App.ingest` up to its answer. -/
def ingestBody (hash : String → String) (db : Fleet) (token : String) (body : Bytes) (now : Int) (fresh : String)
    (stored : Bool) : Except Problem IngestResponse × Fleet :=
  if token == "" then (.error (401, "invalid token"), db)
  else match decodeBatch body with
    | .error problem => (.error problem, db)
    | .ok b => ingest hash db token b now fresh stored

/-- The status of an answer and its body. -/
abbrev Answer := Nat × Bytes

def fail (problem : Problem) : Answer :=
  (problem.1, utf8 (String.ofList (write (.obj [("error", .str problem.2)]) ++ ['\n'])))

def reply (nils : NilLists) : Except Problem IngestResponse → Answer
  | .ok response => (200, response.body nils)
  | .error problem => fail problem

/-- `sent` holds the bodies of the agent's requests and `answers` what the server
answered to them; both may be lost, delayed or served more than once. -/
structure Wired where
  db : Db
  agent : Agent
  sent : List (String × Bytes)
  answers : List (Nat × Answer)
  drawn : List String

inductive WireAct
  | start (canTerminate : Bool)
  | stop
  | collect (c : Collector) (dir : LogDir) (now : Int) (attached stored : Bool)
  | wait
  | beat (token : String) (canFirewall canAllowlist : Bool) (active : Option (List Bytes))
  | deliver (request : Nat) (now : Int) (fresh : String) (stored : Bool) (nils : NilLists)
  | receive (answered : Answer)
  | fail
  | save (stored : Bool)
  | apply (outcome : NftOutcome)
  | finish (outcome : Termination → Bytes) (stored : Bool)
  | post (token : String) (body : Bytes) (now : Int) (fresh : String) (stored : Bool)
  | serve (request : Request) (now : Int) (stored : Bool)

/-- What the process makes of an answer: an unusable one is a failed delivery. -/
def Agent.receiveAnswer (a : Agent) (events : List Event) (answered : Answer) : Agent :=
  match sendBatch answered.1 answered.2 with
  | .ok response => a.receive events response
  | .error _ => a.fail

section
variable (hash : String → String) (owner : String → String) (home : String)

def drawFor (drawn : List String) (body : Bytes) (fresh : String) : List String :=
  match decodeBatch body with
  | .ok _ => fresh :: drawn
  | .error _ => drawn

def Wired.deliver (w : Wired) (request : Nat) (token : String) (body : Bytes) (now : Int) (fresh : String) (stored : Bool)
    (nils : NilLists) : Wired :=
  let outcome := ingestBody hash w.db.toFleet token body now fresh stored
  { w with
    db := { w.db with toFleet := outcome.2 }
    answers := w.answers ++ [(request, reply nils outcome.1)]
    drawn := drawFor w.drawn body fresh }

/-- A body that some other sender makes up. -/
def Wired.post (w : Wired) (token : String) (body : Bytes) (now : Int) (fresh : String) (stored : Bool) : Wired :=
  { w with
    db := { w.db with toFleet := (ingestBody hash w.db.toFleet token body now fresh stored).2 }
    drawn := drawFor w.drawn body fresh }

inductive Wired.Step (w : Wired) : WireAct → Wired → Prop
  | start (canTerminate) : w.agent.phase = .down →
      Step w (.start canTerminate) { w with agent := w.agent.start canTerminate }
  | stop : Step w .stop { w with agent := w.agent.stop }
  | collect (c dir now attached stored) : w.agent.phase = .idle →
      Step w (.collect c dir now attached stored) { w with agent := w.agent.collect c dir now attached stored }
  | wait {health} : w.agent.phase = .collected health → Step w .wait { w with agent := w.agent.wait }
  | beat (token canFirewall canAllowlist active) {health} : w.agent.phase = .collected health →
      owner (hash token) = home →
      Step w (.beat token canFirewall canAllowlist active) { w with
        sent := w.sent ++ [(token, (w.agent.batch health canFirewall canAllowlist active).json active)]
        agent := { w.agent with phase := .waiting w.sent.length w.agent.spool.batch.1 } }
  | deliver (request now fresh stored nils) {token body} : w.sent[request]? = some (token, body) → IsFresh w.drawn fresh →
      Step w (.deliver request now fresh stored nils) (w.deliver hash request token body now fresh stored nils)
  | receive (answered) {request events} : w.agent.phase = .waiting request events → (request, answered) ∈ w.answers →
      Step w (.receive answered) { w with agent := w.agent.receiveAnswer events answered }
  | fail {request events} : w.agent.phase = .waiting request events → Step w .fail { w with agent := w.agent.fail }
  | save (stored) {p rest} : w.agent.phase = .saving p rest →
      Step w (.save stored) { w with agent := w.agent.save p rest stored }
  | apply (outcome) {p rest} : w.agent.phase = .applying p rest →
      Step w (.apply outcome) { w with agent := w.agent.apply p rest outcome }
  | finish (outcome stored) {rest} : w.agent.phase = .answered rest →
      Step w (.finish outcome stored) { w with agent := w.agent.finish rest outcome stored }
  | post (token body now fresh stored) : owner (hash token) ≠ home → IsFresh w.drawn fresh →
      Step w (.post token body now fresh stored) (w.post hash token body now fresh stored)
  | serve (request now stored) {drawn} : (∀ token b fresh, request ≠ .ingest token b fresh) →
      Admissible hash owner home w.drawn request drawn →
      Step w (.serve request now stored) { w with db := w.db.serve hash now stored request, drawn }

/-- A new agent and a store without servers. Retention, which deletes old events, is no
step here. -/
def wired : System Wired WireAct where
  init w := w.db.toFleet = ⟨[], [], [], [], [], [], []⟩ ∧ (∃ limit, w.agent = Agent.installed limit) ∧
    w.sent = [] ∧ w.answers = []
  step := Wired.Step hash owner home

end

end SshLogger
