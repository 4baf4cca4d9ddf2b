import SshLogger.Agent
import SshLogger.Servers
import SshLogger.Library.History

/-! One agent, the central server and the requests between them, in any order of
steps. Requests and answers may be lost, delayed or served more than once. -/

namespace SshLogger
open Library Library.History

/-- The batch the server decodes: its texts have lost their invalid bytes. -/
def Batch.coerced (b : Batch) : Batch :=
  { b with
    firewallResult := b.firewallResult.map fun result => { result with error := Bytes.coerce result.error }
    terminationResults := b.terminationResults.map fun result => { result with error := Bytes.coerce result.error }
    events := b.events.map Event.coerced
    health := Bytes.coerce b.health
    activeSessions := b.activeSessions.map Bytes.coerce }

/-- `sent` holds the agent's requests, numbered by position, and `responses` the
successful answers to them. `drawn` holds the random revisions drawn so far. -/
structure Deployment where
  db : Db
  agent : Agent
  sent : List (String × Batch)
  responses : List (Nat × IngestResponse)
  drawn : List String

inductive Act
  | start (canTerminate : Bool)
  | stop
  | collect (c : Collector) (dir : LogDir) (now : Int) (attached stored : Bool)
  | wait
  | beat (token : String) (canFirewall canAllowlist : Bool) (active : Option (List Bytes))
  | deliver (request : Nat) (now : Int) (fresh : String) (stored : Bool)
  | receive (response : IngestResponse)
  | fail
  | save (stored : Bool)
  | apply (outcome : NftOutcome)
  | finish (outcome : Termination → Bytes) (stored : Bool)
  | serve (request : Request) (now : Int) (stored : Bool)

def IsFresh (drawn : List String) (revision : String) : Prop := revision ≠ "" ∧ revision ∉ drawn

section
variable (hash : String → String) (owner : String → String) (home : String)

/-- What is assumed of the other requests. `owner` names the server a token was
made for; random tokens are made once, and only the agent sends its server's. -/
def Admissible (drawn : List String) : Request → List String → Prop
  | .ingest token _ fresh, next => owner (hash token) ≠ home ∧ IsFresh drawn fresh ∧ next = fresh :: drawn
  | .requestFirewall _ _ ids _, next =>
    IsFresh drawn ids.revision ∧ next = ids.revision :: drawn
  | .createServer _ _ id token, next => owner (hash token) = id ∧ next = drawn
  | .changeToken _ id token _, next => owner (hash token) = id ∧ next = drawn
  | _, next => next = drawn

/-- The server serves a request of the agent; a refused one gets no usable answer. -/
def Deployment.deliver (w : Deployment) (request : Nat) (token : String) (b : Batch) (now : Int) (fresh : String)
    (stored : Bool) : Deployment :=
  let outcome := ingest hash w.db.toFleet token b.coerced now fresh stored
  { w with
    db := { w.db with toFleet := outcome.2 }
    responses := match outcome.1 with
      | .ok response => w.responses ++ [(request, response)]
      | .error _ => w.responses
    drawn := fresh :: w.drawn }

inductive Deployment.Step (w : Deployment) : Act → Deployment → Prop
  | start (canTerminate) : w.agent.phase = .down →
      Step w (.start canTerminate) { w with agent := w.agent.start canTerminate }
  | stop : Step w .stop { w with agent := w.agent.stop }
  | collect (c dir now attached stored) : w.agent.phase = .idle →
      Step w (.collect c dir now attached stored) { w with agent := w.agent.collect c dir now attached stored }
  | wait {health} : w.agent.phase = .collected health → Step w .wait { w with agent := w.agent.wait }
  | beat (token canFirewall canAllowlist active) {health} : w.agent.phase = .collected health →
      owner (hash token) = home →
      Step w (.beat token canFirewall canAllowlist active) { w with
        sent := w.sent ++ [(token, w.agent.batch health canFirewall canAllowlist active)]
        agent := { w.agent with phase := .waiting w.sent.length w.agent.spool.batch.1 } }
  | deliver (request now fresh stored) {token b} : w.sent[request]? = some (token, b) → IsFresh w.drawn fresh →
      Step w (.deliver request now fresh stored) (w.deliver hash request token b now fresh stored)
  | receive (response) {request events} : w.agent.phase = .waiting request events → (request, response) ∈ w.responses →
      Step w (.receive response) { w with agent := w.agent.receive events response }
  | fail {request events} : w.agent.phase = .waiting request events → Step w .fail { w with agent := w.agent.fail }
  | save (stored) {p rest} : w.agent.phase = .saving p rest →
      Step w (.save stored) { w with agent := w.agent.save p rest stored }
  | apply (outcome) {p rest} : w.agent.phase = .applying p rest →
      Step w (.apply outcome) { w with agent := w.agent.apply p rest outcome }
  | finish (outcome stored) {rest} : w.agent.phase = .answered rest →
      Step w (.finish outcome stored) { w with agent := w.agent.finish rest outcome stored }
  | serve (request now stored) {drawn} : Admissible hash owner home w.drawn request drawn →
      Step w (.serve request now stored) { w with db := w.db.serve hash now stored request, drawn }

/-- A new agent and a store without servers. Retention, which deletes old events, is no
step here. -/
def deployment : System Deployment Act where
  init w := w.db.toFleet = ⟨[], [], [], [], [], [], []⟩ ∧ (∃ limit, w.agent = Agent.installed limit) ∧
    w.sent = [] ∧ w.responses = []
  step := Deployment.Step hash owner home

end

end SshLogger
