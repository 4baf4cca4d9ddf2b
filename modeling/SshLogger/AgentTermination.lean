import SshLogger.Event
import SshLogger.Library.Interaction
import SshLogger.Library.Numerals

/-! How the agent kills a session (`agent/termination.go`). The agent acts only
through system calls. Between any two of them other processes start, exit and
are reaped, and the kernel gives their process ids to new ones. -/

namespace SshLogger
open Library Library.Bytes Library.Interaction

inductive Errno
  | esrch
  | enoent
  | other
  deriving DecidableEq, Repr

/-- An error of a system call, with the text Go prints for it. -/
structure Failure where
  errno : Errno
  text : Bytes
  deriving DecidableEq, Repr

/-- The calls of the agent. `sessionid` and `stat` are read from the directory
of `/proc` with the given name. -/
inductive SystemCall
  | now
  | readOwnSession
  | readDir
  | pidfdOpen (pid : Int)
  | readSession (name : Bytes)
  | pidfdSendSignal (fd : Nat)
  | close (fd : Nat)
  | sleep
  | readStat (name : Bytes)
  deriving DecidableEq, Repr

abbrev SystemCall.Answer : SystemCall → Type
  | .now => Int
  | .readOwnSession => Except Failure Bytes
  | .readDir => Except Failure (List Bytes)
  | .pidfdOpen _ => Except Failure Nat
  | .readSession _ => Except Failure Bytes
  | .pidfdSendSignal _ => Except Failure Unit
  | .close _ => Unit
  | .sleep => Unit
  | .readStat _ => Except Failure Bytes

abbrev AgentProgram := Program SystemCall SystemCall.Answer

def system (call : SystemCall) : AgentProgram call.Answer := Program.ask call

def terminationSession (boot id : Bytes) : Except Bytes Bytes :=
  let start := boot ++ utf8 ":"
  if boot.isEmpty || !hasPrefix id start then .error (utf8 "다른 부팅의 세션입니다.")
  else
    let sid := id.drop start.length
    match parseUint sid 32 with
    | none => .error (utf8 "잘못된 세션 ID입니다.")
    | some n => if n == 4294967295 || numeral n != sid then .error (utf8 "잘못된 세션 ID입니다.") else .ok sid

/-- What `signalSessionProcess` does between opening the descriptor and its deferred close. -/
def signalPinned (name sid : Bytes) (fd : Nat) : AgentProgram (Except Bytes Bool) := do
  let read ← system (.readSession name)
  match read with
  | .error failure => pure (if failure.errno == .enoent then .ok false else .error failure.text)
  | .ok text =>
    if Bytes.trimSpace text != sid then pure (.ok false)
    else do
      let signalled ← system (.pidfdSendSignal fd)
      match signalled with
      | .error failure => pure (if failure.errno == .esrch then .ok false else .error failure.text)
      | .ok () => pure (.ok true)

def signalSessionProcess (getpid : Int) (name sid : Bytes) : AgentProgram (Except Bytes Bool) :=
  match parseInt name 64 with
  | none => pure (.ok false)
  | some pid =>
    if pid ≤ 1 || pid == getpid then pure (.ok false)
    else do
      let opened ← system (.pidfdOpen pid)
      match opened with
      | .error failure => pure (if failure.errno == .esrch then .ok false else .error failure.text)
      | .ok fd => do
        let result ← signalPinned name sid fd
        let _ ← system (.close fd)
        pure result

/-- The entries of one scan of `/proc`. -/
def signalEntries (getpid : Int) (sid : Bytes) : List Bytes → AgentProgram (Except Bytes Unit)
  | [] => pure (.ok ())
  | name :: entries => do
    let signalled ← signalSessionProcess getpid name sid
    match signalled with
    | .error text => pure (.error (utf8 "세션 종료 실패: " ++ text))
    | .ok _ => signalEntries getpid sid entries

def signalPasses (getpid : Int) (sid : Bytes) : Nat → AgentProgram (Except Bytes Unit)
  | 0 => pure (.ok ())
  | passes + 1 => do
    let listed ← system .readDir
    match listed with
    | .error failure => pure (.error failure.text)
    | .ok entries => do
      let signalled ← signalEntries getpid sid entries
      match signalled with
      | .error text => pure (.error text)
      | .ok () => do
        let _ ← system .sleep
        signalPasses getpid sid passes

/-- The state letter of a `stat` file stands two bytes after the last parenthesis. -/
def isExited (stat : Bytes) : Bool :=
  match indexByte (ascii ')') stat.reverse with
  | none => false
  | some distance =>
    match stat[stat.length - 1 - distance + 2]? with
    | none => false
    | some letter => letter == ascii 'Z' || letter == ascii 'X'

/-- Whether the entries of the last scan hold a process of the session that still runs. -/
def checkEntries (sid : Bytes) : List Bytes → AgentProgram (Except Bytes Unit)
  | [] => pure (.ok ())
  | name :: entries =>
    if (parseInt name 64).isNone then checkEntries sid entries
    else do
      let read ← system (.readSession name)
      match read with
      | .error failure => if failure.errno == .enoent then checkEntries sid entries else pure (.error failure.text)
      | .ok text =>
        if Bytes.trimSpace text != sid then checkEntries sid entries
        else do
          let stat ← system (.readStat name)
          match stat with
          | .error failure => if failure.errno == .enoent then checkEntries sid entries else pure (.error failure.text)
          | .ok stat =>
            if isExited stat then checkEntries sid entries
            else pure (.error (utf8 "세션 프로세스가 아직 남아 있습니다."))

def terminateAuditSession (getpid : Int) (boot : Bytes) (c : Termination) : AgentProgram (Except Bytes Unit) := do
  let now ← system .now
  if now ≥ c.expires then pure (.error (utf8 "종료 요청이 만료되었습니다."))
  else
    match terminationSession boot c.sessionId with
    | .error text => pure (.error text)
    | .ok sid => do
      let read ← system .readOwnSession
      match read with
      | .error failure => pure (.error failure.text)
      | .ok own =>
        if Bytes.trimSpace own == sid then pure (.error (utf8 "에이전트 자신의 세션은 종료할 수 없습니다."))
        else do
          let signalled ← signalPasses getpid sid 3
          match signalled with
          | .error text => pure (.error text)
          | .ok () => do
            let listed ← system .readDir
            match listed with
            | .error failure => pure (.error failure.text)
            | .ok entries => checkEntries sid entries

/-- A process keeps its audit session for life. `birth` tells it from the
processes that had or will have its process id. -/
structure Process where
  birth : Nat
  pid : Nat
  session : Nat
  deriving DecidableEq, Repr

/-- `processes` are those not reaped yet. `readings` are the times the agent
was told, and `signals` holds for each `SIGKILL` it sent the process that got
it, if there was one; both are newest first. -/
structure Kernel where
  clock : Int
  born : Nat
  processes : List Process
  descriptors : Nat → Option Process
  readings : List Int
  signals : List (Option Process)

namespace Kernel

/-- What happens while the agent is between two calls. -/
inductive Moves (agent : Process) : Kernel → Kernel → Prop
  | clock {k now} : Moves agent k { k with clock := now }
  | fork {k pid session} : 0 < pid → pid < 2 ^ 31 → (∀ process ∈ k.processes, process.pid ≠ pid) →
      Moves agent k { k with born := k.born + 1, processes := ⟨k.born, pid, session⟩ :: k.processes }
  | reap {k process} : process ≠ agent → Moves agent k { k with processes := k.processes.erase process }

/-- The text of a `sessionid` file, with or without a line end. -/
def IsSession (session : Nat) (text : Bytes) : Prop :=
  ∃ ending, (ending = [] ∨ ending = [10]) ∧ text = numeral session ++ ending

/-- The kernel's answers. Any call that returns an error may fail without an
effect. A directory of `/proc` bears the process id in canonical form, and a
process id is 32 bits wide. -/
inductive Answers (agent : Process) : Kernel → (call : SystemCall) → call.Answer → Kernel → Prop
  | now {k} : Answers agent k .now k.clock { k with readings := k.clock :: k.readings }
  | readOwnSession {k text} : IsSession agent.session text → Answers agent k .readOwnSession (.ok text) k
  | readOwnSessionFails {k failure} : Answers agent k .readOwnSession (.error failure) k
  | readDir {k names} : Answers agent k .readDir (.ok names) k
  | readDirFails {k failure} : Answers agent k .readDir (.error failure) k
  | pidfdOpen {k pid fd process} : process ∈ k.processes → (process.pid : Int) = pid % 2 ^ 32 → k.descriptors fd = none →
      Answers agent k (.pidfdOpen pid) (.ok fd) { k with descriptors := Function.update k.descriptors fd (some process) }
  | pidfdOpenFails {k pid failure} : Answers agent k (.pidfdOpen pid) (.error failure) k
  | readSession {k process text} : process ∈ k.processes → IsSession process.session text →
      Answers agent k (.readSession (numeral process.pid)) (.ok text) k
  | readSessionFails {k name failure} : Answers agent k (.readSession name) (.error failure) k
  | pidfdSendSignal {k fd process} : k.descriptors fd = some process → process ∈ k.processes →
      Answers agent k (.pidfdSendSignal fd) (.ok ()) { k with signals := some process :: k.signals }
  | pidfdSendSignalFails {k fd failure} :
      (∀ process, k.descriptors fd = some process → process ∉ k.processes → failure.errno = .esrch) →
      Answers agent k (.pidfdSendSignal fd) (.error failure) { k with signals := none :: k.signals }
  | close {k fd} : Answers agent k (.close fd) () { k with descriptors := Function.update k.descriptors fd none }
  | sleep {k} : Answers agent k .sleep () k
  | readStat {k process stat} : process ∈ k.processes → Answers agent k (.readStat (numeral process.pid)) (.ok stat) k
  | readStatFails {k name failure} : Answers agent k (.readStat name) (.error failure) k

/-- The kernel a process `agent` runs on. -/
def on (agent : Process) : Environment SystemCall SystemCall.Answer Kernel := ⟨Moves agent, Answers agent⟩

/-- Process ids and births are unique, and the agent is one of the processes. -/
structure Sound (agent : Process) (k : Kernel) : Prop where
  agent : agent ∈ k.processes
  pids : (k.processes.map Process.pid).Nodup
  range : ∀ process ∈ k.processes, process.pid < 2 ^ 31
  births : ∀ process ∈ k.processes, process.birth < k.born
  opened : ∀ fd, ∀ process ∈ k.descriptors fd, process.birth < k.born

structure Initial (agent : Process) (k : Kernel) : Prop where
  sound : Sound agent k
  readings : k.readings = []
  signals : k.signals = []

end Kernel

end SshLogger
