import Mathlib.Data.List.Nodup
import SshLogger.AgentTermination

/-! The agent's `SIGKILL` reaches no process outside the session it was asked to
kill, whatever the other processes do meanwhile. A descriptor holds the process
it was opened on, so a process id that is given away between two calls makes the
signal fail. -/

namespace SshLogger
open Library Library.Bytes Library.Interaction
open Library.History (Run)

namespace Kernel

variable {agent : Process} {k after : Kernel}

theorem Moves.quiet (moves : Moves agent k after) :
    after.readings = k.readings ∧ after.signals = k.signals ∧ after.descriptors = k.descriptors := by
  cases moves <;> exact ⟨rfl, rfl, rfl⟩

theorem Sound.moves (sound : Sound agent k) (moves : Moves agent k after) : Sound agent after := by
  cases moves with
  | clock => exact ⟨sound.agent, sound.pids, sound.range, sound.births, sound.opened⟩
  | fork positive small unused =>
    refine ⟨List.mem_cons_of_mem _ sound.agent, ?_, ?_, ?_, ?_⟩
    · refine List.nodup_cons.mpr ⟨fun member => ?_, sound.pids⟩
      obtain ⟨process, live, same⟩ := List.mem_map.mp member
      exact unused process live same
    · rintro process (_ | ⟨_, live⟩)
      · exact small
      · exact sound.range process live
    · rintro process (_ | ⟨_, live⟩)
      · exact Nat.lt_succ_self _
      · exact Nat.lt_succ_of_lt (sound.births process live)
    · exact fun fd process opened => Nat.lt_succ_of_lt (sound.opened fd process opened)
  | reap other =>
    refine ⟨(List.mem_erase_of_ne other.symm).mpr sound.agent, ?_, ?_, ?_, sound.opened⟩
    · exact sound.pids.sublist (List.erase_sublist.map _)
    · exact fun process live => sound.range process (List.mem_of_mem_erase live)
    · exact fun process live => sound.births process (List.mem_of_mem_erase live)

/-- A process that a descriptor holds is not born again. -/
theorem Moves.present (moves : Moves agent k after) (sound : Sound agent k) {fd : Nat} {process : Process}
    (held : k.descriptors fd = some process) (live : process ∈ after.processes) : process ∈ k.processes := by
  cases moves with
  | clock => exact live
  | fork =>
    obtain same | live := List.mem_cons.mp live
    · have old := sound.opened fd process held
      rw [same] at old
      exact absurd old (Nat.lt_irrefl _)
    · exact live
  | reap => exact List.mem_of_mem_erase live

theorem Sound.update (sound : Sound agent k) (fd : Nat) {held : Option Process}
    (old : ∀ process ∈ held, process.birth < k.born) :
    Sound agent { k with descriptors := Function.update k.descriptors fd held } := by
  refine { sound with opened := fun other process opened => ?_ }
  dsimp only at opened
  by_cases same : other = fd
  · rw [same, Function.update_self] at opened
    exact old process opened
  · rw [Function.update_of_ne same] at opened
    exact sound.opened other process opened

theorem Sound.answers (sound : Sound agent k) {call : SystemCall} {answer : call.Answer}
    (answers : Answers agent k call answer after) : Sound agent after := by
  cases answers with
  | pidfdOpen live _ _ => exact sound.update _ fun _ same => Option.some.inj same ▸ sound.births _ live
  | close => exact sound.update _ fun _ absent => absurd absent (Option.not_mem_none _)
  | _ => exact ⟨sound.agent, sound.pids, sound.range, sound.births, sound.opened⟩

/-- Only the clock's reading and the signals are recorded. -/
theorem Answers.quiet {call : SystemCall} {answer : call.Answer} (answers : Answers agent k call answer after)
    (clock : call ≠ .now) (signal : ∀ fd, call ≠ .pidfdSendSignal fd) :
    after.readings = k.readings ∧ after.signals = k.signals := by
  cases answers with
  | now => exact absurd rfl clock
  | pidfdSendSignal | pidfdSendSignalFails => exact absurd rfl (signal _)
  | _ => exact ⟨rfl, rfl⟩

theorem Sound.unique (sound : Sound agent k) {first second : Process} (one : first ∈ k.processes)
    (two : second ∈ k.processes) (same : first.pid = second.pid) : first = second :=
  List.inj_on_of_nodup_map sound.pids one two same

end Kernel

/-- The command names a session of this boot that is not the agent's. -/
structure Asks (agent : Process) (boot : Bytes) (c : Termination) (n : Nat) : Prop where
  known : boot ≠ []
  session : c.sessionId = boot ++ utf8 ":" ++ numeral n
  range : n < 4294967295
  foreign : n ≠ agent.session

/-- Every signal was sent for a command that had not expired when the agent took
it up, and what it reached is a process of the session the command names. -/
structure KillsOnlySession (agent : Process) (boot : Bytes) (c : Termination) (k : Kernel) : Prop where
  reached : ∀ process, some process ∈ k.signals → Asks agent boot c process.session ∧ 1 < process.pid ∧
    process.pid ≠ agent.pid ∧ process ≠ agent
  asked : k.signals ≠ [] → ∃ n, Asks agent boot c n
  unexpired : k.signals ≠ [] → ∃ reading, k.readings = [reading] ∧ reading < c.expires

section
variable {agent : Process} {boot : Bytes} {c : Termination}

structure Guarded (agent : Process) (boot : Bytes) (c : Termination) (k : Kernel) : Prop where
  sound : Kernel.Sound agent k
  kills : KillsOnlySession agent boot c k

/-- The command had not expired at the one time the agent read. -/
def Judged (c : Termination) (k : Kernel) : Prop := ∃ reading, k.readings = [reading] ∧ reading < c.expires

/-- The descriptor holds a process with this property, or with none that matters any more. -/
def Holds (fd : Nat) (property : Process → Prop) (k : Kernel) : Prop :=
  ∃ process, k.descriptors fd = some process ∧ (process ∈ k.processes → property process)

theorem KillsOnlySession.same {k after : Kernel} (kills : KillsOnlySession agent boot c k)
    (readings : after.readings = k.readings) (signals : after.signals = k.signals) :
    KillsOnlySession agent boot c after := by
  refine ⟨?_, ?_, ?_⟩
  · rw [signals]; exact kills.reached
  · rw [signals]; exact kills.asked
  · rw [signals, readings]; exact kills.unexpired

theorem Guarded.moves {before after : Kernel} (guarded : Guarded agent boot c before)
    (moves : Kernel.Moves agent before after) : Guarded agent boot c after :=
  ⟨guarded.sound.moves moves, guarded.kills.same moves.quiet.1 moves.quiet.2.1⟩

theorem judged_stable : Stable (Kernel.on agent) (Guarded agent boot c) (Judged c) := by
  rintro before after _ moves ⟨reading, read, early⟩
  exact ⟨reading, (Kernel.Moves.quiet moves).1.trans read, early⟩

theorem holds_stable (fd : Nat) (property : Process → Prop) :
    Stable (Kernel.on agent) (Guarded agent boot c) fun k => Judged c k ∧ Holds fd property k := by
  rintro before after guarded moves ⟨judged, process, held, known⟩
  refine ⟨judged_stable before after guarded moves judged, process, ?_, fun live => known ?_⟩
  · rw [(Kernel.Moves.quiet moves).2.2, held]
  · exact Kernel.Moves.present moves guarded.sound held live

theorem replies_quiet {call : SystemCall} (clock : call ≠ .now) (signal : ∀ fd, call ≠ .pidfdSendSignal fd) :
    Replies (Kernel.on agent) (Guarded agent boot c) call (Judged c) fun _ => Judged c := by
  refine ⟨judged_stable, ?_⟩
  rintro k answer after guarded ⟨reading, read, early⟩ answers
  obtain ⟨readings, signals⟩ := Kernel.Answers.quiet answers clock signal
  exact ⟨⟨guarded.sound.answers answers, guarded.kills.same readings signals⟩, reading, readings.trans read, early⟩

/-- The process a descriptor was opened on has the process id that was asked for. -/
theorem replies_open (pid : Int) :
    Replies (Kernel.on agent) (Guarded agent boot c) (.pidfdOpen pid) (Judged c) fun opened k =>
      Judged c k ∧ ∀ fd, opened = .ok fd → Holds fd (fun process => (process.pid : Int) = pid % 2 ^ 32) k := by
  have quiet : Replies (Kernel.on agent) (Guarded agent boot c) (.pidfdOpen pid) (Judged c) fun _ => Judged c :=
    replies_quiet SystemCall.noConfusion fun _ => SystemCall.noConfusion
  refine ⟨judged_stable, ?_⟩
  intro k answer after guarded judged answers
  obtain ⟨still, judged⟩ := quiet.execute k answer after guarded judged answers
  refine ⟨still, judged, ?_⟩
  rintro fd rfl
  cases answers with
  | pidfdOpen live same free => exact ⟨_, Function.update_self .., fun _ => same⟩

/-- If the process is still there, the file read by its id was its own. -/
theorem replies_session {name : Bytes} {pid : Int} (named : parseInt name 64 = some pid) (fd : Nat) :
    Replies (Kernel.on agent) (Guarded agent boot c) (.readSession name)
      (fun k => Judged c k ∧ Holds fd (fun process => (process.pid : Int) = pid % 2 ^ 32) k) fun read k =>
      Judged c k ∧ ∀ text, read = .ok text →
        Holds fd (fun process => (process.pid : Int) = pid ∧ Kernel.IsSession process.session text) k := by
  have quiet : Replies (Kernel.on agent) (Guarded agent boot c) (.readSession name) (Judged c) fun _ => Judged c :=
    replies_quiet SystemCall.noConfusion fun _ => SystemCall.noConfusion
  refine ⟨holds_stable _ _, ?_⟩
  rintro k answer after guarded ⟨judged, process, held, opened⟩ answers
  obtain ⟨still, judged⟩ := quiet.execute k answer after guarded judged answers
  refine ⟨still, judged, ?_⟩
  rintro text rfl
  cases answers with
  | readSession live shown =>
    rename_i owner
    have small := guarded.sound.range owner live
    rw [parseInt_numeral (by omega)] at named
    obtain rfl := Option.some.inj named
    refine ⟨process, held, fun there => ?_⟩
    have same := opened there
    obtain rfl := guarded.sound.unique there live (by omega)
    exact ⟨rfl, shown⟩

theorem replies_signal {n : Nat} (asks : Asks agent boot c n) {pid : Int} (large : 1 < pid) (other : pid ≠ agent.pid)
    (fd : Nat) :
    Replies (Kernel.on agent) (Guarded agent boot c) (.pidfdSendSignal fd)
      (fun k => Judged c k ∧ Holds fd (fun process => (process.pid : Int) = pid ∧ process.session = n) k)
      fun _ => Judged c := by
  refine ⟨holds_stable _ _, ?_⟩
  rintro k answer after guarded ⟨judged, process, held, known⟩ answers
  have sound := guarded.sound.answers answers
  cases answers with
  | pidfdSendSignal opened live =>
    obtain rfl := Option.some.inj (held.symm.trans opened)
    obtain ⟨rfl, rfl⟩ := known live
    refine ⟨⟨sound, ?_, fun _ => ⟨_, asks⟩, fun _ => judged⟩, judged⟩
    rintro reached (_ | ⟨_, earlier⟩)
    · exact ⟨asks, by omega, by omega, fun same => other (by rw [same])⟩
    · exact guarded.kills.reached reached earlier
  | pidfdSendSignalFails =>
    refine ⟨⟨sound, ?_, fun _ => ⟨_, asks⟩, fun _ => judged⟩, judged⟩
    rintro reached (_ | ⟨_, earlier⟩)
    exact guarded.kills.reached reached earlier

theorem terminationSession_ok {id sid : Bytes} (accepted : terminationSession boot id = .ok sid) :
    boot ≠ [] ∧ ∃ n < 4294967295, sid = numeral n ∧ id = boot ++ utf8 ":" ++ numeral n := by
  simp only [terminationSession] at accepted
  split at accepted
  · cases accepted
  next known =>
    simp only [Bool.or_eq_true, not_or, Bool.not_eq_true, List.isEmpty_eq_false_iff, Bool.not_eq_false'] at known
    obtain ⟨rest, same⟩ := List.isPrefixOf_iff_prefix.mp known.2
    split at accepted
    · cases accepted
    next n parsed =>
      split at accepted
      · cases accepted
      next canonical =>
        cases accepted
        simp only [Bool.or_eq_true, beq_iff_eq, bne_iff_ne, not_or, not_not] at canonical
        have small := parseUint_eq_some parsed
        refine ⟨known.1, n, by omega, canonical.2.symm, ?_⟩
        rw [canonical.2, ← same, List.drop_left]

/-- A descriptor known to hold the asked process id is signalled only if the
session read by that id is the requested one. -/
theorem signalPinned_meets {n : Nat} (asks : Asks agent boot c n) {name : Bytes} {pid : Int}
    (named : parseInt name 64 = some pid) (large : 1 < pid) (other : pid ≠ agent.pid) (fd : Nat) :
    Meets (Kernel.on agent) (Guarded agent boot c)
      (fun k => Judged c k ∧ Holds fd (fun process => (process.pid : Int) = pid % 2 ^ 32) k)
      (fun _ => Judged c) (signalPinned name (numeral n) fd) := by
  refine (Meets.ask (replies_session named fd)).bind fun read => ?_
  cases read with
  | error failure => exact Meets.pure fun _ _ holds => holds.1
  | ok text =>
    dsimp only
    split
    · exact Meets.pure fun _ _ holds => holds.1
    next matched =>
      have trimmed : Bytes.trimSpace text = numeral n := by simpa using matched
      refine ((Meets.ask (replies_signal asks large other fd)).bind fun signalled => ?_).weaken ?_
      · cases signalled with
        | error failure => exact Meets.pure fun _ _ judged => judged
        | ok => exact Meets.pure fun _ _ judged => judged
      · rintro k guarded ⟨judged, holds⟩
        obtain ⟨process, held, known⟩ := holds text rfl
        refine ⟨judged, process, held, fun live => ⟨(known live).1, ?_⟩⟩
        obtain ⟨ending, line, shown⟩ := (known live).2
        rw [shown, trimSpace_numeral _ line] at trimmed
        exact numeral_injective trimmed

theorem signalSessionProcess_meets {n : Nat} (asks : Asks agent boot c n) (name : Bytes) :
    Meets (Kernel.on agent) (Guarded agent boot c) (Judged c) (fun _ => Judged c)
      (signalSessionProcess agent.pid name (numeral n)) := by
  unfold signalSessionProcess
  split
  · exact Meets.pure fun _ _ judged => judged
  next pid named =>
    split
    · exact Meets.pure fun _ _ judged => judged
    next allowed =>
      simp only [Bool.or_eq_true, decide_eq_true_eq, beq_iff_eq, not_or, not_le] at allowed
      refine (Meets.ask (replies_open pid)).bind fun opened => ?_
      cases opened with
      | error failure => exact Meets.pure fun _ _ holds => holds.1
      | ok fd =>
        refine ((signalPinned_meets asks named allowed.1 allowed.2 fd).bind fun result => ?_).weaken
          fun _ _ holds => ⟨holds.1, holds.2 fd rfl⟩
        refine (Meets.ask (replies_quiet SystemCall.noConfusion fun _ => SystemCall.noConfusion)).bind fun _ => ?_
        exact Meets.pure fun _ _ judged => judged

theorem signalEntries_meets {n : Nat} (asks : Asks agent boot c n) (entries : List Bytes) :
    Meets (Kernel.on agent) (Guarded agent boot c) (Judged c) (fun _ => Judged c)
      (signalEntries agent.pid (numeral n) entries) := by
  induction entries with
  | nil => exact Meets.pure fun _ _ judged => judged
  | cons name entries ih =>
    refine (signalSessionProcess_meets asks name).bind fun signalled => ?_
    cases signalled with
    | error text => exact Meets.pure fun _ _ judged => judged
    | ok _ => exact ih

theorem signalPasses_meets {n : Nat} (asks : Asks agent boot c n) (passes : Nat) :
    Meets (Kernel.on agent) (Guarded agent boot c) (Judged c) (fun _ => Judged c)
      (signalPasses agent.pid (numeral n) passes) := by
  induction passes with
  | zero => exact Meets.pure fun _ _ judged => judged
  | succ passes ih =>
    refine (Meets.ask (replies_quiet SystemCall.noConfusion fun _ => SystemCall.noConfusion)).bind fun listed => ?_
    cases listed with
    | error failure => exact Meets.pure fun _ _ judged => judged
    | ok entries =>
      refine (signalEntries_meets asks entries).bind fun signalled => ?_
      cases signalled with
      | error text => exact Meets.pure fun _ _ judged => judged
      | ok =>
        exact (Meets.ask (replies_quiet SystemCall.noConfusion fun _ => SystemCall.noConfusion)).bind fun _ => ih

/-- The last scan only reads. -/
theorem checkEntries_meets (sid : Bytes) (entries : List Bytes) :
    Meets (Kernel.on agent) (Guarded agent boot c) (Judged c) (fun _ => Judged c) (checkEntries sid entries) := by
  have done : ∀ {result : Except Bytes Unit}, Meets (Kernel.on agent) (Guarded agent boot c) (Judged c)
      (fun _ => Judged c) (pure result : AgentProgram _) := Meets.pure fun _ _ judged => judged
  induction entries with
  | nil => exact done
  | cons name entries ih =>
    unfold checkEntries
    split
    · exact ih
    refine (Meets.ask (replies_quiet SystemCall.noConfusion fun _ => SystemCall.noConfusion)).bind fun read => ?_
    cases read with
    | error failure => dsimp only; split; exacts [ih, done]
    | ok text =>
      dsimp only
      split
      · exact ih
      refine (Meets.ask (replies_quiet SystemCall.noConfusion fun _ => SystemCall.noConfusion)).bind fun stat => ?_
      cases stat with
      | error failure => dsimp only; split; exacts [ih, done]
      | ok stat => dsimp only; split; exacts [ih, done]

def Untouched (k : Kernel) : Prop := k.readings = [] ∧ k.signals = []

theorem replies_now :
    Replies (Kernel.on agent) (Guarded agent boot c) .now Untouched fun now k => k.readings = [now] ∧ k.signals = [] := by
  refine ⟨?_, ?_⟩
  · rintro before after _ moves ⟨readings, signals⟩
    exact ⟨(Kernel.Moves.quiet moves).1.trans readings, (Kernel.Moves.quiet moves).2.1.trans signals⟩
  · rintro k answer after guarded ⟨readings, signals⟩ answers
    have sound := guarded.sound.answers answers
    cases answers with
    | now =>
      refine ⟨⟨sound, ⟨?_, ?_, ?_⟩⟩, by rw [readings], signals⟩ <;> simp [signals]

theorem replies_own :
    Replies (Kernel.on agent) (Guarded agent boot c) .readOwnSession (Judged c) fun read k =>
      (∀ text, read = .ok text → Kernel.IsSession agent.session text) ∧ Judged c k := by
  have quiet : Replies (Kernel.on agent) (Guarded agent boot c) .readOwnSession (Judged c) fun _ => Judged c :=
    replies_quiet SystemCall.noConfusion fun _ => SystemCall.noConfusion
  refine ⟨judged_stable, ?_⟩
  intro k answer after guarded judged answers
  obtain ⟨still, judged⟩ := quiet.execute k answer after guarded judged answers
  refine ⟨still, ?_, judged⟩
  rintro text rfl
  cases answers with
  | readOwnSession shown => exact shown

theorem terminateAuditSession_meets : Meets (Kernel.on agent) (Guarded agent boot c) Untouched (fun _ _ => True)
    (terminateAuditSession agent.pid boot c) := by
  refine (Meets.ask replies_now).bind fun now => ?_
  split
  · exact Meets.pure fun _ _ _ => trivial
  next early =>
    split
    · exact Meets.pure fun _ _ _ => trivial
    next sid accepted =>
      obtain ⟨known, n, small, rfl, named⟩ := terminationSession_ok accepted
      refine ((Meets.ask replies_own).bind fun read => ?_).weaken fun k _ holds => ⟨now, holds.1, lt_of_not_ge early⟩
      cases read with
      | error failure => exact Meets.pure fun _ _ _ => trivial
      | ok own =>
        dsimp only
        refine Meets.of_fact fun shown => ?_
        obtain ⟨ending, line, rfl⟩ := shown own rfl
        split
        · exact Meets.pure fun _ _ _ => trivial
        next foreign =>
          rw [trimSpace_numeral _ line, beq_iff_eq] at foreign
          have asks : Asks agent boot c n := ⟨known, named, small, fun same => foreign (by rw [same])⟩
          refine (signalPasses_meets asks 3).bind fun signalled => ?_
          cases signalled with
          | error text => exact Meets.pure fun _ _ _ => trivial
          | ok =>
            refine (Meets.ask (replies_quiet SystemCall.noConfusion fun _ => SystemCall.noConfusion)).bind fun listed => ?_
            cases listed with
            | error failure => exact Meets.pure fun _ _ _ => trivial
            | ok entries => exact (checkEntries_meets _ entries).strengthen fun _ _ _ _ => trivial

def killing (agent : Process) (boot : Bytes) (c : Termination) :
    History.System (Kernel × AgentProgram (Except Bytes Unit)) (Option SystemCall) :=
  (Kernel.on agent).system (Kernel.Initial agent) (terminateAuditSession agent.pid boot c)

/-- In every interleaving of the agent's calls with the other processes, its
signals reach only processes of the session that the command names. -/
theorem kills_only_the_session {agent : Process} {boot : Bytes} {c : Termination} {history k rest}
    (run : Run (killing agent boot c) history (k, rest)) : KillsOnlySession agent boot c k := by
  refine (terminateAuditSession_meets.sound (fun _ _ guarded moves => guarded.moves moves) ?_ run).kills
  intro state initial
  refine ⟨⟨initial.sound, ⟨?_, ?_, ?_⟩⟩, initial.readings, initial.signals⟩ <;> simp [initial.signals]

end

def killAgent : Process := ⟨0, 400, 4294967295⟩

def killedShell : Process := ⟨1, 900, 42⟩

def killCommand : Termination := ⟨"", utf8 "boot:42", 100⟩

def killKernel : Kernel := ⟨50, 2, [killAgent, killedShell], fun _ => none, [], []⟩

theorem killKernel_initial : Kernel.Initial killAgent killKernel := by
  refine ⟨⟨List.mem_cons_self, by decide, by decide, by decide, ?_⟩, rfl, rfl⟩
  rintro fd process ⟨⟩

/-- A process is started while the agent is about to signal the shell. -/
theorem killing_shell : ∃ history k rest, Run (killing killAgent (utf8 "boot") killCommand) history (k, rest) ∧
    k.signals = [some killedShell] := by
  have begun : Run (killing killAgent (utf8 "boot") killCommand) []
      (killKernel, terminateAuditSession killAgent.pid (utf8 "boot") killCommand) := .start ⟨killKernel_initial, rfl⟩
  obtain ⟨_, judged⟩ := Environment.answered begun rfl .now
  obtain ⟨_, foreign⟩ := Environment.answered judged rfl
    (@Kernel.Answers.readOwnSession _ _ (numeral 4294967295) ⟨[], .inl rfl, rfl⟩)
  obtain ⟨_, listed⟩ := Environment.answered foreign rfl (@Kernel.Answers.readDir _ _ [utf8 "self", numeral 900])
  obtain ⟨_, opened⟩ := Environment.answered listed rfl
    (@Kernel.Answers.pidfdOpen _ _ _ 3 killedShell (by decide) (by decide) rfl)
  obtain ⟨_, read⟩ := Environment.answered opened rfl
    (@Kernel.Answers.readSession _ _ killedShell (numeral 42) (by decide) ⟨[], .inl rfl, rfl⟩)
  obtain ⟨_, forked⟩ := Environment.moved read
    (@Kernel.Moves.fork _ _ 901 42 (by decide) (by decide) (by decide))
  obtain ⟨_, signalled⟩ := Environment.answered forked rfl
    (@Kernel.Answers.pidfdSendSignal _ _ 3 killedShell rfl (by decide))
  exact ⟨_, _, _, signalled, rfl⟩

theorem kills_only_the_session_shell : ∃ k, k.signals = [some killedShell] ∧
    KillsOnlySession killAgent (utf8 "boot") killCommand k := by
  obtain ⟨_, k, _, run, signals⟩ := killing_shell
  exact ⟨k, signals, kills_only_the_session run⟩

end SshLogger
