import SshLogger.Library.History

/-! Programs that act through calls, interleaved with an environment that may
move between any two of them. An assertion that a program relies on while it
waits must survive the environment's moves. What a program may stop with, whoever
answers it, needs no state at all. -/

namespace Library.Interaction
open History

universe u v

/-- What a program does next: stop with a value, or make a call and go on with its answer. -/
inductive Program (Call : Type u) (Answer : Call → Type v) (α : Type v) : Type (max u v)
  | done (value : α)
  | call (request : Call) (next : Answer request → Program Call Answer α)

variable {Call : Type u} {Answer : Call → Type v} {α β : Type v} {σ : Type*}

namespace Program

def bind : Program Call Answer α → (α → Program Call Answer β) → Program Call Answer β
  | done value, rest => rest value
  | call request next, rest => call request fun answer => (next answer).bind rest

instance : Monad (Program Call Answer) where
  pure := done
  bind := bind

def ask (request : Call) : Program Call Answer (Answer request) := call request done

end Program

section
variable (allowed : (request : Call) → Answer request → Prop)

/-- A value that the program may stop with when every answer it gets is an allowed one. -/
def Yields : Program Call Answer α → α → Prop
  | .done value, result => result = value
  | .call request next, result => ∃ answer, allowed request answer ∧ Yields (next answer) result

variable {allowed}

@[simp] theorem yields_pure {value result : α} : Yields allowed (pure value) result ↔ result = value := Iff.rfl

@[simp] theorem yields_ask {request : Call} {answer : Answer request} :
    Yields allowed (Program.ask request) answer ↔ allowed request answer := by
  constructor
  · rintro ⟨given, fits, same⟩
    exact same ▸ fits
  · exact fun fits => ⟨answer, fits, rfl⟩

@[simp] theorem yields_bind {program : Program Call Answer α} {rest : α → Program Call Answer β} {result : β} :
    Yields allowed (program >>= rest) result ↔
      ∃ value, Yields allowed program value ∧ Yields allowed (rest value) result := by
  induction program with
  | done value => exact ⟨fun yields => ⟨value, rfl, yields⟩, fun ⟨_, same, yields⟩ => same ▸ yields⟩
  | call request next ih =>
    constructor
    · rintro ⟨answer, fits, yields⟩
      obtain ⟨value, first, second⟩ := (ih answer).mp yields
      exact ⟨value, ⟨answer, fits, first⟩, second⟩
    · rintro ⟨value, ⟨answer, fits, first⟩, second⟩
      exact ⟨answer, fits, (ih answer).mpr ⟨value, first, second⟩⟩

end

/-- What the environment does by itself, and how it answers a call. -/
structure Environment (Call : Type u) (Answer : Call → Type v) (σ : Type*) where
  moves : σ → σ → Prop
  answers : σ → (request : Call) → Answer request → σ → Prop

/-- One step of the program or of its environment. The label is the program's call. -/
inductive Environment.Step (world : Environment Call Answer σ) :
    σ × Program Call Answer α → Option Call → σ × Program Call Answer α → Prop
  | move {state after program} : world.moves state after → Step world (state, program) none (after, program)
  | answer {state request next answer after} : world.answers state request answer after →
      Step world (state, .call request next) (some request) (after, next answer)

def Environment.system (world : Environment Call Answer σ) (start : σ → Prop) (program : Program Call Answer α) :
    System (σ × Program Call Answer α) (Option Call) where
  init configuration := start configuration.1 ∧ configuration.2 = program
  step := world.Step

/-- A run goes on with an answer to the call that its program waits for. -/
theorem Environment.answered {world : Environment Call Answer σ} {start : σ → Prop}
    {program rest : Program Call Answer α} {history state} (run : Run (world.system start program) history (state, rest))
    {request : Call} {next : Answer request → Program Call Answer α} {answer after} (waits : rest = .call request next)
    (answers : world.answers state request answer after) :
    ∃ history, Run (world.system start program) history (after, next answer) := by
  subst waits
  exact ⟨_, .next run (.answer answers)⟩

theorem Environment.moved {world : Environment Call Answer σ} {start : σ → Prop}
    {program rest : Program Call Answer α} {history state} (run : Run (world.system start program) history (state, rest))
    {after} (moves : world.moves state after) : ∃ history, Run (world.system start program) history (after, rest) :=
  ⟨_, .next run (.move moves)⟩

section
variable (world : Environment Call Answer σ) (valid : σ → Prop)

def Stable (assertion : σ → Prop) : Prop :=
  ∀ before after, valid before → world.moves before after → assertion before → assertion after

/-- One call: what holds while it waits is stable, and each answer keeps the
invariant and establishes what follows it. -/
structure Replies (request : Call) (required : σ → Prop) (reply : Answer request → σ → Prop) : Prop where
  waiting : Stable world valid required
  execute : ∀ state answer after, valid state → required state → world.answers state request answer after →
    valid after ∧ reply answer after

/-- From a state that satisfies `pre`, the program keeps the invariant, and it
stops only where `post` holds of its value. -/
def Meets (pre : σ → Prop) (post : α → σ → Prop) : Program Call Answer α → Prop
  | .done value => ∀ state, valid state → pre state → post value state
  | .call request next => ∃ required reply, (∀ state, valid state → pre state → required state) ∧
      Replies world valid request required reply ∧ ∀ answer, Meets (reply answer) post (next answer)

end

section
variable {world : Environment Call Answer σ} {valid pre required : σ → Prop} {post middle : α → σ → Prop}
  {program : Program Call Answer α}

theorem Meets.weaken (meets : Meets world valid required post program)
    (implies : ∀ state, valid state → pre state → required state) : Meets world valid pre post program := by
  cases program with
  | done value => exact fun state safe holds => meets state safe (implies state safe holds)
  | call request next =>
    obtain ⟨needed, reply, entails, replies, rest⟩ := meets
    exact ⟨needed, reply, fun state safe holds => entails state safe (implies state safe holds), replies, rest⟩

theorem Meets.strengthen {weaker : α → σ → Prop} (meets : Meets world valid pre post program)
    (implies : ∀ value state, valid state → post value state → weaker value state) :
    Meets world valid pre weaker program := by
  induction program generalizing pre with
  | done value => exact fun state safe holds => implies value state safe (meets state safe holds)
  | call request next ih =>
    obtain ⟨needed, reply, entails, replies, rest⟩ := meets
    exact ⟨needed, reply, entails, replies, fun answer => ih answer (rest answer)⟩

theorem Meets.pure {value : α} (holds : ∀ state, valid state → pre state → post value state) :
    Meets world valid pre post (Pure.pure value : Program Call Answer α) := holds

theorem Meets.bind {rest : α → Program Call Answer β} {post : β → σ → Prop}
    (meets : Meets world valid pre middle program)
    (continues : ∀ value, Meets world valid (middle value) post (rest value)) :
    Meets world valid pre post (program >>= rest) := by
  induction program generalizing pre with
  | done value => exact (continues value).weaken meets
  | call request next ih =>
    obtain ⟨needed, reply, entails, replies, after⟩ := meets
    exact ⟨needed, reply, entails, replies, fun answer => ih answer (after answer)⟩

theorem Meets.ask {request : Call} {reply : Answer request → σ → Prop}
    (replies : Replies world valid request pre reply) :
    Meets world valid pre reply (Program.ask request) :=
  ⟨pre, reply, fun _ _ holds => holds, replies, fun _ _ _ holds => holds⟩

theorem Meets.absurd (never : ∀ state, ¬ pre state) : Meets world valid pre post program := by
  induction program generalizing pre with
  | done value => exact fun state _ holds => (never state holds).elim
  | call request next ih =>
    exact ⟨fun _ => False, fun _ _ => False, fun state _ holds => never state holds,
      ⟨fun _ _ _ _ holds => holds, fun _ _ _ _ holds => holds.elim⟩, fun answer => ih answer fun _ holds => holds⟩

/-- A fact that does not depend on the state may leave the assertion. -/
theorem Meets.of_fact {fact : Prop} (meets : fact → Meets world valid pre post program) :
    Meets world valid (fun state => fact ∧ pre state) post program := by
  by_cases known : fact
  · exact (meets known).weaken fun _ _ holds => holds.2
  · exact Meets.absurd fun _ holds => known holds.1

/-- What is known while the program waits: nothing once it has stopped. -/
def Waiting (world : Environment Call Answer σ) (valid : σ → Prop) (post : α → σ → Prop) (state : σ) :
    Program Call Answer α → Prop
  | .done _ => True
  | .call request next => ∃ required reply, required state ∧ Replies world valid request required reply ∧
      ∀ answer, Meets world valid (reply answer) post (next answer)

theorem Meets.waiting {state : σ} (meets : Meets world valid pre post program) (safe : valid state) (holds : pre state) :
    Waiting world valid post state program := by
  cases program with
  | done value => trivial
  | call request next =>
    obtain ⟨required, reply, entails, replies, rest⟩ := meets
    exact ⟨required, reply, entails state safe holds, replies, rest⟩

/-- The invariant holds throughout every interleaving with the environment. -/
theorem Meets.sound {start : σ → Prop} (meets : Meets world valid pre post program)
    (stable : ∀ before after, valid before → world.moves before after → valid after)
    (begins : ∀ state, start state → valid state ∧ pre state)
    {history configuration} (run : Run (world.system start program) history configuration) :
    valid configuration.1 := by
  suffices both : valid configuration.1 ∧ Waiting world valid post configuration.1 configuration.2 from both.1
  refine run.invariant (fun configuration => valid configuration.1 ∧
    Waiting world valid post configuration.1 configuration.2) ?_ ?_
  · rintro ⟨state, _⟩ ⟨started, rfl⟩
    obtain ⟨safe, holds⟩ := begins state started
    exact ⟨safe, meets.waiting safe holds⟩
  · rintro _ _ _ ⟨safe, waits⟩ moved
    cases moved with
    | move moved =>
      refine ⟨stable _ _ safe moved, ?_⟩
      rename_i program
      cases program with
      | done value => trivial
      | call request next =>
        obtain ⟨required, reply, holds, replies, rest⟩ := waits
        exact ⟨required, reply, replies.waiting _ _ safe moved holds, replies, rest⟩
    | answer answers =>
      obtain ⟨required, reply, holds, replies, rest⟩ := waits
      obtain ⟨still, replied⟩ := replies.execute _ _ _ safe holds answers
      exact ⟨still, (rest _).waiting still replied⟩

end

end Library.Interaction
