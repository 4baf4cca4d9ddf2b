import Mathlib.Order.Defs.Unbundled

/-! Transactions that can end in two ways besides success: a refusal is committed
with everything written before it, an abort is rolled back. The rules say what
holds of every outcome that is committed, and which relation between the states
before and after every part of a transaction guarantees. -/

namespace Library.Transaction

def Tx (σ ε α : Type) : Type := σ → Option (Except ε α × σ)

variable {σ ε α β : Type}

instance : Monad (Tx σ ε) where
  pure value := fun state => some (.ok value, state)
  bind first next := fun state =>
    match first state with
    | none => none
    | some (.error problem, state) => some (.error problem, state)
    | some (.ok value, state) => next value state

def refuse (problem : ε) : Tx σ ε α := fun state => some (.error problem, state)

def abort : Tx σ ε α := fun _ => none

def query (view : σ → α) : Tx σ ε α := fun state => some (.ok (view state), state)

def exec (change : σ → σ) : Tx σ ε Unit := fun state => some (.ok (), change state)

def check (condition : Bool) (problem : ε) : Tx σ ε Unit := if condition then pure () else refuse problem

def require (condition : Bool) : Tx σ ε Unit := if condition then pure () else abort

def fromOption : Option α → Tx σ ε α
  | none => abort
  | some value => pure value

def fromExcept : Except ε α → Tx σ ε α
  | .error problem => refuse problem
  | .ok value => pure value

/-- Run the transaction. `stored` is false when a statement or the commit fails. -/
def commit (state : σ) (stored : Bool) (unstored : ε) (body : Tx σ ε α) : Except ε α × σ :=
  if stored then (body state).getD (.error unstored, state) else (.error unstored, state)

theorem Tx.bind_pure (body : Tx σ ε α) : body >>= pure = body := by
  funext state
  simp only [bind, pure]
  split <;> simp_all

theorem Tx.bind_assoc {γ : Type} (first : Tx σ ε α) (second : α → Tx σ ε β) (third : β → Tx σ ε γ) :
    (first >>= second) >>= third = first >>= fun value => second value >>= third := by
  funext state
  simp only [bind]
  cases first state with
  | none => rfl
  | some outcome =>
    obtain ⟨result, middle⟩ := outcome
    cases result <;> rfl

theorem Tx.pure_bind (value : α) (next : α → Tx σ ε β) : pure value >>= next = next value := rfl

/-- Every committed outcome satisfies the assertion. -/
def Ensures (body : Tx σ ε α) (state : σ) (post : Except ε α → σ → Prop) : Prop :=
  ∀ result after, body state = some (result, after) → post result after

variable {state : σ} {post : Except ε α → σ → Prop}

theorem Ensures.mono {body : Tx σ ε α} {other : Except ε α → σ → Prop} (holds : Ensures body state post)
    (implies : ∀ result after, post result after → other result after) : Ensures body state other :=
  fun result after committed => implies result after (holds result after committed)

theorem ensures_pure {value : α} (holds : post (.ok value) state) : Ensures (pure value) state post := by
  rintro _ _ ⟨⟩
  exact holds

theorem ensures_refuse {problem : ε} (holds : post (.error problem) state) : Ensures (refuse problem) state post := by
  rintro _ _ ⟨⟩
  exact holds

/-- The outcome of a sequence: the first part refused, or the rest ran in the state it left. -/
theorem ensures_bind {first : Tx σ ε β} {next : β → Tx σ ε α} {middle : Except ε β → σ → Prop}
    (holds : Ensures first state middle)
    (refused : ∀ problem after, middle (.error problem) after → post (.error problem) after)
    (continued : ∀ value after, middle (.ok value) after → Ensures (next value) after post) :
    Ensures (first >>= next) state post := by
  intro result after committed
  simp only [bind] at committed
  split at committed
  · cases committed
  next problem _ ran =>
    cases committed
    exact refused problem after (holds _ _ ran)
  next value between ran => exact continued value between (holds _ _ ran) result after committed

theorem ensures_query {view : σ → β} {next : β → Tx σ ε α} (continued : Ensures (next (view state)) state post) :
    Ensures (query view >>= next) state post := continued

theorem ensures_exec {change : σ → σ} {next : Unit → Tx σ ε α}
    (continued : Ensures (next ()) (change state) post) : Ensures (exec change >>= next) state post := continued

theorem ensures_check {condition : Bool} {problem : ε} {next : Unit → Tx σ ε α}
    (refused : condition = false → post (.error problem) state)
    (continued : condition = true → Ensures (next ()) state post) : Ensures (check condition problem >>= next) state post := by
  cases condition with
  | false => exact fun _ _ committed => by cases committed; exact refused rfl
  | true => exact continued rfl

theorem check_ensures {condition : Bool} {problem : ε} {post : Except ε Unit → σ → Prop}
    (refused : condition = false → post (.error problem) state) (passed : condition = true → post (.ok ()) state) :
    Ensures (check condition problem) state post := by
  cases condition with
  | false => exact ensures_refuse (refused rfl)
  | true => exact ensures_pure (passed rfl)

theorem ensures_require {condition : Bool} {next : Unit → Tx σ ε α}
    (continued : condition = true → Ensures (next ()) state post) : Ensures (require condition >>= next) state post := by
  cases condition with
  | false => exact nofun
  | true => exact continued rfl

theorem ensures_fromOption {option : Option β} {next : β → Tx σ ε α}
    (continued : ∀ value, option = some value → Ensures (next value) state post) :
    Ensures (fromOption option >>= next) state post := by
  cases option with
  | none => exact nofun
  | some value => exact continued value rfl

theorem ensures_fromExcept {outcome : Except ε β} {next : β → Tx σ ε α}
    (refused : ∀ problem, outcome = .error problem → post (.error problem) state)
    (continued : ∀ value, outcome = .ok value → Ensures (next value) state post) :
    Ensures (fromExcept outcome >>= next) state post := by
  cases outcome with
  | error problem => exact fun _ _ committed => by cases committed; exact refused problem rfl
  | ok value => exact continued value rfl

/-- A transaction leaves the state alone or ends in one of its outcomes. -/
theorem commit_ensures {body : Tx σ ε α} {stored : Bool} {unstored : ε} (holds : Ensures body state post) :
    commit state stored unstored body = (.error unstored, state) ∨
      post (commit state stored unstored body).1 (commit state stored unstored body).2 := by
  cases stored with
  | false => exact Or.inl rfl
  | true =>
    simp only [commit, if_true]
    cases ran : body state with
    | none => exact Or.inl rfl
    | some outcome => exact Or.inr (holds outcome.1 outcome.2 ran)

/-- A transaction that changed the state got where every change has this fact. -/
theorem commit_changed {body : Tx σ ε α} {fact : Prop} (holds : Ensures body state fun _ after => after = state ∨ fact)
    {stored : Bool} {unstored : ε} (changed : (commit state stored unstored body).2 ≠ state) : fact := by
  have ends : commit state stored unstored body = (.error unstored, state) ∨ _ := commit_ensures holds
  rcases ends with same | same | found
  · exact absurd (congrArg Prod.snd same) changed
  · exact absurd same changed
  · exact found

def Unrefused (body : Tx σ ε α) : Prop := ∀ state, Ensures body state fun result _ => ∃ value, result = .ok value

theorem unrefused_pure (value : α) : Unrefused (pure value : Tx σ ε α) := fun _ => ensures_pure ⟨value, rfl⟩

theorem unrefused_exec (change : σ → σ) : Unrefused (exec change : Tx σ ε Unit) := by
  rintro state _ _ ⟨⟩
  exact ⟨(), rfl⟩

theorem Unrefused.bind {first : Tx σ ε β} {next : β → Tx σ ε α} (holds : Unrefused first)
    (continued : ∀ value, Unrefused (next value)) : Unrefused (first >>= next) :=
  fun state => ensures_bind (holds state) (fun _ _ ⟨_, same⟩ => nomatch same) fun value after _ => continued value after

theorem unrefused_query {view : σ → β} {next : β → Tx σ ε α} (continued : ∀ value, Unrefused (next value)) :
    Unrefused (query view >>= next) := fun state => ensures_query (continued (view state) state)

theorem unrefused_check {condition : Bool} {problem : ε} {next : Unit → Tx σ ε α} (passed : condition = true)
    (continued : Unrefused (next ())) : Unrefused (check condition problem >>= next) := fun state =>
  ensures_check (fun other => absurd passed (by simp [other])) fun _ => continued state

theorem unrefused_require {condition : Bool} {next : Unit → Tx σ ε α} (continued : Unrefused (next ())) :
    Unrefused (require condition >>= next) := fun state => ensures_require fun _ => continued state

theorem unrefused_fromOption {option : Option β} {next : β → Tx σ ε α} (continued : ∀ value, Unrefused (next value)) :
    Unrefused (fromOption option >>= next) := fun state => ensures_fromOption fun value _ => continued value state

/-- Whatever is asked of refusals holds where there are none. -/
theorem Unrefused.ensures {body : Tx σ ε α} (unrefused : Unrefused body) (allowed : ε → σ → Prop) :
    Ensures body state fun result after => ∀ problem, result = .error problem → allowed problem after := by
  rintro result after committed problem rfl
  obtain ⟨value, same⟩ := unrefused state _ _ committed
  cases same

/-- Every committed outcome is related to the state the transaction began in. -/
def Guarantees (relation : σ → σ → Prop) (body : Tx σ ε α) : Prop :=
  ∀ state, Ensures body state fun _ after => relation state after

variable {relation : σ → σ → Prop}

theorem guarantees_exec {change : σ → σ} (related : ∀ state, relation state (change state)) :
    Guarantees relation (exec change : Tx σ ε Unit) := by
  rintro state _ _ ⟨⟩
  exact related state

theorem commit_related [Std.Refl relation] {body : Tx σ ε α} (holds : Ensures body state fun _ after => relation state after)
    (stored : Bool) (unstored : ε) : relation state (commit state stored unstored body).2 := by
  have ends : commit state stored unstored body = (.error unstored, state) ∨ _ := commit_ensures holds
  rcases ends with same | related
  · rw [same]
    exact refl_of relation state
  · exact related

theorem guarantees_query {view : σ → β} {next : β → Tx σ ε α} (continued : ∀ value, Guarantees relation (next value)) :
    Guarantees relation (query view >>= next) :=
  fun state => ensures_query (continued (view state) state)

theorem guarantees_require {condition : Bool} {next : Unit → Tx σ ε α}
    (continued : condition = true → Guarantees relation (next ())) :
    Guarantees relation (require condition >>= next) :=
  fun state => ensures_require fun passed => continued passed state

theorem guarantees_fromOption {option : Option β} {next : β → Tx σ ε α}
    (continued : ∀ value, option = some value → Guarantees relation (next value)) :
    Guarantees relation (fromOption option >>= next) :=
  fun state => ensures_fromOption fun value same => continued value same state

section
variable [IsPreorder σ relation]

theorem guarantees_pure (value : α) : Guarantees relation (pure value : Tx σ ε α) :=
  fun state => ensures_pure (refl_of relation state)

theorem guarantees_refuse (problem : ε) : Guarantees relation (refuse problem : Tx σ ε α) :=
  fun state => ensures_refuse (refl_of relation state)

theorem Guarantees.bind {first : Tx σ ε β} {next : β → Tx σ ε α} (holds : Guarantees relation first)
    (continued : ∀ value, Guarantees relation (next value)) : Guarantees relation (first >>= next) := by
  intro state
  refine ensures_bind (holds state) (fun _ _ related => related) fun value middle related => ?_
  exact (continued value middle).mono fun _ _ later => trans_of relation related later

theorem guarantees_check {condition : Bool} {problem : ε} {next : Unit → Tx σ ε α}
    (continued : condition = true → Guarantees relation (next ())) :
    Guarantees relation (check condition problem >>= next) :=
  fun state => ensures_check (fun _ => refl_of relation state) fun passed => continued passed state

theorem check_guarantees (condition : Bool) (problem : ε) : Guarantees relation (check condition problem) :=
  fun state => check_ensures (fun _ => refl_of relation state) fun _ => refl_of relation state

theorem guarantees_fromExcept {outcome : Except ε β} {next : β → Tx σ ε α}
    (continued : ∀ value, outcome = .ok value → Guarantees relation (next value)) :
    Guarantees relation (fromExcept outcome >>= next) :=
  fun state => ensures_fromExcept (fun _ _ => refl_of relation state) fun value same => continued value same state

end

end Library.Transaction
