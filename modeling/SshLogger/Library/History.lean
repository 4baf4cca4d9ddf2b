import Mathlib.Data.List.Basic

/-! Finite runs of a labelled system and past-time statements about them. A run
keeps the list of its transitions, newest first, so that "was created by" and
"has not changed since" are statements about the run and need no ghost fields. -/

namespace Library.History

variable {σ α : Type*}

structure Transition (σ α : Type*) where
  before : σ
  action : α
  after : σ

structure System (σ α : Type*) where
  init : σ → Prop
  step : σ → α → σ → Prop

inductive Run (system : System σ α) : List (Transition σ α) → σ → Prop
  | start {state} : system.init state → Run system [] state
  | next {history state action after} : Run system history state →
      system.step state action after → Run system (⟨state, action, after⟩ :: history) after

variable {system : System σ α}

/-- An assertion about the past and the present that holds initially and is
kept by every step holds throughout every run. -/
theorem Run.induct (assertion : List (Transition σ α) → σ → Prop)
    (initial : ∀ state, system.init state → assertion [] state)
    (kept : ∀ history state action after, Run system history state → assertion history state →
      system.step state action after → assertion (⟨state, action, after⟩ :: history) after)
    {history state} (run : Run system history state) : assertion history state := by
  induction run with
  | start started => exact initial _ started
  | next earlier moved ih => exact kept _ _ _ _ earlier ih moved

theorem Run.invariant (valid : σ → Prop)
    (initial : ∀ state, system.init state → valid state)
    (kept : ∀ state action after, valid state → system.step state action after → valid after)
    {history state} (run : Run system history state) : valid state :=
  run.induct (fun _ state => valid state) initial
    (fun _ _ _ _ _ holds moved => kept _ _ _ holds moved)

/-- Every suffix of a history is itself the history of a run. -/
theorem Run.earlier {later history state} (run : Run system (later ++ history) state) :
    ∃ middle, Run system history middle := by
  induction later generalizing state with
  | nil => exact ⟨state, run⟩
  | cons transition later ih =>
    cases run with
    | next before _ => exact ih before

theorem Run.newest {transition : Transition σ α} {history state}
    (run : Run system (transition :: history) state) :
    transition.after = state ∧ Run system history transition.before ∧
      system.step transition.before transition.action transition.after := by
  cases run with
  | next before moved => exact ⟨rfl, before, moved⟩

theorem Run.at_transition {transition : Transition σ α} {later history state}
    (run : Run system (later ++ transition :: history) state) :
    Run system history transition.before ∧
      system.step transition.before transition.action transition.after := by
  obtain ⟨middle, there⟩ := run.earlier
  exact ⟨there.newest.2.1, there.newest.2.2⟩

theorem Run.of_mem {transition : Transition σ α} {history state}
    (run : Run system history state) (member : transition ∈ history) :
    ∃ older, Run system older transition.before ∧
      system.step transition.before transition.action transition.after := by
  obtain ⟨later, older, rfl⟩ := List.append_of_mem member
  exact ⟨older, run.at_transition⟩

/-- What one transition established and every newer step keeps, as long as it
stays quiet, still holds at the end of the run. -/
theorem Run.persists_while (fact : σ → Prop) (quiet : Transition σ α → Prop) {transition : Transition σ α}
    {later history state} (run : Run system (later ++ transition :: history) state)
    (established : fact transition.after) (still : ∀ newer ∈ later, quiet newer)
    (kept : ∀ history state action after, Run system history state → fact state → quiet ⟨state, action, after⟩ →
      system.step state action after → fact after) : fact state := by
  induction later generalizing state with
  | nil => exact run.newest.1 ▸ established
  | cons last later ih =>
    obtain ⟨rfl, before, moved⟩ := run.newest
    have held := ih before fun newer member => still newer (List.mem_cons_of_mem _ member)
    exact kept _ _ _ _ before held (still last List.mem_cons_self) moved

/-- What one transition established and every reachable step keeps still holds
at the end of the run. -/
theorem Run.persists (fact : σ → Prop) {transition : Transition σ α} {later history state}
    (run : Run system (later ++ transition :: history) state)
    (established : fact transition.after)
    (kept : ∀ history state action after, Run system history state → fact state →
      system.step state action after → fact after) : fact state :=
  run.persists_while fact (fun _ => True) established (fun _ _ => trivial)
    fun _ _ _ _ before held _ moved => kept _ _ _ _ before held moved

/-- A bounded response. While the goal is not reached, steps keep a rank from growing and
every counted one lowers it by `drop`; so the goal is reached after enough of them. -/
theorem Run.within (goal : σ → Prop) (rank : Nat → σ → Prop) (counted : Transition σ α → Bool) (drop : Nat)
    {transition : Transition σ α} {later history state n}
    (run : Run system (later ++ transition :: history) state) (established : rank n transition.after)
    (reached : ∀ history state action after, Run system history state → goal state →
      system.step state action after → goal after)
    (lowered : ∀ history state action after m, Run system history state → rank m state →
      system.step state action after → goal after ∨
        ∃ less, rank less after ∧ less + (if counted ⟨state, action, after⟩ then drop else 0) ≤ m)
    (enough : n < drop * (later.filter counted).length) : goal state := by
  have either : goal state ∨ ∃ m, rank m state ∧ m + drop * (later.filter counted).length ≤ n := by
    clear enough
    induction later generalizing state with
    | nil =>
      rw [← run.newest.1]
      exact .inr ⟨n, established, by simp⟩
    | cons last later ih =>
      obtain ⟨rfl, before, moved⟩ := run.newest
      rcases ih before with done | ⟨m, ranked, bounded⟩
      · exact .inl (reached _ _ _ _ before done moved)
      · refine (lowered _ _ _ _ m before ranked moved).imp id fun ⟨less, ranked, smaller⟩ => ⟨less, ranked, ?_⟩
        cases counts : counted last with
        | true =>
          rw [counts, if_pos rfl] at smaller
          rw [List.filter_cons_of_pos counts, List.length_cons, Nat.mul_succ]
          omega
        | false =>
          rw [counts] at smaller
          rw [List.filter_cons_of_neg (by simp [counts])]
          simp only [Bool.false_eq_true, if_false] at smaller
          omega
  rcases either with done | ⟨m, -, bounded⟩
  · exact done
  · omega

/-- The state in which the newest transitions began, when they end in `state`. -/
def origin (state : σ) : List (Transition σ α) → σ
  | [] => state
  | transition :: earlier => origin transition.before earlier

theorem origin_append (state : σ) (later earlier : List (Transition σ α)) :
    origin state (later ++ earlier) = origin (origin state later) earlier := by
  induction later generalizing state with
  | nil => rfl
  | cons transition later ih => exact ih transition.before

theorem Run.origin {later history state} (run : Run system (later ++ history) state) :
    Run system history (origin state later) := by
  induction later generalizing state with
  | nil => exact run
  | cons transition later ih => exact ih run.newest.2.1

/-- `Since keep hit history`: some transition satisfied `hit`, given what had
happened before it, and every newer one satisfies `keep`. -/
def Since (keep : Transition σ α → Prop) (hit : Transition σ α → List (Transition σ α) → Prop) :
    List (Transition σ α) → Prop
  | [] => False
  | transition :: history => hit transition history ∨ keep transition ∧ Since keep hit history

section
variable {keep : Transition σ α → Prop} {hit : Transition σ α → List (Transition σ α) → Prop}

theorem Since.here {transition history} (happened : hit transition history) :
    Since keep hit (transition :: history) := Or.inl happened

theorem Since.step {transition history} (kept : keep transition) (since : Since keep hit history) :
    Since keep hit (transition :: history) := Or.inr ⟨kept, since⟩

/-- A transition that neither hits nor keeps is older than the one that hit. -/
theorem Since.recent {later transition older} (since : Since keep hit (later ++ transition :: older))
    (missed : ¬ hit transition older) (broken : ¬ keep transition) :
    Since keep (fun newer between => hit newer (between ++ transition :: older)) later := by
  induction later with
  | nil => exact (since.elim missed fun kept => broken kept.1).elim
  | cons first later ih => exact since.imp id fun kept => ⟨kept.1, ih kept.2⟩

end

/-- How often something happened since the last reset. What happens in the step
of a reset counts as happening after it. -/
def countSince (hit reset : Transition σ α → Bool) : List (Transition σ α) → Nat
  | [] => 0
  | transition :: history =>
    (if reset transition then 0 else countSince hit reset history) + if hit transition then 1 else 0

end Library.History
