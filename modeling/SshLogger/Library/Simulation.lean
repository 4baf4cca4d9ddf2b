import SshLogger.Library.History

/-! Forward simulation: every step of a concrete system is one step of an abstract
one or none at all, so that what holds in every run of the abstract system holds
of the states the concrete one reaches. -/

namespace Library.History

universe u v
variable {σ α : Type u} {τ β : Type v}

/-- `allowed` is what is assumed of the concrete steps. -/
structure Simulation (concrete : System σ α) (abstract : System τ β) (allowed : σ → α → Prop) where
  related : σ → τ → Prop
  initial : ∀ state, concrete.init state → ∃ image, abstract.init image ∧ related state image
  step : ∀ {state action after image}, related state image → allowed state action → concrete.step state action after →
    related after image ∨ ∃ act next, abstract.step image act next ∧ related after next

variable {concrete : System σ α} {abstract : System τ β} {allowed : σ → α → Prop}

/-- Every run of the concrete system is matched by a run of the abstract one. -/
theorem Simulation.run (simulation : Simulation concrete abstract allowed) {history : List (Transition σ α)} {state : σ}
    (run : Run concrete history state) (assumed : ∀ t ∈ history, allowed t.before t.action) :
    ∃ past image, Run abstract past image ∧ simulation.related state image := by
  induction run with
  | start started =>
    obtain ⟨image, begun, related⟩ := simulation.initial _ started
    exact ⟨[], image, .start begun, related⟩
  | next earlier moved ih =>
    obtain ⟨last, before⟩ := List.forall_mem_cons.mp assumed
    obtain ⟨past, image, matched, related⟩ := ih before
    rcases simulation.step related last moved with stays | ⟨act, next, follows, related⟩
    · exact ⟨past, image, matched, stays⟩
    · exact ⟨_, next, matched.next follows, related⟩

/-- An invariant of the abstract system, seen from the concrete one. -/
theorem Simulation.invariant (simulation : Simulation concrete abstract allowed) {valid : τ → Prop}
    (holds : ∀ {past image}, Run abstract past image → valid image) {history : List (Transition σ α)} {state : σ}
    (run : Run concrete history state) (assumed : ∀ t ∈ history, allowed t.before t.action) :
    ∃ image, simulation.related state image ∧ valid image := by
  obtain ⟨past, image, matched, related⟩ := simulation.run run assumed
  exact ⟨image, related, holds matched⟩

/-- What the abstract steps keep is kept along the concrete run, where both systems
say the same about it. -/
theorem Simulation.persists (simulation : Simulation concrete abstract allowed) {valid : τ → Prop}
    (holds : ∀ {past image}, Run abstract past image → valid image) {fact : σ → Prop} {shadow : τ → Prop}
    (agree : ∀ {state image}, simulation.related state image → (fact state ↔ shadow image))
    (kept : ∀ {image act next}, valid image → abstract.step image act next → shadow image → shadow next)
    {transition : Transition σ α} {later history : List (Transition σ α)} {state : σ}
    (run : Run concrete (later ++ transition :: history) state)
    (assumed : ∀ t ∈ later ++ transition :: history, allowed t.before t.action) (established : fact transition.after) :
    fact state := by
  induction later generalizing state with
  | nil => exact run.newest.1 ▸ established
  | cons last later ih =>
    obtain ⟨rfl, before, moved⟩ := run.newest
    obtain ⟨newest, earlier⟩ := List.forall_mem_cons.mp assumed
    have held := ih before earlier
    obtain ⟨past, image, matched, related⟩ := simulation.run before earlier
    have shown := (agree related).mp held
    rcases simulation.step related newest moved with stays | ⟨act, next, follows, after⟩
    · exact (agree stays).mpr shown
    · exact (agree after).mpr (kept (holds matched) follows shown)

end Library.History
