import SshLogger.Library.Rows
import Mathlib.Data.List.Forall2

/-! Two tables whose rows correspond one by one. A statement carried out on both of
them, or on one of them alone, keeps them so. -/

namespace Library.Rows

variable {ρ ς κ : Type*} {related : ρ → ς → Prop} {first : List ρ} {second : List ς}

theorem Matched.other {row : ρ} (matched : List.Forall₂ related first second) (member : row ∈ first) :
    ∃ other ∈ second, related row other := by
  induction matched with
  | nil => cases member
  | cons pair rest ih =>
    rcases List.mem_cons.mp member with rfl | later
    · exact ⟨_, List.mem_cons_self, pair⟩
    · obtain ⟨other, there, found⟩ := ih later
      exact ⟨other, List.mem_cons_of_mem _ there, found⟩

theorem Matched.map_eq {key : ρ → κ} {label : ς → κ} (matched : List.Forall₂ related first second)
    (keyed : ∀ row other, related row other → key row = label other) : first.map key = second.map label := by
  induction matched with
  | nil => rfl
  | cons pair rest ih => rw [List.map_cons, List.map_cons, keyed _ _ pair, ih]

theorem Matched.update {selected : ρ → Bool} {chosen : ς → Bool} {change : ρ → ρ} {alter : ς → ς}
    (matched : List.Forall₂ related first second) (same : ∀ row other, related row other → selected row = chosen other)
    (kept : ∀ row other, related row other → selected row = true → related (change row) (alter other)) :
    List.Forall₂ related (update selected change first) (update chosen alter second) := by
  rw [Rows.update, Rows.update, List.forall₂_map_left_iff, List.forall₂_map_right_iff]
  refine matched.imp fun row other pair => ?_
  rw [← same row other pair]
  split
  next picked => exact kept row other pair picked
  next => exact pair

/-- A statement on the first table only. -/
theorem Matched.updateFirst {selected : ρ → Bool} {change : ρ → ρ} (matched : List.Forall₂ related first second)
    (kept : ∀ row other, related row other → selected row = true → related (change row) other) :
    List.Forall₂ related (Rows.update selected change first) second := by
  rw [Rows.update, List.forall₂_map_left_iff]
  refine matched.imp fun row other pair => ?_
  split
  next picked => exact kept row other pair picked
  next => exact pair

theorem Matched.has [DecidableEq κ] {key : ρ → κ} {label : ς → κ} (matched : List.Forall₂ related first second)
    (keyed : ∀ row other, related row other → key row = label other) (value : κ) : has key value first = has label value second := by
  induction matched with
  | nil => rfl
  | cons pair rest ih =>
    simp only [Rows.has, List.any_cons] at ih ⊢
    rw [keyed _ _ pair, ih]

theorem Matched.upsert [DecidableEq κ] {key : ρ → κ} {label : ς → κ} {row : ρ} {other : ς} {merge : ρ → ρ} {blend : ς → ς}
    (matched : List.Forall₂ related first second) (keyed : ∀ row other, related row other → key row = label other)
    (pair : related row other)
    (kept : ∀ old ancient, related old ancient → key old = key row → related (merge old) (blend ancient)) :
    List.Forall₂ related (Rows.upsert key row merge first) (Rows.upsert label other blend second) := by
  have there : Rows.has label (label other) second = Rows.has key (key row) first := by
    rw [← keyed _ _ pair, Matched.has matched keyed]
  simp only [Rows.upsert, there]
  split
  · refine Matched.update matched (fun old ancient same => ?_) fun old ancient same picked => ?_
    · rw [keyed _ _ same, keyed _ _ pair]
    · exact kept old ancient same (by simpa using picked)
  · exact List.rel_append matched (.cons pair .nil)

end Library.Rows
