import Mathlib.Data.List.Nodup
import Mathlib.Data.List.Basic

/-! Grouping a sequence by a key. Groups stand in the order in which their keys
first appear, and each keeps its members in order. -/

namespace Library.Grouping

variable {ρ κ : Type*} [DecidableEq κ] (key : ρ → κ)

/-- The keys of a sequence in the order of their first appearance. -/
def keys : List ρ → List κ
  | [] => []
  | row :: rest => key row :: (keys rest).filter (· ≠ key row)

def members (value : κ) (rows : List ρ) : List ρ := rows.filter fun row => key row = value

def groups (rows : List ρ) : List (List ρ) := (keys key rows).map fun value => members key value rows

variable {key}

theorem mem_keys {value : κ} {rows : List ρ} : value ∈ keys key rows ↔ ∃ row ∈ rows, key row = value := by
  induction rows with
  | nil => simp [keys]
  | cons row rest ih =>
    by_cases same : value = key row
    · simp [keys, same]
    · simp [keys, same, ih, Ne.symm same]

theorem keys_append (first second : List ρ) :
    keys key (first ++ second) = keys key first ++ (keys key second).filter (· ∉ keys key first) := by
  induction first with
  | nil => simp [keys]
  | cons row rest ih =>
    simp only [List.cons_append, keys, ih, List.filter_append, List.filter_filter]
    congr 2
    apply List.filter_congr
    intro value _
    by_cases same : value = key row <;> simp [same]

theorem keys_nodup (rows : List ρ) : (keys key rows).Nodup := by
  induction rows with
  | nil => exact List.nodup_nil
  | cons row rest ih => exact List.nodup_cons.mpr ⟨by simp, ih.filter _⟩

/-- The first key is the last one when there is no other. -/
theorem keys_getLast {row : ρ} {rest : List ρ} :
    (keys key (row :: rest)).getLast? = some (key row) ↔ ∀ other ∈ rest, key other = key row := by
  simp only [keys]
  constructor
  · intro last other member
    by_contra different
    have listed : key other ∈ (keys key rest).filter (· ≠ key row) := by
      simpa [different] using mem_keys.mpr ⟨other, member, rfl⟩
    rw [List.getLast?_cons, Option.some_inj] at last
    cases others : (keys key rest).filter (· ≠ key row) with
    | nil =>
      rw [others] at listed
      cases listed
    | cons first more =>
      have inside : key row ∈ (keys key rest).filter (· ≠ key row) := by
        rw [others, List.getLast?_eq_some_getLast (by simp), Option.getD_some] at last
        rw [others, ← last]
        exact List.getLast_mem _
      simp at inside
  · intro same
    have none_left : (keys key rest).filter (· ≠ key row) = [] := by
      refine List.filter_eq_nil_iff.mpr fun value member => ?_
      obtain ⟨other, inside, rfl⟩ := mem_keys.mp member
      simpa using same other inside
    rw [none_left]
    rfl

theorem keys_concat_of_mem {rows : List ρ} {row : ρ} (seen : key row ∈ keys key rows) :
    keys key (rows ++ [row]) = keys key rows := by
  simp [keys_append, keys, seen]

theorem keys_concat_of_not_mem {rows : List ρ} {row : ρ} (fresh : key row ∉ keys key rows) :
    keys key (rows ++ [row]) = keys key rows ++ [key row] := by
  simp [keys_append, keys, fresh]

@[simp] theorem members_append (value : κ) (first second : List ρ) :
    members key value (first ++ second) = members key value first ++ members key value second := by
  simp [members]

@[simp] theorem mem_members {value : κ} {rows : List ρ} {row : ρ} :
    row ∈ members key value rows ↔ row ∈ rows ∧ key row = value := by
  simp [members]

theorem members_eq_nil {value : κ} {rows : List ρ} (absent : value ∉ keys key rows) :
    members key value rows = [] := by
  simp only [members, List.filter_eq_nil_iff, decide_eq_true_eq]
  exact fun row member same => absent (mem_keys.mpr ⟨row, member, same⟩)

theorem mem_groups {rows : List ρ} {group : List ρ} :
    group ∈ groups key rows ↔ ∃ value ∈ keys key rows, members key value rows = group := by
  simp [groups]

end Library.Grouping
