import Mathlib.Data.List.Nodup
import Mathlib.Data.List.Basic
import Mathlib.Order.Defs.Unbundled

/-! A relational table as a list of rows. Statements are the operations a SQL
store performs on one table; a primary key is a function whose values are
distinct, and every operation that respects it keeps it so. -/

namespace Library.Rows

variable {ρ κ : Type*}

/-- `UPDATE ... SET change WHERE selected`. -/
def update (selected : ρ → Bool) (change : ρ → ρ) (rows : List ρ) : List ρ :=
  rows.map fun row => if selected row then change row else row

/-- `DELETE ... WHERE selected`. -/
def delete (selected : ρ → Bool) (rows : List ρ) : List ρ :=
  rows.filter fun row => !selected row

def has [DecidableEq κ] (key : ρ → κ) (value : κ) (rows : List ρ) : Bool :=
  rows.any fun row => key row == value

/-- `INSERT ... ON CONFLICT(key) DO NOTHING`, or `INSERT OR IGNORE`. -/
def insertOrIgnore [DecidableEq κ] (key : ρ → κ) (row : ρ) (rows : List ρ) : List ρ :=
  if has key (key row) rows then rows else rows ++ [row]

/-- `INSERT ... ON CONFLICT(key) DO UPDATE SET merge`. -/
def upsert [DecidableEq κ] (key : ρ → κ) (row : ρ) (merge : ρ → ρ) (rows : List ρ) : List ρ :=
  if has key (key row) rows then update (fun old => key old == key row) merge rows else rows ++ [row]

/-- A primary key: no two rows share its value. -/
def Unique (key : ρ → κ) (rows : List ρ) : Prop := (rows.map key).Nodup

theorem mem_update {selected : ρ → Bool} {change : ρ → ρ} {rows : List ρ} {row : ρ} :
    row ∈ update selected change rows ↔
      ∃ old ∈ rows, (selected old = true ∧ change old = row) ∨ (selected old = false ∧ old = row) := by
  simp only [update, List.mem_map]
  constructor
  · rintro ⟨old, member, same⟩
    cases chosen : selected old <;> simp only [chosen, if_true, if_false, Bool.false_eq_true] at same
    · exact ⟨old, member, Or.inr ⟨chosen, same⟩⟩
    · exact ⟨old, member, Or.inl ⟨chosen, same⟩⟩
  · rintro ⟨old, member, ⟨chosen, same⟩ | ⟨chosen, same⟩⟩
    all_goals exact ⟨old, member, by simpa [chosen] using same⟩

@[simp] theorem mem_delete {selected : ρ → Bool} {rows : List ρ} {row : ρ} :
    row ∈ delete selected rows ↔ row ∈ rows ∧ selected row = false := by
  simp [delete]

theorem has_iff [DecidableEq κ] {key : ρ → κ} {value : κ} {rows : List ρ} :
    has key value rows = true ↔ ∃ row ∈ rows, key row = value := by
  simp [has]

theorem has_false_iff [DecidableEq κ] {key : ρ → κ} {value : κ} {rows : List ρ} :
    has key value rows = false ↔ ∀ row ∈ rows, key row ≠ value := by
  simp [has]

theorem mem_insertOrIgnore [DecidableEq κ] {key : ρ → κ} {row : ρ} {rows : List ρ} {found : ρ} :
    found ∈ insertOrIgnore key row rows ↔
      found ∈ rows ∨ (has key (key row) rows = false ∧ found = row) := by
  unfold insertOrIgnore
  cases present : has key (key row) rows <;> simp

theorem mem_upsert [DecidableEq κ] {key : ρ → κ} {row : ρ} {merge : ρ → ρ} {rows : List ρ} {found : ρ}
    (member : found ∈ upsert key row merge rows) :
    (found ∈ rows ∧ key found ≠ key row) ∨ (has key (key row) rows = false ∧ found = row) ∨
      ∃ old ∈ rows, key old = key row ∧ found = merge old := by
  unfold upsert at member
  cases present : has key (key row) rows <;> simp only [present, if_true, if_false, Bool.false_eq_true] at member
  · rcases List.mem_append.mp member with kept | added
    · exact Or.inl ⟨kept, has_false_iff.mp present found kept⟩
    · exact Or.inr (Or.inl ⟨rfl, List.mem_singleton.mp added⟩)
  · obtain ⟨old, stored, ⟨chosen, same⟩ | ⟨chosen, same⟩⟩ := mem_update.mp member
    · exact Or.inr (Or.inr ⟨old, stored, by simpa using chosen, same.symm⟩)
    · exact Or.inl (same ▸ ⟨stored, by simpa using chosen⟩)

theorem mem_upsert_of_ne [DecidableEq κ] {key : ρ → κ} {row : ρ} {merge : ρ → ρ} {rows : List ρ} {found : ρ}
    (stored : found ∈ rows) (different : key found ≠ key row) : found ∈ upsert key row merge rows := by
  unfold upsert
  split
  · exact mem_update.mpr ⟨found, stored, Or.inr ⟨by simpa using different, rfl⟩⟩
  · exact List.mem_append_left _ stored

theorem mem_update_of_not {selected : ρ → Bool} {change : ρ → ρ} {rows : List ρ} {row : ρ}
    (stored : row ∈ rows) (other : selected row = false) : row ∈ update selected change rows :=
  mem_update.mpr ⟨row, stored, Or.inr ⟨other, rfl⟩⟩

theorem mem_update_of {selected : ρ → Bool} {change : ρ → ρ} {rows : List ρ} {row : ρ}
    (stored : row ∈ rows) (chosen : selected row = true) : change row ∈ update selected change rows :=
  mem_update.mpr ⟨row, stored, Or.inl ⟨chosen, rfl⟩⟩

/-- Changes that keep the key lose none. -/
theorem exists_update {key : ρ → κ} {selected : ρ → Bool} {change : ρ → ρ} (keeps : ∀ row, key (change row) = key row)
    {rows : List ρ} {old : ρ} (stored : old ∈ rows) : ∃ row ∈ update selected change rows, key row = key old := by
  cases chosen : selected old
  · exact ⟨old, mem_update_of_not stored chosen, rfl⟩
  · exact ⟨change old, mem_update_of stored chosen, keeps old⟩

theorem exists_upsert [DecidableEq κ] {key : ρ → κ} {row : ρ} {merge : ρ → ρ} (keeps : ∀ old, key (merge old) = key old)
    {rows : List ρ} {old : ρ} (stored : old ∈ rows) : ∃ found ∈ upsert key row merge rows, key found = key old := by
  unfold upsert
  split
  · exact exists_update keeps stored
  · exact ⟨old, List.mem_append_left _ stored, rfl⟩

theorem exists_upsert_self [DecidableEq κ] {key : ρ → κ} {merge : ρ → ρ} (keeps : ∀ old, key (merge old) = key old)
    (row : ρ) (rows : List ρ) : ∃ found ∈ upsert key row merge rows, key found = key row := by
  unfold upsert
  split
  next present =>
    obtain ⟨old, stored, same⟩ := has_iff.mp present
    obtain ⟨found, member, equal⟩ := exists_update keeps stored
    exact ⟨found, member, equal.trans same⟩
  · exact ⟨row, List.mem_append_right _ (List.mem_singleton_self _), rfl⟩

@[simp] theorem unique_nil (key : ρ → κ) : Unique key [] := List.nodup_nil

theorem Unique.delete {key : ρ → κ} {rows : List ρ} (unique : Unique key rows) (selected : ρ → Bool) :
    Unique key (delete selected rows) :=
  unique.sublist (List.filter_sublist.map _)

theorem map_update {key : ρ → κ} {rows : List ρ} {selected : ρ → Bool} {change : ρ → ρ}
    (keeps : ∀ row, key (change row) = key row) : (update selected change rows).map key = rows.map key := by
  simp only [Rows.update, List.map_map]
  apply List.map_congr_left
  intro row _
  simp only [Function.comp_apply]
  split
  · exact keeps row
  · rfl

theorem map_upsert [DecidableEq κ] {key : ρ → κ} {merge : ρ → ρ} (keeps : ∀ old, key (merge old) = key old) (row : ρ)
    (rows : List ρ) : (upsert key row merge rows).map key =
      if has key (key row) rows then rows.map key else rows.map key ++ [key row] := by
  unfold upsert
  split
  · exact map_update keeps
  · exact List.map_append

theorem Unique.update {key : ρ → κ} {rows : List ρ} (unique : Unique key rows) {selected : ρ → Bool}
    {change : ρ → ρ} (keeps : ∀ row, key (change row) = key row) : Unique key (update selected change rows) := by
  simpa only [Unique, map_update keeps] using unique

theorem Unique.append {key : ρ → κ} {rows : List ρ} (unique : Unique key rows) {row : ρ}
    (fresh : ∀ old ∈ rows, key old ≠ key row) : Unique key (rows ++ [row]) := by
  simp only [Unique, List.map_append, List.map_singleton, List.nodup_append]
  refine ⟨unique, by simp, ?_⟩
  intro value member other singleton
  obtain ⟨old, stored, rfl⟩ := List.mem_map.mp member
  exact (List.mem_singleton.mp singleton) ▸ fresh old stored

theorem Unique.insertOrIgnore [DecidableEq κ] {key : ρ → κ} {rows : List ρ} (unique : Unique key rows)
    (row : ρ) : Unique key (insertOrIgnore key row rows) := by
  unfold Rows.insertOrIgnore
  split
  · exact unique
  next absent => exact unique.append (has_false_iff.mp (by simpa using absent))

theorem Unique.upsert [DecidableEq κ] {key : ρ → κ} {rows : List ρ} (unique : Unique key rows) (row : ρ)
    {merge : ρ → ρ} (keeps : ∀ old, key (merge old) = key old) : Unique key (upsert key row merge rows) := by
  unfold Rows.upsert
  split
  · exact unique.update keeps
  next absent => exact unique.append (has_false_iff.mp (by simpa using absent))

theorem Unique.eq {key : ρ → κ} {rows : List ρ} (unique : Unique key rows) {first second : ρ}
    (stored : first ∈ rows) (also : second ∈ rows) (same : key first = key second) : first = second :=
  List.inj_on_of_nodup_map unique stored also same

/-- The row of a key is the first with it. -/
theorem Unique.find? [DecidableEq κ] {key : ρ → κ} {rows : List ρ} (unique : Unique key rows) {row : ρ}
    (stored : row ∈ rows) : (rows.find? fun other => key other == key row) = some row := by
  cases found : rows.find? fun other => key other == key row with
  | none => exact absurd (List.find?_eq_none.mp found row stored) (by simp)
  | some first =>
    have same : key first = key row := by simpa using List.find?_some found
    rw [unique.eq (List.mem_of_find?_eq_some found) stored same]

theorem update_cons (selected : ρ → Bool) (change : ρ → ρ) (row : ρ) (rows : List ρ) :
    update selected change (row :: rows) = (if selected row then change row else row) :: update selected change rows := rfl

theorem update_eq_self {selected : ρ → Bool} {change : ρ → ρ} {rows : List ρ}
    (none_selected : ∀ row ∈ rows, selected row = false) : update selected change rows = rows := by
  have same : update selected change rows = rows.map id :=
    List.map_congr_left fun row member => by simp [none_selected row member]
  rw [same, List.map_id]

section
variable [DecidableEq κ] {key : ρ → κ} {merge change : ρ → ρ} {selected : ρ → Bool}

theorem find?_update (keeps : ∀ row, key (change row) = key row) (value : κ) (rows : List ρ) :
    (update selected change rows).find? (fun row => key row == value) =
      (rows.find? fun row => key row == value).map fun row => if selected row then change row else row := by
  rw [update, List.find?_map]
  refine congrArg _ (congrArg (List.find? · rows) (funext fun row => ?_))
  simp only [Function.comp_apply]
  split
  · rw [keeps]
  · rfl

theorem find?_upsert_self (keeps : ∀ row, key (merge row) = key row) (row : ρ) (rows : List ρ) :
    (upsert key row merge rows).find? (fun old => key old == key row) =
      some (((rows.find? fun old => key old == key row).map merge).getD row) := by
  unfold upsert
  split
  next present =>
    obtain ⟨old, stored, same⟩ := has_iff.mp present
    have found : (rows.find? fun old => key old == key row).isSome = true :=
      List.find?_isSome.mpr ⟨old, stored, by simp [same]⟩
    obtain ⟨first, found⟩ := Option.isSome_iff_exists.mp found
    rw [find?_update keeps, found]
    have own := List.find?_some found
    simp only [Option.map_some, own, if_true, Option.getD_some]
  next absent =>
    have none_found : (rows.find? fun old => key old == key row) = none :=
      List.find?_eq_none.mpr fun old stored => by simpa using has_false_iff.mp (by simpa using absent) old stored
    rw [List.find?_append, none_found]
    simp

theorem find?_upsert_ne (keeps : ∀ row, key (merge row) = key row) {row : ρ} {value : κ} (other : key row ≠ value)
    (rows : List ρ) : (upsert key row merge rows).find? (fun old => key old == value) =
      rows.find? fun old => key old == value := by
  unfold upsert
  split
  · rw [find?_update keeps]
    cases found : rows.find? fun old => key old == value with
    | none => rfl
    | some first =>
      have own : key first = value := by simpa using List.find?_some found
      have unselected : key first ≠ key row := own ▸ other.symm
      simp [unselected]
  · rw [List.find?_append]
    simp [other]

end

/-- Every row is still there, in a form the relation allows. -/
def Evolves (related : ρ → ρ → Prop) (before after : List ρ) : Prop :=
  ∀ row ∈ before, ∃ row' ∈ after, related row row'

section
variable {related : ρ → ρ → Prop} [IsPreorder ρ related] {before middle after : List ρ}

theorem Evolves.refl (rows : List ρ) : Evolves related rows rows :=
  fun row member => ⟨row, member, refl_of related row⟩

theorem Evolves.trans (first : Evolves related before middle) (second : Evolves related middle after) :
    Evolves related before after := by
  intro row member
  obtain ⟨row', there, one⟩ := first row member
  obtain ⟨row'', last, more⟩ := second row' there
  exact ⟨row'', last, trans_of related one more⟩

theorem Evolves.update {selected : ρ → Bool} {change : ρ → ρ} (allowed : ∀ row, selected row = true → related row (change row)) :
    Evolves related before (update selected change before) := by
  intro row member
  cases chosen : selected row with
  | true => exact ⟨_, mem_update_of member chosen, allowed row chosen⟩
  | false => exact ⟨row, mem_update_of_not member chosen, refl_of related row⟩

theorem Evolves.upsert [DecidableEq κ] {key : ρ → κ} {row : ρ} {merge : ρ → ρ} (allowed : ∀ old, related old (merge old)) :
    Evolves related before (upsert key row merge before) := by
  unfold Rows.upsert
  split
  · exact .update fun old _ => allowed old
  · exact fun old member => ⟨old, List.mem_append_left _ member, refl_of related old⟩

/-- A table evolves through a sequence of statements if it does through each. -/
theorem Evolves.foldl {σ α : Type*} (table : σ → List ρ) {statement : σ → α → σ}
    (each : ∀ state item, Evolves related (table state) (table (statement state item))) (items : List α) (state : σ) :
    Evolves related (table state) (table (items.foldl statement state)) := by
  induction items generalizing state with
  | nil => exact .refl _
  | cons item rest ih => exact (each state item).trans (ih _)

end

end Library.Rows
