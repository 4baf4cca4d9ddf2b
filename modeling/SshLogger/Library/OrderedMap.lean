import SshLogger.Library.Rows

/-! Finite maps that remember the order in which their keys were first inserted.
A map is a table whose key is unique, so every operation is a statement on one. -/

namespace Library

structure OrderedMap (κ ν : Type) where
  entries : List (κ × ν)
  distinct : Rows.Unique Prod.fst entries
  deriving DecidableEq

namespace OrderedMap

variable {κ ν : Type}

def empty : OrderedMap κ ν := ⟨[], Rows.unique_nil _⟩

def keys (map : OrderedMap κ ν) : List κ := map.entries.map Prod.fst

theorem keys_nodup (map : OrderedMap κ ν) : map.keys.Nodup := map.distinct

@[simp] theorem keys_empty : (empty : OrderedMap κ ν).keys = [] := rfl

theorem mem_keys {map : OrderedMap κ ν} {key : κ} : key ∈ map.keys ↔ ∃ value, (key, value) ∈ map.entries := by
  simp [keys]

theorem length_keys (map : OrderedMap κ ν) : map.keys.length = map.entries.length := List.length_map _

variable [DecidableEq κ]

/-- A new key goes to the end with its first value; the value of a known key is merged in place. -/
def put (map : OrderedMap κ ν) (key : κ) (first : ν) (merge : ν → ν) : OrderedMap κ ν where
  entries := Rows.upsert Prod.fst (key, first) (fun entry => (entry.1, merge entry.2)) map.entries
  distinct := map.distinct.upsert _ fun _ => rfl

def erase (map : OrderedMap κ ν) (key : κ) : OrderedMap κ ν where
  entries := Rows.delete (fun entry => entry.1 == key) map.entries
  distinct := map.distinct.delete _

section
variable {map : OrderedMap κ ν} {key : κ} {first : ν} {merge : ν → ν}

theorem put_known (known : key ∈ map.keys) : (map.put key first merge).entries =
    Rows.update (fun entry => entry.1 == key) (fun entry => (entry.1, merge entry.2)) map.entries := by
  obtain ⟨value, stored⟩ := mem_keys.mp known
  exact if_pos (Rows.has_iff.mpr ⟨_, stored, rfl⟩)

theorem put_new (new : key ∉ map.keys) : (map.put key first merge).entries = map.entries ++ [(key, first)] := by
  refine if_neg fun known => new ?_
  obtain ⟨⟨_, value⟩, stored, rfl⟩ := Rows.has_iff.mp known
  exact mem_keys.mpr ⟨value, stored⟩

/-- A known key keeps its place. -/
theorem keys_put : (map.put key first merge).keys = if key ∈ map.keys then map.keys else map.keys ++ [key] := by
  split
  next known =>
    rw [keys, put_known known, Rows.update, List.map_map]
    refine List.map_congr_left fun entry _ => ?_
    simp only [Function.comp_apply]
    split <;> rfl
  next new => rw [keys, put_new new, List.map_append, ← keys, List.map_singleton]

theorem mem_put {entry : κ × ν} : entry ∈ (map.put key first merge).entries ↔
    entry ∈ map.entries ∧ entry.1 ≠ key ∨ entry.1 = key ∧
      ((∃ value, (key, value) ∈ map.entries ∧ entry.2 = merge value) ∨ key ∉ map.keys ∧ entry.2 = first) := by
  obtain ⟨name, value⟩ := entry
  by_cases known : key ∈ map.keys
  · simp only [put_known known, Rows.mem_update, known, not_true, false_and, or_false, Prod.exists, Prod.mk.injEq, beq_iff_eq,
      beq_eq_false_iff_ne]
    constructor
    · rintro ⟨old, before, stored, ⟨rfl, rfl, rfl⟩ | ⟨other, rfl, rfl⟩⟩
      · exact Or.inr ⟨rfl, before, stored, rfl⟩
      · exact Or.inl ⟨stored, other⟩
    · rintro (⟨stored, other⟩ | ⟨rfl, before, stored, rfl⟩)
      · exact ⟨name, value, stored, Or.inr ⟨other, rfl, rfl⟩⟩
      · exact ⟨name, before, stored, Or.inl ⟨rfl, rfl, rfl⟩⟩
  · have absent : ∀ value, (key, value) ∉ map.entries := fun value stored => known (mem_keys.mpr ⟨value, stored⟩)
    simp only [put_new known, List.mem_append, List.mem_singleton, Prod.mk.injEq, known, not_false_eq_true, true_and, absent,
      false_and, exists_false, false_or]
    refine or_congr ⟨fun stored => ⟨stored, ?_⟩, And.left⟩ Iff.rfl
    rintro rfl
    exact absent value stored

theorem mem_put_const {value : ν} {entry : κ × ν} : entry ∈ (map.put key value fun _ => value).entries ↔
    entry ∈ map.entries ∧ entry.1 ≠ key ∨ entry = (key, value) := by
  rw [mem_put]
  refine or_congr Iff.rfl ?_
  constructor
  · rintro ⟨same, ⟨_, -, chosen⟩ | ⟨-, chosen⟩⟩ <;> exact Prod.ext same chosen
  · rintro rfl
    refine ⟨rfl, ?_⟩
    by_cases known : key ∈ map.keys
    · obtain ⟨before, stored⟩ := mem_keys.mp known
      exact Or.inl ⟨before, stored, rfl⟩
    · exact Or.inr ⟨known, rfl⟩

/-- Putting a known key without a new value changes nothing. -/
theorem mem_put_id {entry : κ × ν} : entry ∈ (map.put key first id).entries ↔
    entry ∈ map.entries ∨ key ∉ map.keys ∧ entry = (key, first) := by
  obtain ⟨name, value⟩ := entry
  rw [mem_put]
  constructor
  · rintro (⟨stored, -⟩ | ⟨rfl, ⟨before, stored, rfl⟩ | ⟨new, rfl⟩⟩)
    · exact Or.inl stored
    · exact Or.inl stored
    · exact Or.inr ⟨new, rfl⟩
  · rintro (stored | ⟨new, same⟩)
    · by_cases known : name = key
      · subst known
        exact Or.inr ⟨rfl, Or.inl ⟨value, stored, rfl⟩⟩
      · exact Or.inl ⟨stored, known⟩
    · obtain ⟨rfl, rfl⟩ := Prod.mk.inj same
      exact Or.inr ⟨rfl, Or.inr ⟨new, rfl⟩⟩

theorem keys_erase : (map.erase key).keys = map.keys.filter (· != key) := by
  simp only [keys, erase, Rows.delete, List.filter_map]
  rfl

theorem mem_erase {entry : κ × ν} : entry ∈ (map.erase key).entries ↔ entry ∈ map.entries ∧ entry.1 ≠ key := by
  simp [erase]

end

end OrderedMap

end Library
