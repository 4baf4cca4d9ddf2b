import Mathlib.Data.List.Sort
import Mathlib.Data.List.Basic

/-! A relational table whose rows carry row ids. A new row is given one more
than the largest id there is, so that rows in id order are rows in the order of
their insertion, whatever has been deleted in between. -/

namespace Library.Rowid

variable {ρ : Type*}

/-- The entries stand in no particular order. -/
structure Table (ρ : Type*) where
  entries : List (Nat × ρ)
  distinct : (entries.map Prod.fst).Nodup

namespace Table

def empty : Table ρ := ⟨[], List.nodup_nil⟩

def next (entries : List (Nat × ρ)) : Nat := (entries.map Prod.fst).foldr max 0 + 1

theorem lt_next {entries : List (Nat × ρ)} {entry : Nat × ρ} (member : entry ∈ entries) : entry.1 < next entries := by
  have below : ∀ ids : List Nat, ∀ id ∈ ids, id ≤ ids.foldr max 0 := by
    intro ids
    induction ids with
    | nil => simp
    | cons first rest ih =>
      intro id inside
      rw [List.foldr_cons]
      rcases List.mem_cons.mp inside with rfl | later
      · exact Nat.le_max_left _ _
      · exact Nat.le_trans (ih id later) (Nat.le_max_right _ _)
  exact Nat.lt_succ_of_le (below _ _ (List.mem_map_of_mem member))

/-- `INSERT` with the row id that the store assigns. -/
def insert (t : Table ρ) (row : ρ) : Table ρ where
  entries := (next t.entries, row) :: t.entries
  distinct := by
    refine List.nodup_cons.mpr ⟨fun member => ?_, t.distinct⟩
    obtain ⟨entry, inside, same⟩ := List.mem_map.mp member
    exact Nat.ne_of_lt (lt_next inside) same

/-- `DELETE ... WHERE selected` -/
def delete (selected : ρ → Bool) (t : Table ρ) : Table ρ where
  entries := t.entries.filter fun entry => !selected entry.2
  distinct := t.distinct.sublist (List.filter_sublist.map _)

/-- The entries under `ORDER BY rowid`. -/
def sorted (t : Table ρ) : List (Nat × ρ) := t.entries.insertionSort fun first second => first.1 ≤ second.1

def rows (t : Table ρ) : List ρ := t.sorted.map Prod.snd

theorem mem_sorted {t : Table ρ} {entry : Nat × ρ} : entry ∈ t.sorted ↔ entry ∈ t.entries :=
  (List.perm_insertionSort _ _).mem_iff

theorem mem_rows {t : Table ρ} {row : ρ} : row ∈ t.rows ↔ row ∈ t.entries.map Prod.snd := by
  simp only [rows, List.mem_map, mem_sorted]

theorem sorted_pairwise (t : Table ρ) : t.sorted.Pairwise fun first second => first.1 < second.1 := by
  have ordered : t.sorted.Pairwise fun first second => first.1 ≤ second.1 := List.pairwise_insertionSort _ _
  have unequal : t.sorted.Pairwise fun first second => first.1 ≠ second.1 :=
    List.pairwise_map.mp (((List.perm_insertionSort _ t.entries).map Prod.fst).nodup_iff.mpr t.distinct)
  exact ordered.imp₂ (fun _ _ le ne => Nat.lt_of_le_of_ne le ne) unequal

@[simp] theorem rows_empty : (empty : Table ρ).rows = [] := rfl

/-- A new row comes last. -/
@[simp] theorem rows_insert (t : Table ρ) (row : ρ) : (t.insert row).rows = t.rows ++ [row] := by
  have last : (t.insert row).sorted = t.sorted ++ [(next t.entries, row)] := by
    refine List.Perm.eq_of_pairwise (fun first second _ _ less more => absurd more (Nat.lt_asymm less))
      (sorted_pairwise _) ?_ ?_
    · refine List.pairwise_append.mpr ⟨t.sorted_pairwise, List.pairwise_singleton _ _, ?_⟩
      intro entry inside other added
      rw [List.mem_singleton.mp added]
      exact lt_next (mem_sorted.mp inside)
    · calc (t.insert row).sorted
        List.Perm _ _ := List.perm_insertionSort _ _
        List.Perm _ _ := (List.perm_insertionSort _ t.entries).symm.cons _
        List.Perm _ _ := (List.perm_append_singleton _ _).symm
  rw [rows, last, List.map_append, rows, List.map_singleton]

@[simp] theorem rows_delete (selected : ρ → Bool) (t : Table ρ) :
    (t.delete selected).rows = t.rows.filter fun row => !selected row := by
  have kept : (t.delete selected).sorted = t.sorted.filter fun entry => !selected entry.2 := by
    refine List.Perm.eq_of_pairwise (fun first second _ _ less more => absurd more (Nat.lt_asymm less))
      (sorted_pairwise _) (t.sorted_pairwise.filter _) ?_
    exact (List.perm_insertionSort _ _).trans ((List.perm_insertionSort _ t.entries).symm.filter _)
  rw [rows, kept, rows, List.filter_map]
  rfl

end Table

end Library.Rowid
