import Mathlib.Data.List.Sort

/-! `SELECT` over tables as lists of rows. A condition is local to a part of the
tables when no row outside that part can satisfy it; the rest of the tables then
has no effect on what is selected. -/

namespace Library.Select

variable {ρ τ : Type*}

/-- `FROM rows JOIN others ON on`. -/
def innerJoin (on : ρ → τ → Bool) (rows : List ρ) (others : List τ) : List (ρ × τ) :=
  rows.flatMap fun row => (others.filter (on row)).map fun other => (row, other)

/-- `FROM rows LEFT JOIN others ON on`. -/
def leftJoin (on : ρ → τ → Bool) (rows : List ρ) (others : List τ) : List (ρ × Option τ) :=
  rows.flatMap fun row =>
    match others.filter (on row) with
    | [] => [(row, none)]
    | found => found.map fun other => (row, some other)

/-- `ORDER BY`; rows that `before` does not tell apart stay in order. -/
def orderBy (before : ρ → ρ → Bool) (rows : List ρ) : List ρ := rows.insertionSort fun a b => before a b = true

/-- `LIMIT limit OFFSET offset` -/
def slice (limit offset : Nat) (rows : List ρ) : List ρ := (rows.drop offset).take limit

/-- `SELECT COUNT(*) WHERE selected` -/
def count (selected : ρ → Bool) (rows : List ρ) : Nat := (rows.filter selected).length

@[simp] theorem mem_orderBy {before : ρ → ρ → Bool} {rows : List ρ} {row : ρ} : row ∈ orderBy before rows ↔ row ∈ rows :=
  (List.perm_insertionSort _ rows).mem_iff

theorem mem_of_mem_slice {limit offset : Nat} {rows : List ρ} {row : ρ} (member : row ∈ slice limit offset rows) :
    row ∈ rows :=
  List.mem_of_mem_drop (List.mem_of_mem_take member)

theorem mem_innerJoin {on : ρ → τ → Bool} {rows : List ρ} {others : List τ} {row : ρ} {other : τ} :
    (row, other) ∈ innerJoin on rows others ↔ row ∈ rows ∧ other ∈ others ∧ on row other = true := by
  simp only [innerJoin, List.mem_flatMap, List.mem_map, List.mem_filter, Prod.mk.injEq]
  constructor
  · rintro ⟨row, member, other, joined, rfl, rfl⟩
    exact ⟨member, joined⟩
  · rintro ⟨member, joined⟩
    exact ⟨row, member, other, joined, rfl, rfl⟩

/-- A condition finds the same rows in the part of a table that it is local to. -/
theorem filter_part {part selected : ρ → Bool} {rows : List ρ}
    (inside : ∀ row ∈ rows, selected row = true → part row = true) :
    (rows.filter part).filter selected = rows.filter selected := by
  rw [List.filter_filter]
  apply List.filter_congr
  intro row member
  cases chosen : selected row with
  | false => rfl
  | true => simp [inside row member chosen]

theorem find?_part {part selected : ρ → Bool} {rows : List ρ}
    (inside : ∀ row ∈ rows, selected row = true → part row = true) :
    (rows.filter part).find? selected = rows.find? selected := by
  rw [← List.head?_filter, ← List.head?_filter, filter_part inside]

theorem any_part {part selected : ρ → Bool} {rows : List ρ}
    (inside : ∀ row ∈ rows, selected row = true → part row = true) :
    (rows.filter part).any selected = rows.any selected := by
  have same := congrArg Option.isSome (find?_part inside)
  rwa [List.isSome_find?, List.isSome_find?] at same

/-- Rows without a selected image need not be there. -/
theorem flatMap_part {part : ρ → Bool} {image : ρ → List τ} {rows : List ρ}
    (nothing : ∀ row ∈ rows, part row = false → image row = []) : (rows.filter part).flatMap image = rows.flatMap image := by
  induction rows with
  | nil => rfl
  | cons row rest ih =>
    have later := ih fun other member => nothing other (List.mem_cons_of_mem _ member)
    cases chosen : part row with
    | true => rw [List.filter_cons_of_pos chosen, List.flatMap_cons, List.flatMap_cons, later]
    | false =>
      rw [List.filter_cons_of_neg (by simp [chosen]), List.flatMap_cons, nothing row List.mem_cons_self chosen, later,
        List.nil_append]

theorem innerJoin_part {on : ρ → τ → Bool} {selected : ρ × τ → Bool} {part : ρ → Bool} {part' : τ → Bool}
    {rows : List ρ} {others : List τ} (inside : ∀ row ∈ rows, ∀ other ∈ others, on row other = true →
      selected (row, other) = true → part row = true ∧ part' other = true) :
    (innerJoin on (rows.filter part) (others.filter part')).filter selected = (innerJoin on rows others).filter selected := by
  simp only [innerJoin, List.filter_flatMap, List.filter_map]
  have narrow : ∀ row ∈ rows, (((others.filter part').filter (on row)).filter (selected ∘ fun other => (row, other))) =
      (others.filter (on row)).filter (selected ∘ fun other => (row, other)) := by
    intro row member
    simp only [List.filter_filter]
    refine List.filter_congr fun other there => ?_
    cases chosen : selected (row, other) && on row other with
    | false => simp [Function.comp_apply, chosen, ← Bool.and_assoc]
    | true =>
      obtain ⟨chosen, joined⟩ := Bool.and_eq_true_iff.mp chosen
      simp [chosen, joined, (inside row member other there joined chosen).2]
  rw [flatMap_part]
  · refine List.flatMap_congr fun row member => ?_
    rw [narrow row member]
  · intro row member outside
    rw [narrow row member, List.map_eq_nil_iff, List.filter_eq_nil_iff]
    intro other there chosen
    obtain ⟨there, joined⟩ := List.mem_filter.mp there
    have := (inside row member other there joined chosen).1
    simp [outside] at this

/-- Only the rows that a kept row joins with matter on the right of a left join. -/
theorem leftJoin_part {on : ρ → τ → Bool} {part' : τ → Bool} {rows : List ρ} {others : List τ}
    (inside : ∀ row ∈ rows, ∀ other ∈ others, on row other = true → part' other = true) :
    leftJoin on rows (others.filter part') = leftJoin on rows others := by
  apply List.flatMap_congr
  intro row member
  rw [filter_part fun other there joined => inside row member other there joined]

theorem leftJoin_filter {on : ρ → τ → Bool} {selected : ρ × Option τ → Bool} {part : ρ → Bool} {rows : List ρ}
    {others : List τ} (inside : ∀ row ∈ rows, ∀ other, selected (row, other) = true → part row = true) :
    (leftJoin on (rows.filter part) others).filter selected = (leftJoin on rows others).filter selected := by
  simp only [leftJoin, List.filter_flatMap]
  refine flatMap_part fun row member outside => ?_
  have dropped : ∀ other, selected (row, other) = false := fun other =>
    Bool.eq_false_iff.mpr fun chosen => by simp [inside row member other chosen] at outside
  split
  · simp [dropped]
  · rw [List.filter_map, List.map_eq_nil_iff, List.filter_eq_nil_iff]
    intro other _ chosen
    simp [dropped] at chosen

/-- A condition that at most one row satisfies, as a primary key makes it. -/
def AtMostOne (selected : ρ → Bool) (rows : List ρ) : Prop := (rows.filter selected).length ≤ 1

theorem atMostOne_of_key {κ : Type*} {key : ρ → κ} {selected : ρ → Bool} {rows : List ρ} (unique : (rows.map key).Nodup)
    {value : κ} (own : ∀ row ∈ rows, selected row = true → key row = value) : AtMostOne selected rows := by
  have all_own : ∀ held ∈ (rows.filter selected).map key, held = value := by
    intro held member
    obtain ⟨row, found, rfl⟩ := List.mem_map.mp member
    obtain ⟨there, chosen⟩ := List.mem_filter.mp found
    exact own row there chosen
  have distinct : ((rows.filter selected).map key).Nodup := unique.sublist (List.filter_sublist.map key)
  rw [List.eq_replicate_of_mem all_own] at distinct
  have short := List.nodup_replicate.mp distinct
  rwa [List.length_map] at short

theorem AtMostOne.nothing_else {selected : ρ → Bool} {rows further : List ρ} {row : ρ} (single : AtMostOne selected rows)
    (found : rows.filter selected = row :: further) : further = [] := by
  rw [AtMostOne, found, List.length_cons] at single
  exact List.length_eq_zero_iff.mp (by omega)

/-- A row that joins at most one other does so once. -/
theorem innerJoin_fst {on : ρ → τ → Bool} {rows : List ρ} {others : List τ}
    (single : ∀ row ∈ rows, AtMostOne (on row) others) :
    ((innerJoin on rows others).map Prod.fst).Sublist rows := by
  induction rows with
  | nil => exact List.Sublist.refl _
  | cons row rest ih =>
    obtain ⟨here, later⟩ := List.forall_mem_cons.mp single
    have more := ih later
    simp only [innerJoin, List.flatMap_cons, List.map_append, List.map_map] at more ⊢
    cases found : others.filter (on row) with
    | nil => exact more.cons row
    | cons other further =>
      obtain rfl := here.nothing_else found
      exact more.cons_cons row

theorem leftJoin_fst {on : ρ → τ → Bool} {rows : List ρ} {others : List τ}
    (single : ∀ row ∈ rows, AtMostOne (on row) others) :
    (leftJoin on rows others).map Prod.fst = rows := by
  induction rows with
  | nil => rfl
  | cons row rest ih =>
    obtain ⟨here, later⟩ := List.forall_mem_cons.mp single
    have more := ih later
    simp only [leftJoin, List.flatMap_cons, List.map_append] at more ⊢
    rw [more]
    cases found : others.filter (on row) with
    | nil => rfl
    | cons other further =>
      obtain rfl := here.nothing_else found
      rfl

/-- Pages of one size, one after the other, are the beginning of the list. -/
theorem flatMap_slices (size : Nat) (rows : List ρ) (pages : Nat) :
    ((List.range pages).flatMap fun page => slice size (page * size) rows) = rows.take (pages * size) := by
  induction pages with
  | zero => simp
  | succ pages ih =>
    rw [List.range_succ, List.flatMap_append, ih, List.flatMap_singleton, slice, Nat.succ_mul, List.take_add]

theorem slice_take {size limit offset : Nat} (inside : size ≤ limit) (rows : List ρ) :
    (slice limit offset rows).take size = slice size offset rows := by
  rw [slice, List.take_take, Nat.min_eq_left inside, slice]

theorem pairwise_orderBy {before : ρ → ρ → Bool} (total : ∀ a b, before a b = true ∨ before b a = true)
    (trans : ∀ a b c, before a b = true → before b c = true → before a c = true) (rows : List ρ) :
    (orderBy before rows).Pairwise fun a b => before a b = true := by
  have total' : Std.Total fun a b : ρ => before a b = true := ⟨total⟩
  have trans' : IsTrans ρ fun a b => before a b = true := ⟨trans⟩
  exact List.pairwise_insertionSort _ rows

end Library.Select
