import Mathlib.Data.List.Induction
import Mathlib.Data.List.Nodup
import SshLogger.Parser

/-! Arguments put together from numbered parts. The parts may come in any order:
the maps they are collected in are determined by what each number stands for,
and are read by increasing number. -/

namespace SshLogger
open Library Library.Bytes

theorem mem_of_lookup {κ α : Type} [BEq κ] [LawfulBEq κ] {map : List (κ × α)} {key : κ} {value : α}
    (found : map.lookup key = some value) : (key, value) ∈ map := by
  obtain ⟨before, after, rfl, -⟩ := List.lookup_eq_some_iff.mp found
  simp

section
variable {κ α β : Type} [DecidableEq κ] [BEq κ] [LawfulBEq κ]

theorem lookup_entry (entry : κ × α) (rest : List (κ × α)) (key : κ) :
    (entry :: rest).lookup key = if key = entry.1 then some entry.2 else rest.lookup key := by
  obtain ⟨first, held⟩ := entry
  by_cases same : key = first
  · simp [same]
  · have missed : (key == first) = false := by simpa using same
    simp [List.lookup_cons, missed, same]

theorem lookup_assign (key : κ) (value : α) (map : List (κ × α)) (other : κ) :
    (assign key value map).lookup other = if other = key then some value else map.lookup other := by
  induction map with
  | nil => simp only [assign, lookup_entry]
  | cons entry rest ih =>
    by_cases same : entry.1 = key
    · simp only [assign, same, if_true, lookup_entry]
      split <;> rfl
    · simp only [assign, same, if_false, lookup_entry, ih]
      by_cases asked : other = entry.1
      · have differs : ¬ other = key := fun equal => same (asked.symm.trans equal)
        rw [if_pos asked, if_neg differs, if_pos asked]
      · rw [if_neg asked, if_neg asked]

theorem keys_assign (key : κ) (value : α) (map : List (κ × α)) : (assign key value map).map Prod.fst =
    if key ∈ map.map Prod.fst then map.map Prod.fst else map.map Prod.fst ++ [key] := by
  induction map with
  | nil => rfl
  | cons entry rest ih =>
    by_cases same : entry.1 = key
    · simp [assign, same]
    · simp only [assign, same, if_false, List.map_cons, ih, List.mem_cons, Ne.symm same, false_or]
      split <;> rfl

def Distinct (map : List (κ × α)) : Prop := (map.map Prod.fst).Nodup

theorem Distinct.assign {map : List (κ × α)} (distinct : Distinct map) (key : κ) (value : α) :
    Distinct (assign key value map) := by
  rw [Distinct, keys_assign]
  split
  · exact distinct
  next new => simpa using List.Nodup.concat new distinct

theorem Distinct.mem_iff {map : List (κ × α)} (distinct : Distinct map) {key : κ} {value : α} :
    (key, value) ∈ map ↔ map.lookup key = some value := by
  induction map with
  | nil => simp
  | cons entry rest ih =>
    obtain ⟨new, others⟩ := List.nodup_cons.mp distinct
    rw [lookup_entry, List.mem_cons, Prod.ext_iff, ih others]
    by_cases same : key = entry.1
    · have absent : rest.lookup key ≠ some value := fun found =>
        new (List.mem_map.mpr ⟨_, (ih others).mpr found, same⟩)
      simp only [same, true_and, if_true, Option.some.injEq, eq_comm, or_iff_left_iff_imp] at absent ⊢
      exact fun found => absurd found absent
    · simp only [same, false_and, false_or, if_false]

/-- Every entry of `entries` is assigned over what `map` holds. -/
theorem lookup_foldl_assign {entries : List (κ × β)} (distinct : Distinct entries) (value : β → α)
    (map : List (κ × α)) (key : κ) :
    (entries.foldl (fun map entry => assign entry.1 (value entry.2) map) map).lookup key =
      ((entries.lookup key).map value).or (map.lookup key) := by
  induction entries generalizing map with
  | nil => rfl
  | cons entry rest ih =>
    obtain ⟨new, others⟩ := List.nodup_cons.mp distinct
    rw [List.foldl_cons, ih others, lookup_assign, lookup_entry]
    by_cases same : key = entry.1
    · have absent : rest.lookup key = none := by
        refine List.lookup_eq_none_iff.mpr fun other member => ?_
        simpa using fun equal => new (List.mem_map.mpr ⟨other, member, Eq.trans (Eq.symm equal) same⟩)
      simp [same, same ▸ absent]
    · simp only [same, if_false]

theorem Distinct.foldl_assign {map : List (κ × α)} (distinct : Distinct map) (value : β → α) (entries : List (κ × β)) :
    Distinct (entries.foldl (fun map entry => SshLogger.assign entry.1 (value entry.2) map) map) := by
  induction entries generalizing map with
  | nil => exact distinct
  | cons entry rest ih => exact ih (distinct.assign _ _)

end

section
variable {α : Type}

def Numbers (map : List (Int × α)) (values : List α) : Prop :=
  ∀ number value, map.lookup number = some value ↔ ∃ index : Nat, values[index]? = some value ∧ number = index

def numbered (values : List α) : List (Int × α) := values.zipIdx.map fun entry => (entry.2, entry.1)

theorem mem_numbered {values : List α} {number : Int} {value : α} :
    (number, value) ∈ numbered values ↔ ∃ index : Nat, values[index]? = some value ∧ number = index := by
  simp only [numbered, List.mem_map, List.mem_zipIdx_iff_getElem?, Prod.exists, Prod.mk.injEq]
  constructor
  · rintro ⟨_, index, found, rfl, rfl⟩
    exact ⟨index, found, rfl⟩
  · rintro ⟨index, found, rfl⟩
    exact ⟨value, index, found, rfl, rfl⟩

theorem numbered_increasing (values : List α) : (numbered values).Pairwise fun first second => first.1 < second.1 := by
  rw [numbered, List.pairwise_map]
  have positions : (values.zipIdx.map Prod.snd).Pairwise (· < ·) := by
    rw [List.zipIdx_map_snd]
    exact List.pairwise_lt_range'
  exact (List.pairwise_map.mp positions).imp fun less => Int.ofNat_lt.mpr less

/-- Whatever its order, a map is read as the values it numbers. -/
theorem sortedValues_numbers {map : List (Int × α)} {values : List α} (distinct : Distinct map)
    (numbers : Numbers map values) : sortedValues map = values := by
  have increasing := numbered_increasing values
  have same : ∀ entry, entry ∈ map ↔ entry ∈ numbered values := by
    rintro ⟨number, value⟩
    rw [distinct.mem_iff, numbers, mem_numbered]
  have permuted : map.Perm (numbered values) := by
    refine (List.perm_ext_iff_of_nodup (List.Nodup.of_map _ distinct) ?_).mpr same
    exact increasing.imp fun less => fun equal => absurd (equal ▸ less) (lt_irrefl _)
  have sorted : map.insertionSort (fun first second => first.1 ≤ second.1) = numbered values := by
    refine List.Perm.eq_of_pairwise ?_ (List.pairwise_insertionSort _ map) (increasing.imp le_of_lt)
      ((List.perm_insertionSort _ map).trans permuted)
    intro first second one two below above
    obtain ⟨number, value⟩ := first
    have listed := (same _).mp ((List.mem_insertionSort _).mp one)
    obtain ⟨index, found, rfl⟩ := mem_numbered.mp listed
    obtain ⟨other, held, position⟩ := mem_numbered.mp (show (second.1, second.2) ∈ numbered values from two)
    obtain rfl : index = other := by
      simp only [position] at below above
      omega
    rw [found] at held
    exact Prod.ext position.symm (Option.some.inj held)
  rw [sortedValues, sorted, numbered, List.map_map]
  exact List.zipIdx_map_fst 0 values

end

inductive Part
  | whole (number : Int) (value : Bytes)
  | chunk (number place : Int) (value : Bytes)
  deriving DecidableEq, Repr

def partOf (entry : Bytes × Bytes) : Option Part :=
  match argIndex entry.1 with
  | some number => some (.whole number (auditString entry.2))
  | none => (chunkIndex entry.1).map fun index => .chunk index.1 index.2 (auditString entry.2)

def Part.add (maps : ArgMaps) : Part → ArgMaps
  | .whole number value => { maps with args := assign number value maps.args }
  | .chunk number place value =>
    { maps with chunks := assign number (assign place value ((maps.chunks.lookup number).getD [])) maps.chunks }

theorem addArg_eq (maps : ArgMaps) (entry : Bytes × Bytes) :
    addArg maps entry = match partOf entry with
      | some part => part.add maps
      | none => maps := by
  obtain ⟨key, value⟩ := entry
  simp only [addArg, partOf]
  cases argIndex key with
  | some number => rfl
  | none => cases chunkIndex key <;> rfl

/-- How an argument is written: as one field, or in numbered chunks. -/
inductive Piece
  | whole (argument : Bytes)
  | chunked (first : Bytes) (others : List Bytes)
  deriving DecidableEq, Repr

def Piece.argument : Piece → Bytes
  | .whole argument => argument
  | .chunked first others => (first :: others).flatten

def Piece.parts (number : Int) : Piece → List Part
  | .whole argument => [.whole number argument]
  | .chunked first others => (numbered (first :: others)).map fun entry => .chunk number entry.1 entry.2

def partsOf (pieces : List Piece) : List Part := (numbered pieces).flatMap fun entry => entry.2.parts entry.1

theorem whole_mem_partsOf {pieces : List Piece} {number : Int} {value : Bytes} :
    Part.whole number value ∈ partsOf pieces ↔ ∃ index : Nat, pieces[index]? = some (.whole value) ∧ number = index := by
  simp only [partsOf, List.mem_flatMap, Prod.exists, mem_numbered]
  constructor
  · rintro ⟨_, piece, ⟨index, found, rfl⟩, member⟩
    cases piece with
    | whole argument =>
      obtain ⟨rfl, rfl⟩ : number = index ∧ value = argument := by simpa [Piece.parts] using member
      exact ⟨index, found, rfl⟩
    | chunked first others => simp [Piece.parts] at member
  · rintro ⟨index, found, rfl⟩
    exact ⟨index, _, ⟨index, found, rfl⟩, List.mem_singleton_self _⟩

theorem chunk_mem_partsOf {pieces : List Piece} {number place : Int} {value : Bytes} :
    Part.chunk number place value ∈ partsOf pieces ↔ ∃ (index : Nat) (first : Bytes) (others : List Bytes),
      pieces[index]? = some (.chunked first others) ∧ number = index ∧ (place, value) ∈ numbered (first :: others) := by
  simp only [partsOf, List.mem_flatMap, Prod.exists, mem_numbered]
  constructor
  · rintro ⟨_, piece, ⟨index, found, rfl⟩, member⟩
    cases piece with
    | whole argument => simp [Piece.parts] at member
    | chunked first others =>
      obtain ⟨⟨_, _⟩, listed, same⟩ := List.mem_map.mp member
      obtain ⟨rfl, rfl, rfl⟩ := Part.chunk.inj same
      exact ⟨index, first, others, found, rfl, mem_numbered.mp listed⟩
  · rintro ⟨index, first, others, found, rfl, listed⟩
    exact ⟨index, _, ⟨index, found, rfl⟩, List.mem_map.mpr ⟨(place, value), mem_numbered.mpr listed, rfl⟩⟩

structure Coherent (parts : List Part) : Prop where
  whole : ∀ number first second, Part.whole number first ∈ parts → Part.whole number second ∈ parts → first = second
  chunk : ∀ number place first second, Part.chunk number place first ∈ parts →
    Part.chunk number place second ∈ parts → first = second

theorem Coherent.mono {parts more : List Part} (coherent : Coherent more) (within : ∀ part ∈ parts, part ∈ more) :
    Coherent parts where
  whole number first second one two := coherent.whole number first second (within _ one) (within _ two)
  chunk number place first second one two := coherent.chunk number place first second (within _ one) (within _ two)

theorem coherent_partsOf (pieces : List Piece) : Coherent (partsOf pieces) where
  whole number first second one two := by
    obtain ⟨index, found, rfl⟩ := whole_mem_partsOf.mp one
    obtain ⟨other, held, same⟩ := whole_mem_partsOf.mp two
    obtain rfl := Int.ofNat.inj same
    exact Piece.whole.inj (Option.some.inj (found.symm.trans held))
  chunk number place first second one two := by
    obtain ⟨index, _, _, found, rfl, listed⟩ := chunk_mem_partsOf.mp one
    obtain ⟨other, _, _, held, same, also⟩ := chunk_mem_partsOf.mp two
    obtain rfl := Int.ofNat.inj same
    obtain ⟨rfl, rfl⟩ := Piece.chunked.inj (Option.some.inj (found.symm.trans held))
    obtain ⟨position, there, rfl⟩ := mem_numbered.mp listed
    obtain ⟨other, value, same⟩ := mem_numbered.mp also
    obtain rfl := Int.ofNat.inj same
    exact Option.some.inj (there.symm.trans value)

/-- The maps hold what the parts say, and nothing else. -/
structure Filled (parts : List Part) (maps : ArgMaps) : Prop where
  args : ∀ number value, maps.args.lookup number = some value ↔ Part.whole number value ∈ parts
  chunks : ∀ number place value, ((maps.chunks.lookup number).getD []).lookup place = some value ↔
    Part.chunk number place value ∈ parts
  present : ∀ number chunks, maps.chunks.lookup number = some chunks → ∃ place value, Part.chunk number place value ∈ parts
  distinctArgs : Distinct maps.args
  distinctChunks : Distinct maps.chunks
  distinctPlaces : ∀ number, Distinct ((maps.chunks.lookup number).getD [])

theorem filled_nil : Filled [] ⟨[], []⟩ where
  args := by simp
  chunks := by simp
  present := by simp
  distinctArgs := List.nodup_nil
  distinctChunks := List.nodup_nil
  distinctPlaces _ := List.nodup_nil

theorem Filled.add {parts : List Part} {maps : ArgMaps} (filled : Filled parts maps) {part : Part}
    (coherent : Coherent (parts ++ [part])) : Filled (parts ++ [part]) (part.add maps) := by
  cases part with
  | whole number value =>
    refine ⟨fun other held => ?_, fun other place held => ?_, fun other chunks found => ?_,
      filled.distinctArgs.assign _ _, filled.distinctChunks, filled.distinctPlaces⟩
    · rw [Part.add, lookup_assign]
      split
      next same =>
        subst same
        constructor
        · rintro ⟨⟩
          simp
        · intro member
          exact congrArg some (coherent.whole other _ _ (by simp) member)
      next other => simp [filled.args, other]
    · simpa [Part.add] using filled.chunks other place held
    · obtain ⟨place, value, member⟩ := filled.present other chunks found
      exact ⟨place, value, List.mem_append_left _ member⟩
  | chunk number place value =>
    refine ⟨fun other held => ?_, fun other position held => ?_, fun other chunks found => ?_,
      filled.distinctArgs, filled.distinctChunks.assign _ _, fun other => ?_⟩
    · simpa [Part.add] using filled.args other held
    · rw [Part.add, lookup_assign]
      by_cases same : other = number
      · subst same
        rw [if_pos rfl, Option.getD_some, lookup_assign]
        split
        next same =>
          subst same
          constructor
          · rintro ⟨⟩
            simp
          · intro member
            exact congrArg some (coherent.chunk other position _ _ (by simp) member)
        next elsewhere => simp [filled.chunks, elsewhere]
      · simp [same, filled.chunks]
    · rw [Part.add, lookup_assign] at found
      split at found
      next same => exact ⟨place, value, by simp [same]⟩
      next =>
        obtain ⟨position, held, member⟩ := filled.present other chunks found
        exact ⟨position, held, List.mem_append_left _ member⟩
    · rw [Part.add, lookup_assign]
      split
      · exact (filled.distinctPlaces number).assign _ _
      · exact filled.distinctPlaces other

theorem filled_foldl {parts : List Part} (coherent : Coherent parts) : Filled parts (parts.foldl Part.add ⟨[], []⟩) := by
  induction parts using List.reverseRecOn with
  | nil => exact filled_nil
  | append_singleton parts part ih =>
    rw [List.foldl_append, List.foldl_cons, List.foldl_nil]
    exact (ih (coherent.mono fun _ member => List.mem_append_left _ member)).add coherent

def ArgMaps.values (maps : ArgMaps) : List Bytes :=
  sortedValues (maps.chunks.foldl (fun args entry => assign entry.1 (sortedValues entry.2).flatten args) maps.args)

/-- The chunks that are held for a number are those of its piece. -/
theorem Filled.numbers {parts : List Part} {maps : ArgMaps} {pieces : List Piece} (filled : Filled parts maps)
    (same : ∀ part, part ∈ parts ↔ part ∈ partsOf pieces) {number : Int} {chunks : List (Int × Bytes)}
    (held : maps.chunks.lookup number = some chunks) : ∃ (index : Nat) (first : Bytes) (others : List Bytes),
      pieces[index]? = some (.chunked first others) ∧ number = index ∧ sortedValues chunks = first :: others := by
  obtain ⟨place, value, member⟩ := filled.present number chunks held
  obtain ⟨index, first, others, found, rfl, -⟩ := chunk_mem_partsOf.mp ((same _).mp member)
  have distinct := filled.distinctPlaces index
  have stored := filled.chunks index
  rw [held, Option.getD_some] at distinct
  refine ⟨index, first, others, found, rfl, sortedValues_numbers distinct fun place value => ?_⟩
  have listed := stored place value
  rw [held, Option.getD_some, same, chunk_mem_partsOf] at listed
  rw [listed, ← mem_numbered]
  constructor
  · rintro ⟨other, _, _, there, position, also⟩
    obtain rfl := Int.ofNat.inj position
    obtain ⟨rfl, rfl⟩ := Piece.chunked.inj (Option.some.inj (found.symm.trans there))
    exact also
  · exact fun also => ⟨index, first, others, found, rfl, also⟩

/-- Parts that are those of the pieces, in whatever order, give back the arguments. -/
theorem values_parts {parts : List Part} {pieces : List Piece} (same : ∀ part, part ∈ parts ↔ part ∈ partsOf pieces) :
    (parts.foldl Part.add ⟨[], []⟩).values = pieces.map Piece.argument := by
  have filled := filled_foldl ((coherent_partsOf pieces).mono fun part member => (same part).mp member)
  generalize parts.foldl Part.add ⟨[], []⟩ = maps at filled
  have distinct := filled.distinctArgs.foldl_assign (fun chunks => (sortedValues chunks).flatten) maps.chunks
  refine sortedValues_numbers distinct fun number value => ?_
  rw [lookup_foldl_assign filled.distinctChunks fun chunks => (sortedValues chunks).flatten]
  simp only [List.getElem?_map, Option.map_eq_some_iff]
  cases held : maps.chunks.lookup number with
  | none =>
    rw [Option.map_none, Option.none_or, filled.args, same, whole_mem_partsOf]
    constructor
    · rintro ⟨index, found, rfl⟩
      exact ⟨index, ⟨_, found, rfl⟩, rfl⟩
    · rintro ⟨index, ⟨piece, found, rfl⟩, rfl⟩
      cases piece with
      | whole argument => exact ⟨index, found, rfl⟩
      | chunked first others =>
        have there := (filled.chunks index 0 first).mpr ((same _).mpr
          (chunk_mem_partsOf.mpr ⟨index, first, others, found, rfl, mem_numbered.mpr ⟨0, rfl, rfl⟩⟩))
        simp [held] at there
  | some chunks =>
    obtain ⟨index, first, others, found, rfl, sorted⟩ := filled.numbers same held
    rw [Option.map_some, Option.some_or, sorted]
    constructor
    · rintro ⟨⟩
      exact ⟨index, ⟨_, found, rfl⟩, rfl⟩
    · rintro ⟨other, ⟨piece, there, rfl⟩, position⟩
      obtain rfl := Int.ofNat.inj position
      obtain rfl := Option.some.inj (found.symm.trans there)
      rfl

end SshLogger
