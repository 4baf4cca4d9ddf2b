import SshLogger.Library.Json
import Mathlib.Data.List.Forall2

/-! Texts that spell a JSON value without blanks, whoever wrote them. The reader
finds the value and leaves what stands behind the text. -/

namespace Library.Json

def joined : List (List Char) → List Char
  | [] => []
  | [part] => part
  | part :: rest => part ++ ',' :: joined rest

theorem joined_cons (part next : List Char) (rest : List (List Char)) :
    joined (part :: next :: rest) = part ++ ',' :: joined (next :: rest) := rfl

structure Renders (text : List Char) (value : Value) : Prop where
  begins : ∃ char rest, text = char :: rest ∧ isBlank char = false ∧ char ≠ ']' ∧ char ≠ '}'
  reads : ∀ fuel rest, text.length ≤ fuel → (∀ char ∈ rest.head?, isNumberChar char = false) →
    read fuel (text ++ rest) = some (value, rest)

structure RendersString (text : List Char) (value : String) : Prop where
  quoted : ∃ body, text = '"' :: body ∧ ∀ rest, readString none (body ++ rest) = some (value.toList, rest)

structure RendersMember (text : List Char) (member : String × Value) : Prop where
  parts : ∃ name value, text = name ++ ':' :: value ∧ RendersString name member.1 ∧ Renders value member.2

theorem RendersString.renders {text : List Char} {value : String} (string : RendersString text value) :
    Renders text (.str value) := by
  obtain ⟨body, rfl, found⟩ := string.quoted
  refine ⟨⟨_, _, rfl, by decide, by decide, by decide⟩, ?_⟩
  intro fuel rest enough ends
  cases fuel with
  | zero => cases enough
  | succ fuel =>
    rw [List.cons_append, read, skip_cons (by decide)]
    simp [found rest]

theorem renders_write (value : Value) : Renders (write value) value where
  begins := write_head value
  reads fuel rest enough ends := (reads fuel).value value rest enough ends

section
variable {text : List Char} {texts : List (List Char)}

theorem readItems_renders {value : Value} {values : List Value} (first : Renders text value)
    (others : List.Forall₂ Renders texts values) {fuel : Nat} (enough : (joined (text :: texts)).length < fuel)
    (rest : List Char) :
    readItems fuel (joined (text :: texts) ++ ']' :: rest) = some (value :: values, rest) := by
  induction fuel generalizing text value texts values with
  | zero => cases enough
  | succ fuel ih =>
    cases others with
    | nil =>
      have found := first.reads fuel (']' :: rest) (Nat.lt_succ_iff.mp enough) (by simp [isNumberChar])
      rw [joined, readItems, found]
      simp [skip, isBlank]
    | cons next others =>
      rw [joined_cons, List.length_append, List.length_cons] at enough
      rw [joined_cons, List.append_assoc, List.cons_append, readItems, first.reads fuel _ (by omega) (by simp [isNumberChar])]
      simp only [skip_cons (by decide : isBlank ',' = false)]
      rw [ih next others (by omega)]
      rfl

theorem renders_arr {values : List Value} (items : List.Forall₂ Renders texts values) :
    Renders ('[' :: joined texts ++ [']']) (.arr values) := by
  refine ⟨⟨_, _, rfl, by decide, by decide, by decide⟩, ?_⟩
  intro fuel rest enough ends
  rw [List.cons_append, List.length_cons, List.length_append] at enough
  obtain ⟨fuel, rfl⟩ : ∃ less, fuel = less + 1 := ⟨fuel - 1, by omega⟩
  cases items with
  | nil => simp [joined, read, skip, isBlank]
  | @cons text value texts values first others =>
    have inner := readItems_renders first others (show (joined (text :: texts)).length < fuel by simp at enough; omega) rest
    obtain ⟨char, tail, starts, plain⟩ := first.begins
    have begins : ∃ char tail, joined (text :: texts) ++ ']' :: rest = char :: tail ∧ isBlank char = false ∧
        char ≠ ']' ∧ char ≠ '}' := by
      rw [starts]
      cases texts with
      | nil => exact ⟨char, tail ++ ']' :: rest, rfl, plain⟩
      | cons next texts => exact ⟨char, tail ++ ',' :: joined (next :: texts) ++ ']' :: rest, by simp [joined_cons], plain⟩
    rw [List.cons_append, List.cons_append, List.append_assoc, List.singleton_append]
    exact read_arr begins inner

theorem readMembers_renders {member : String × Value} {members : List (String × Value)} (first : RendersMember text member)
    (others : List.Forall₂ RendersMember texts members) {fuel : Nat} (enough : (joined (text :: texts)).length < fuel)
    (rest : List Char) :
    readMembers fuel (joined (text :: texts) ++ '}' :: rest) = some (member :: members, rest) := by
  induction fuel generalizing text member texts members with
  | zero => cases enough
  | succ fuel ih =>
    obtain ⟨name, value, rfl, string, rendered⟩ := first.parts
    obtain ⟨body, rfl, found⟩ := string.quoted
    cases others with
    | nil =>
      simp only [joined, List.length_append, List.length_cons] at enough
      have read_value := rendered.reads fuel ('}' :: rest) (by omega) (by simp [isNumberChar])
      rw [joined, List.cons_append, List.cons_append, List.append_assoc, List.cons_append, readMembers, skip_cons (by decide)]
      simp only [found, skip_cons (by decide : isBlank ':' = false), read_value, String.ofList_toList]
      simp [skip, isBlank]
    | cons next others =>
      simp only [joined_cons, List.length_append, List.length_cons] at enough
      have read_value := fun more => rendered.reads fuel (',' :: more) (by omega) (by simp [isNumberChar])
      rw [joined_cons, List.cons_append, List.cons_append, List.cons_append, List.append_assoc, List.append_assoc,
        List.cons_append, List.cons_append, readMembers, skip_cons (by decide)]
      simp only [found, skip_cons (by decide : isBlank ':' = false), read_value, String.ofList_toList,
        skip_cons (by decide : isBlank ',' = false)]
      rw [ih next others (by omega)]
      simp

theorem renders_obj {members : List (String × Value)} (items : List.Forall₂ RendersMember texts members) :
    Renders ('{' :: joined texts ++ ['}']) (.obj members) := by
  refine ⟨⟨_, _, rfl, by decide, by decide, by decide⟩, ?_⟩
  intro fuel rest enough ends
  rw [List.cons_append, List.length_cons, List.length_append] at enough
  obtain ⟨fuel, rfl⟩ : ∃ less, fuel = less + 1 := ⟨fuel - 1, by omega⟩
  cases items with
  | nil => simp [joined, read, skip, isBlank]
  | @cons text member texts members first others =>
    have inner := readMembers_renders first others (show (joined (text :: texts)).length < fuel by simp at enough; omega) rest
    obtain ⟨name, value, starts, string, -⟩ := first.parts
    obtain ⟨body, rfl, -⟩ := string.quoted
    have begins : ∃ tail, joined (text :: texts) ++ '}' :: rest = '"' :: tail := by
      rw [starts]
      cases texts with
      | nil => exact ⟨_, rfl⟩
      | cons next texts => exact ⟨_, rfl⟩
    rw [List.cons_append, List.cons_append, List.append_assoc, List.singleton_append]
    exact read_obj begins inner

end

theorem Renders.parse {text : List Char} {value : Value} (renders : Renders text value) : parse text = some value := by
  have whole := renders.reads (text.length + 1) [] (by omega) (by simp)
  rw [List.append_nil] at whole
  simp [Json.parse, whole, skip]

end Library.Json
