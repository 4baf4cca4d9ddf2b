import SshLogger.Library.Json
import SshLogger.Library.Netip
import Mathlib.Algebra.Order.BigOperators.Group.List
import Mathlib.Algebra.Order.Ring.Nat

/-! How many bytes a JSON text takes. A character of a string takes at most six,
whatever it is, and an array or an object takes what its parts take. -/

namespace Library.Json

/-- The length of a text in UTF-8. -/
def size (text : List Char) : Nat := (text.map Char.utf8Size).sum

@[simp] theorem size_nil : size [] = 0 := rfl

@[simp] theorem size_cons (char : Char) (rest : List Char) : size (char :: rest) = char.utf8Size + size rest := by
  simp [size]

@[simp] theorem size_append (first second : List Char) : size (first ++ second) = size first + size second := by
  simp [size]

theorem size_ascii {text : List Char} (ascii : ∀ char ∈ text, char.utf8Size = 1) : size text = text.length := by
  induction text with
  | nil => rfl
  | cons char rest ih =>
    have rest_ascii := ih fun other member => ascii other (List.mem_cons_of_mem _ member)
    rw [size_cons, ascii char List.mem_cons_self, rest_ascii, List.length_cons]
    omega

theorem utf8Size_digitChar : ∀ value < 16, value.digitChar.utf8Size = 1 := by decide

theorem ascii_of_all {text : List Char} (plain : text.all (fun part => part.utf8Size == 1) = true) :
    ∀ part ∈ text, part.utf8Size = 1 := by
  simpa using plain

/-- A character is written as it is or by an escape of at most six ASCII characters. -/
theorem escape_cases {char : Char} {text : List Char} (written : escape char = text) :
    text = [char] ∨ text.length ≤ 6 ∧ ∀ part ∈ text, part.utf8Size = 1 := by
  unfold escape at written
  iterate 7
    split at written
    · subst written
      exact Or.inr ⟨by decide, ascii_of_all (by decide)⟩
  split at written
  next control =>
    have small : char.toNat < 128 := by
      simp only [Bool.or_eq_true, decide_eq_true_eq, beq_iff_eq] at control
      rcases control with ((low | rfl) | rfl) | rfl
      · omega
      all_goals decide
    have high := utf8Size_digitChar (char.toNat / 16) (by omega)
    have low := utf8Size_digitChar (char.toNat % 16) (by omega)
    subst written
    refine Or.inr ⟨by simp, ?_⟩
    simp only [List.mem_cons, List.not_mem_nil, or_false, forall_eq_or_imp, forall_eq, high, low]
    decide
  iterate 2
    split at written
    · subst written
      exact Or.inr ⟨by decide, ascii_of_all (by decide)⟩
  exact Or.inl written.symm

theorem size_escape (char : Char) : size (escape char) ≤ 6 := by
  rcases @escape_cases char _ rfl with same | ⟨short, ascii⟩
  · have four := char.utf8Size_le_four
    rw [same, size_cons, size_nil]
    omega
  · rw [size_ascii ascii]
    exact short

theorem size_writeString (text : List Char) : size (writeString text) ≤ 6 * text.length + 2 := by
  have body : size (text.flatMap escape) ≤ 6 * text.length := by
    induction text with
    | nil => simp
    | cons char rest ih =>
      have first := size_escape char
      simp only [List.flatMap_cons, size_append, List.length_cons]
      omega
  have quotes : Char.utf8Size '"' = 1 := by decide
  simp only [writeString, size_append, size_cons, size_nil, quotes]
  omega

def IsPlain (text : List Char) : Prop := ∀ char ∈ text, char.utf8Size = 1 ∧ escape char = [char]

theorem IsPlain.size_writeString {text : List Char} (plain : IsPlain text) : size (writeString text) = text.length + 2 := by
  have shown : text.flatMap escape = text := by
    induction text with
    | nil => rfl
    | cons char rest ih =>
      have later := ih fun other member => plain other (List.mem_cons_of_mem _ member)
      rw [List.flatMap_cons, (plain char List.mem_cons_self).2, later]
      rfl
  have body := size_ascii fun char member => (plain char member).1
  have quotes : Char.utf8Size '"' = 1 := by decide
  simp only [writeString, shown, size_append, size_cons, size_nil, quotes, body]
  omega

/-- What an item of an array costs, the comma or bracket before it included. -/
def cost (value : Value) : Nat := size (write value) + 1

/-- The same for a member of an object. -/
def memberCost (member : String × Value) : Nat := size (writeString member.1.toList) + size (write member.2) + 2

theorem size_writeItems (items : List Value) : size (writeItems items) = (items.map cost).sum + 1 := by
  induction items with
  | nil => rfl
  | cons item rest ih =>
    have comma : Char.utf8Size ',' = 1 := by decide
    simp only [writeItems, List.cons_append, size_cons, size_append, ih, List.map_cons, List.sum_cons, cost, comma]
    omega

theorem size_writeMembers (members : List (String × Value)) :
    size (writeMembers members) = (members.map memberCost).sum + 1 := by
  induction members with
  | nil => rfl
  | cons member rest ih =>
    obtain ⟨name, value⟩ := member
    have comma : Char.utf8Size ',' = 1 := by decide
    have colon : Char.utf8Size ':' = 1 := by decide
    simp only [writeMembers, List.cons_append, size_cons, size_append, ih, List.map_cons, List.sum_cons, memberCost, comma,
      colon]
    omega

theorem size_arr (items : List Value) : size (write (.arr items)) ≤ (items.map cost).sum + 2 := by
  cases items with
  | nil => decide
  | cons first rest =>
    have bracket : Char.utf8Size '[' = 1 := by decide
    simp only [write, List.cons_append, size_cons, size_append, size_writeItems, List.map_cons, List.sum_cons, cost, bracket]
    omega

theorem size_obj (members : List (String × Value)) : size (write (.obj members)) ≤ (members.map memberCost).sum + 2 := by
  cases members with
  | nil => decide
  | cons first rest =>
    obtain ⟨name, value⟩ := first
    have brace : Char.utf8Size '{' = 1 := by decide
    have colon : Char.utf8Size ':' = 1 := by decide
    simp only [write, List.cons_append, size_cons, size_append, size_writeMembers, List.map_cons, List.sum_cons, memberCost,
      brace, colon]
    omega

/-- Parts of a bounded size, bounded in number. -/
theorem sum_bounded {α : Type} {parts : List α} {measure : α → Nat} {width count : Nat} (few : parts.length ≤ count)
    (each : ∀ part ∈ parts, measure part ≤ width) : (parts.map measure).sum ≤ count * width := by
  have bounded : ∀ size ∈ parts.map measure, size ≤ width := by
    intro size member
    obtain ⟨part, listed, rfl⟩ := List.mem_map.mp member
    exact each part listed
  have total := List.sum_le_card_nsmul (parts.map measure) width bounded
  simp only [List.length_map] at total
  exact Nat.le_trans total (Nat.mul_le_mul_right width few)

/-- A number takes its digits and a sign. -/
theorem size_int {value : Int} {digits : Nat} (small : value.natAbs < 10 ^ digits) (some_digits : 0 < digits) :
    size (write (.int value)) ≤ digits + 1 := by
  have short : (Nat.toDigits 10 value.natAbs).length ≤ digits := (Nat.length_toDigits_le_iff (by decide) some_digits).mpr small
  have ascii : size (Nat.toDigits 10 value.natAbs) = (Nat.toDigits 10 value.natAbs).length := by
    refine size_ascii fun char member => ?_
    have digit : char.isDigit = true := Nat.isDigit_of_mem_toDigits (by decide) (by decide) member
    simp only [Char.isDigit, Bool.and_eq_true, decide_eq_true_eq] at digit
    exact Char.utf8Size_eq_one_iff.mpr (UInt32.le_trans digit.2 (by decide))
  have sign : Char.utf8Size '-' = 1 := by decide
  simp only [Value.int, write, intText]
  split
  · rw [size_cons, sign, ascii]
    omega
  · rw [ascii]
    omega

end Library.Json
