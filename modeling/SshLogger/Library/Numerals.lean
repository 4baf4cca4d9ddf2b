import SshLogger.Library.Bytes

/-! Decimal numerals as bytes: what is written for a number is read as that number,
also with white space around it. -/

namespace Library.Bytes

/-- `strconv.ParseUint(text, 10, bits)`. -/
def parseUint (text : Bytes) (bits : Nat) : Option Nat :=
  if text.isEmpty || !text.all isDigit then none
  else if digits text < 2 ^ bits then some (digits text) else none

/-- `strconv.FormatUint(value, 10)`. -/
def numeral (value : Nat) : Bytes := (Nat.toDigits 10 value).map ascii

theorem ascii_digitChar {value : Nat} (small : value < 10) :
    isDigit (ascii value.digitChar) = true ∧ (ascii value.digitChar).toNat - 48 = value := by
  interval_cases value <;> exact ⟨rfl, rfl⟩

theorem numeral_step {value : Nat} (large : 10 ≤ value) :
    numeral value = numeral (value / 10) ++ [ascii (value % 10).digitChar] := by
  simp only [numeral, Nat.toDigits_of_base_le (by decide : 1 < 10) large, List.map_append, List.map_singleton]

theorem numeral_small {value : Nat} (small : value < 10) : numeral value = [ascii value.digitChar] := by
  simp only [numeral, Nat.toDigits_of_lt_base small, List.map_singleton]

theorem numeral_digits (value : Nat) : (numeral value).all isDigit = true ∧ digits (numeral value) = value := by
  induction value using Nat.strongRecOn with
  | ind value ih =>
    by_cases small : value < 10
    · have last := ascii_digitChar small
      rw [numeral_small small]
      simp only [List.all_cons, List.all_nil, Bool.and_true, digits, List.foldl_cons, List.foldl_nil]
      exact ⟨last.1, by omega⟩
    · have last := ascii_digitChar (Nat.mod_lt value (by decide : 0 < 10))
      obtain ⟨front, reads⟩ := ih (value / 10) (by omega)
      rw [numeral_step (by omega)]
      unfold digits at reads ⊢
      rw [List.foldl_append, reads, List.all_append, front]
      simp only [List.all_cons, List.all_nil, Bool.and_true, List.foldl_cons, List.foldl_nil]
      exact ⟨last.1, by omega⟩

theorem digits_numeral (value : Nat) : digits (numeral value) = value := (numeral_digits value).2

theorem isDigit_numeral {value : Nat} {byte : UInt8} (member : byte ∈ numeral value) : isDigit byte = true :=
  List.all_eq_true.mp (numeral_digits value).1 byte member

theorem numeral_ne_nil (value : Nat) : numeral value ≠ [] := by
  by_cases small : value < 10
  · rw [numeral_small small]
    exact List.cons_ne_nil _ _
  · rw [numeral_step (by omega)]
    exact List.append_ne_nil_of_right_ne_nil _ (List.cons_ne_nil _ _)

theorem numeral_injective : Function.Injective numeral :=
  fun first second same => by rw [← digits_numeral first, same, digits_numeral]

theorem parseUint_eq_some {text : Bytes} {bits value : Nat} (parsed : parseUint text bits = some value) :
    value < 2 ^ bits := by
  unfold parseUint at parsed
  split at parsed
  · cases parsed
  · split at parsed
    next fits =>
      cases parsed
      exact fits
    next => cases parsed

/-- A numeral does not begin with a sign. -/
theorem numeral_unsigned {value : Nat} {first : UInt8} {rest : Bytes} (shape : numeral value = first :: rest) :
    (first == ascii '-') = false ∧ (first == ascii '+') = false := by
  have digit : isDigit first = true := isDigit_numeral (shape ▸ List.mem_cons_self)
  constructor <;> (rw [beq_eq_false_iff_ne]; rintro rfl; exact absurd digit (by decide))

/-- Reading a numeral as a signed number, as `strconv.Atoi` does. -/
theorem parseInt_numeral {value bits : Nat} (small : (value : Int) < 2 ^ (bits - 1)) :
    parseInt (numeral value) bits = some value := by
  obtain ⟨first, rest, shape⟩ := List.exists_cons_of_ne_nil (numeral_ne_nil value)
  have unsigned := numeral_unsigned shape
  have whole := (numeral_digits value).1
  have reads := digits_numeral value
  rw [shape] at whole reads ⊢
  simp only [parseInt, unsigned.1, unsigned.2, Bool.false_eq_true, if_false, whole, reads, List.isEmpty_cons,
    Bool.not_true, Bool.or_self, Bool.and_eq_true, decide_eq_true_eq]
  have bound : (0 : Int) ≤ 2 ^ (bits - 1) := by positivity
  exact if_pos ⟨by omega, small⟩

/-- A numeral that is too large is read as the largest number. -/
theorem atoi_numeral (value : Nat) : atoi (numeral value) = min (value : Int) (2 ^ 63 - 1) := by
  obtain ⟨first, rest, shape⟩ := List.exists_cons_of_ne_nil (numeral_ne_nil value)
  obtain ⟨minus, plus⟩ := numeral_unsigned shape
  have whole := (numeral_digits value).1
  have reads := digits_numeral value
  rw [shape] at whole reads ⊢
  simp only [atoi, minus, plus, Bool.false_eq_true, if_false, whole, reads, List.isEmpty_cons, Bool.not_true, Bool.or_self]
  omega

/-- The encodings of the characters for which `unicode.IsSpace` holds. -/
def spaces : List Bytes :=
  [[9], [10], [11], [12], [13], [32], [0xC2, 0x85], [0xC2, 0xA0], [0xE1, 0x9A, 0x80],
    [0xE2, 0x80, 0x80], [0xE2, 0x80, 0x81], [0xE2, 0x80, 0x82], [0xE2, 0x80, 0x83], [0xE2, 0x80, 0x84],
    [0xE2, 0x80, 0x85], [0xE2, 0x80, 0x86], [0xE2, 0x80, 0x87], [0xE2, 0x80, 0x88], [0xE2, 0x80, 0x89],
    [0xE2, 0x80, 0x8A], [0xE2, 0x80, 0xA8], [0xE2, 0x80, 0xA9], [0xE2, 0x80, 0xAF], [0xE2, 0x81, 0x9F],
    [0xE3, 0x80, 0x80]]

/-- Drop `pending` bytes of the current character, then every further character
of the cut set that the text starts with. -/
def dropFrom (cutset : List Bytes) : Nat → Bytes → Bytes
  | _, [] => []
  | pending + 1, _ :: rest => dropFrom cutset pending rest
  | 0, byte :: rest =>
    match cutset.find? (·.isPrefixOf (byte :: rest)) with
    | none => byte :: rest
    | some space => dropFrom cutset (space.length - 1) rest

/-- `strings.TrimSpace`. -/
def trimSpace (text : Bytes) : Bytes :=
  (dropFrom (spaces.map List.reverse) 0 (dropFrom spaces 0 text).reverse).reverse

/-- A character of the cut set is dropped only where one of them can start. -/
theorem dropFrom_stop {cutset : List Bytes} {byte : UInt8} {rest : Bytes}
    (other : ∀ space ∈ cutset, space.head? ≠ some byte ∧ space ≠ []) :
    dropFrom cutset 0 (byte :: rest) = byte :: rest := by
  have none : cutset.find? (·.isPrefixOf (byte :: rest)) = none := by
    refine List.find?_eq_none.mpr fun space member starts => ?_
    obtain ⟨first, nonempty⟩ := other space member
    obtain ⟨head, tail, rfl⟩ := List.exists_cons_of_ne_nil nonempty
    obtain ⟨same, -⟩ := List.cons_prefix_cons.mp (List.isPrefixOf_iff_prefix.mp starts)
    exact first (congrArg some same)
  rw [dropFrom, none]

theorem dropFrom_digit {byte : UInt8} {rest : Bytes} (digit : isDigit byte = true) :
    dropFrom spaces 0 (byte :: rest) = byte :: rest ∧
      dropFrom (spaces.map List.reverse) 0 (byte :: rest) = byte :: rest := by
  have starts : ∀ space ∈ spaces ++ spaces.map List.reverse, (space.head?.any fun first => !isDigit first) = true :=
    List.all_eq_true.mp rfl
  have other : ∀ space ∈ spaces ++ spaces.map List.reverse, space.head? ≠ some byte ∧ space ≠ [] := by
    refine fun space member => ⟨fun same => ?_, fun empty => ?_⟩ <;> have first := starts space member
    · simp [same, digit] at first
    · simp [empty] at first
  exact ⟨dropFrom_stop fun space member => other space (List.mem_append_left _ member),
    dropFrom_stop fun space member => other space (List.mem_append_right _ member)⟩

/-- A line end after a numeral is trimmed, and no byte of the numeral is. -/
theorem trimSpace_numeral (value : Nat) {ending : Bytes} (line : ending = [] ∨ ending = [10]) :
    trimSpace (numeral value ++ ending) = numeral value := by
  have front : ∀ {text : Bytes}, dropFrom spaces 0 (numeral value ++ text) = numeral value ++ text := by
    intro text
    obtain ⟨first, rest, shape⟩ := List.exists_cons_of_ne_nil (numeral_ne_nil value)
    rw [shape]
    exact (dropFrom_digit (isDigit_numeral (shape ▸ List.mem_cons_self))).1
  have back : dropFrom (spaces.map List.reverse) 0 (numeral value).reverse = (numeral value).reverse := by
    obtain ⟨first, rest, shape⟩ := List.exists_cons_of_ne_nil (List.reverse_ne_nil_iff.mpr (numeral_ne_nil value))
    rw [shape]
    exact (dropFrom_digit (isDigit_numeral (List.mem_reverse.mp (shape ▸ List.mem_cons_self)))).2
  rw [trimSpace, front]
  obtain rfl | rfl := line
  · rw [List.append_nil, back, List.reverse_reverse]
  · have newline : ∀ text, dropFrom (spaces.map List.reverse) 0 (10 :: text) =
        dropFrom (spaces.map List.reverse) 0 text := by
      intro text
      have found : (spaces.map List.reverse).find? (·.isPrefixOf (10 :: text)) = some [10] := rfl
      rw [dropFrom, found]
      rfl
    rw [List.reverse_append, List.reverse_singleton, List.singleton_append, newline, back, List.reverse_reverse]

end Library.Bytes
