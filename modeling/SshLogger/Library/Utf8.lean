import SshLogger.Library.Search

/-! Byte strings as texts. A text is decoded character by character, with U+FFFD
for every byte that belongs to no character; encoding what was decoded gives the
coerced bytes. A byte that belongs to no character counts as one where texts are cut
and measured by their characters, and takes three bytes once it has been replaced. -/

namespace Library.Bytes

/-- The code of a character by its bytes: six bits of every byte after the first. -/
def runeCode (byte : UInt8) (tails : Bytes) : Nat :=
  tails.foldl (fun code tail => code * 64 + tail.toNat % 64)
    (if tails.isEmpty then byte.toNat else byte.toNat % 2 ^ (6 - tails.length))

/-- The characters of a text. The first argument counts bytes of a character already decoded. -/
def runesFrom : Nat → Bytes → List Char
  | _, [] => []
  | pending + 1, _ :: rest => runesFrom pending rest
  | 0, byte :: rest =>
    match runeTail byte rest with
    | none => '\ufffd' :: runesFrom 0 rest
    | some more => Char.ofNat (runeCode byte (rest.take more)) :: runesFrom more rest

def runes (text : Bytes) : List Char := runesFrom 0 text

theorem toNat_ofNat {code : Nat} (valid : code.isValidChar) : (Char.ofNat code).val.toNat = code := by
  rw [Char.ofNat, dif_pos valid]
  rfl

theorem isTail_bounds {byte : UInt8} (tail : isTail byte = true) : 0x80 ≤ byte.toNat ∧ byte.toNat ≤ 0xBF := by
  simp only [isTail, Bool.and_eq_true, decide_eq_true_eq] at tail
  exact ⟨UInt8.le_iff_toNat_le.mp tail.1, UInt8.le_iff_toNat_le.mp tail.2⟩

theorem eq_ofNat {byte : UInt8} {value : Nat} (same : byte.toNat = value) : UInt8.ofNat value = byte := by
  rw [← same, UInt8.ofNat_toNat]

/-- What a first byte outside ASCII and the bytes behind it are like. -/
theorem runeTail_shape {byte : UInt8} {rest : Bytes} {more : Nat} (found : runeTail byte rest = some more)
    (large : 0x80 ≤ byte) : ∃ low high second others, lead byte = some (low, high, more + 1) ∧
      rest.take more = second :: others ∧ low ≤ second ∧ second ≤ high ∧ others.length + 1 = more ∧
      ∀ other ∈ others, isTail other = true := by
  unfold runeTail at found
  rw [if_neg (UInt8.not_lt.mpr large)] at found
  split at found
  · cases found
  next low high size shape =>
    split at found
    · cases found
    next second others =>
      split at found
      next fits =>
        simp only [Bool.and_eq_true, decide_eq_true_eq] at fits
        obtain ⟨⟨⟨below, above⟩, long⟩, tails⟩ := fits
        obtain rfl := Option.some.inj found
        obtain ⟨wide, -, -⟩ := lead_bounds shape
        obtain ⟨extra, rfl⟩ : ∃ extra, size = extra + 2 := ⟨size - 2, by omega⟩
        simp only [Nat.add_sub_cancel] at long tails
        refine ⟨low, high, second, others.take extra, by simpa using shape, ?_, below, above, ?_, ?_⟩
        · rw [show extra + 2 - 1 = extra + 1 by omega, List.take_succ_cons]
        · rw [List.length_take_of_le long]
          omega
        · exact List.all_eq_true.mp tails
      · cases found

/-- The first bytes of characters of two, three and four bytes, with the bounds of the second. -/
theorem lead_table : ∀ value < 256, lead (UInt8.ofNat value) =
    if 0xC2 ≤ value ∧ value ≤ 0xDF then some (0x80, 0xBF, 2)
    else if 0xE0 ≤ value ∧ value ≤ 0xEF then
      some (if value = 0xE0 then 0xA0 else 0x80, if value = 0xED then 0x9F else 0xBF, 3)
    else if 0xF0 ≤ value ∧ value ≤ 0xF4 then
      some (if value = 0xF0 then 0x90 else 0x80, if value = 0xF4 then 0x8F else 0xBF, 4)
    else none := by decide +kernel

theorem lead_shape {byte low high : UInt8} {size : Nat} (shape : lead byte = some (low, high, size)) :
    size = 2 ∧ 0xC2 ≤ byte.toNat ∧ byte.toNat ≤ 0xDF ∧ 0x80 ≤ low.toNat ∧ high.toNat ≤ 0xBF ∨
      size = 3 ∧ 0xE0 ≤ byte.toNat ∧ byte.toNat ≤ 0xEF ∧ 0x80 ≤ low.toNat ∧ high.toNat ≤ 0xBF ∧
        (byte.toNat = 0xE0 → 0xA0 ≤ low.toNat) ∧ (byte.toNat = 0xED → high.toNat ≤ 0x9F) ∨
      size = 4 ∧ 0xF0 ≤ byte.toNat ∧ byte.toNat ≤ 0xF4 ∧ 0x80 ≤ low.toNat ∧ high.toNat ≤ 0xBF ∧
        (byte.toNat = 0xF0 → 0x90 ≤ low.toNat) ∧ (byte.toNat = 0xF4 → high.toNat ≤ 0x8F) := by
  have table := lead_table byte.toNat byte.toNat_lt
  rw [UInt8.ofNat_toNat, shape] at table
  split at table
  next two =>
    cases table
    exact Or.inl ⟨rfl, two.1, two.2, by decide, by decide⟩
  split at table
  next three =>
    cases table
    refine Or.inr (Or.inl ⟨rfl, three.1, three.2, ?_, ?_, fun same => ?_, fun same => ?_⟩)
    · split <;> decide
    · split <;> decide
    · rw [if_pos same]
      decide
    · rw [if_pos same]
      decide
  split at table
  next four =>
    cases table
    refine Or.inr (Or.inr ⟨rfl, four.1, four.2, ?_, ?_, fun same => ?_, fun same => ?_⟩)
    · split <;> decide
    · split <;> decide
    · rw [if_pos same]
      decide
    · rw [if_pos same]
      decide
  · cases table

/-- A character is encoded as the bytes it was decoded from. -/
theorem encode_rune {byte : UInt8} {rest : Bytes} {more : Nat} (found : runeTail byte rest = some more) :
    String.utf8EncodeChar (Char.ofNat (runeCode byte (rest.take more))) = byte :: rest.take more := by
  rcases runeTail_split found with ⟨rfl, small⟩ | ⟨large, -⟩
  · have bound : byte.toNat < 0x80 := UInt8.lt_iff_toNat_lt.mp small
    have code : runeCode byte (rest.take 0) = byte.toNat := rfl
    have valid : byte.toNat.isValidChar := Or.inl (by omega)
    rw [code, String.utf8EncodeChar]
    simp only [toNat_ofNat valid]
    rw [if_pos (by omega), eq_ofNat rfl, List.take_zero]
  obtain ⟨low, high, second, others, shape, taken, below, above, long, tails⟩ := runeTail_shape found large
  rw [taken]
  have below := UInt8.le_iff_toNat_le.mp below
  have above := UInt8.le_iff_toNat_le.mp above
  rcases lead_shape shape with ⟨size, first, last, least, most⟩ | ⟨size, first, last, least, most, exceeds, under⟩ |
    ⟨size, first, last, least, most, exceeds, under⟩
  · obtain rfl := List.eq_nil_of_length_eq_zero (show others.length = 0 by omega)
    have code : runeCode byte [second] = byte.toNat % 32 * 64 + second.toNat % 64 := rfl
    have valid : (byte.toNat % 32 * 64 + second.toNat % 64).isValidChar := Or.inl (by omega)
    rw [code, String.utf8EncodeChar]
    simp only [toNat_ofNat valid]
    rw [if_neg (by omega), if_pos (by omega)]
    congr 1
    · exact eq_ofNat (by omega)
    · congr 1
      exact eq_ofNat (by omega)
  · obtain ⟨third, rfl⟩ := List.length_eq_one_iff.mp (show others.length = 1 by omega)
    have code : runeCode byte [second, third] =
      (byte.toNat % 16 * 64 + second.toNat % 64) * 64 + third.toNat % 64 := rfl
    have tail := isTail_bounds (tails third (by simp))
    have valid : ((byte.toNat % 16 * 64 + second.toNat % 64) * 64 + third.toNat % 64).isValidChar := by
      unfold Nat.isValidChar
      omega
    rw [code, String.utf8EncodeChar]
    simp only [toNat_ofNat valid]
    rw [if_neg (by omega), if_neg (by omega), if_pos (by omega)]
    congr 1
    · exact eq_ofNat (by omega)
    · congr 1
      · exact eq_ofNat (by omega)
      · congr 1
        exact eq_ofNat (by omega)
  · obtain ⟨third, fourth, rfl⟩ := List.length_eq_two.mp (show others.length = 2 by omega)
    have code : runeCode byte [second, third, fourth] =
      ((byte.toNat % 8 * 64 + second.toNat % 64) * 64 + third.toNat % 64) * 64 + fourth.toNat % 64 := rfl
    have tail := isTail_bounds (tails third (by simp))
    have final := isTail_bounds (tails fourth (by simp))
    have valid : (((byte.toNat % 8 * 64 + second.toNat % 64) * 64 + third.toNat % 64) * 64 + fourth.toNat % 64).isValidChar := by
      unfold Nat.isValidChar
      omega
    rw [code, String.utf8EncodeChar]
    simp only [toNat_ofNat valid]
    rw [if_neg (by omega), if_neg (by omega), if_neg (by omega)]
    congr 1
    · exact eq_ofNat (by omega)
    · congr 1
      · exact eq_ofNat (by omega)
      · congr 1
        · exact eq_ofNat (by omega)
        · congr 1
          exact eq_ofNat (by omega)

theorem runes_stray {byte : UInt8} {rest : Bytes} (stray : runeTail byte rest = none) :
    runes (byte :: rest) = '\ufffd' :: runes rest := by
  simp [runes, runesFrom, stray]

theorem runes_cons {byte : UInt8} (small : byte < 0x80) (rest : Bytes) :
    runes (byte :: rest) = Char.ofNat byte.toNat :: runes rest := by
  simp [runes, runesFrom, runeTail, small, runeCode]

theorem runesFrom_append (tails rest : Bytes) : runesFrom tails.length (tails ++ rest) = runesFrom 0 rest := by
  induction tails with
  | nil => rfl
  | cons tail tails ih => simp [runesFrom, ih]

theorem runes_rune {byte : UInt8} {tails rest : Bytes} (found : runeTail byte (tails ++ rest) = some tails.length) :
    runes (byte :: (tails ++ rest)) = Char.ofNat (runeCode byte tails) :: runes rest := by
  simp [runes, runesFrom, found, runesFrom_append]

/-- An ASCII byte splits a text for the decoder. -/
theorem runes_split {next : UInt8} (small : next < 0x80) (before after : Bytes) :
    runes (before ++ next :: after) = runes before ++ Char.ofNat next.toNat :: runes after := by
  induction before using runes_induction with
  | nil => exact runes_cons small after
  | stray byte rest _ found ih =>
    rw [List.cons_append, runes_stray ((runeTail_append small rest after).trans found), runes_stray found, ih,
      List.cons_append]
  | ascii byte rest other ih => rw [List.cons_append, runes_cons other, runes_cons other, ih, List.cons_append]
  | rune byte tails rest _ _ found ih =>
    have longer : runeTail byte (tails ++ (rest ++ next :: after)) = some tails.length := by
      rw [← List.append_assoc, runeTail_append small, found]
    rw [runes_rune found, List.cons_append, List.append_assoc, runes_rune longer, ih, List.cons_append]

theorem utf8_ofList (text : List Char) : utf8 (String.ofList text) = text.flatMap String.utf8EncodeChar := by
  rw [utf8, String.toByteArray_ofList, List.utf8Encode, List.data_toByteArray]

theorem utf8_injective : Function.Injective utf8 := by
  intro first second same
  exact String.toByteArray_inj.mp (ByteArray.ext (Array.toList_inj.mp same))

/-- Encoding what was decoded replaces the bytes that belong to no character. -/
theorem utf8_runes (text : Bytes) : utf8 (String.ofList (runes text)) = coerce text := by
  rw [utf8_ofList]
  induction text using runes_induction with
  | nil => rfl
  | stray byte rest _ found ih =>
    rw [runes_stray found, coerce_stray found, List.flatMap_cons, ih]
    rfl
  | ascii byte rest small ih =>
    have found : runeTail byte [] = some 0 := by simp [runeTail, small]
    have encoded := encode_rune found
    rw [runes_cons small, coerce_cons small, List.flatMap_cons, ih]
    exact congrArg (· ++ coerce rest) encoded
  | rune byte tails rest _ _ found ih =>
    have encoded := encode_rune found
    rw [List.take_left] at encoded
    rw [runes_rune found, coerce_rune found, List.flatMap_cons, encoded, ih, List.cons_append]

theorem runeTail_begins {byte low high second : UInt8} {others rest : Bytes} (large : ¬byte < 0x80)
    (shape : lead byte = some (low, high, others.length + 2)) (below : low ≤ second) (above : second ≤ high)
    (tails : ∀ other ∈ others, isTail other = true) :
    runeTail byte (second :: others ++ rest) = some (others.length + 1) := by
  have all : others.all isTail = true := List.all_eq_true.mpr tails
  simp [runeTail, large, shape, below, above, all]

theorem ofNat_le {value other : Nat} (below : value ≤ other) (small : other < 256) :
    UInt8.ofNat value ≤ UInt8.ofNat other := by
  rw [UInt8.le_iff_toNat_le, UInt8.toNat_ofNat', UInt8.toNat_ofNat', Nat.mod_eq_of_lt small,
    Nat.mod_eq_of_lt (Nat.lt_of_le_of_lt below small)]
  exact below

theorem isTail_ofNat {value : Nat} (low : 0x80 ≤ value) (high : value ≤ 0xBF) : isTail (UInt8.ofNat value) = true := by
  simp only [isTail, Bool.and_eq_true, decide_eq_true_eq]
  exact ⟨ofNat_le low (by omega), ofNat_le high (by decide)⟩

theorem large_ofNat {value : Nat} (large : 0x80 ≤ value) (small : value < 256) : ¬UInt8.ofNat value < 0x80 :=
  UInt8.not_lt.mpr (ofNat_le large small)

/-- The bytes of a character are decoded as one character. -/
theorem runeTail_encode (char : Char) (rest : Bytes) : ∃ byte tails, String.utf8EncodeChar char = byte :: tails ∧
    runeTail byte (tails ++ rest) = some tails.length := by
  have valid : char.val.toNat < 0xD800 ∨ 0xDFFF < char.val.toNat ∧ char.val.toNat < 0x110000 := char.valid
  rw [String.utf8EncodeChar]
  generalize char.val.toNat = value at valid
  split
  next one =>
    have small : UInt8.ofNat value < 0x80 := UInt8.not_le.mp fun large => by
      have bound := UInt8.le_iff_toNat_le.mp large
      rw [UInt8.toNat_ofNat', Nat.mod_eq_of_lt (by omega)] at bound
      exact absurd bound (by simp; omega)
    exact ⟨_, [], rfl, by simp [runeTail, small]⟩
  split
  next two =>
    have shape := lead_table (value / 64 % 32 + 0xC0) (by omega)
    rw [if_pos (by omega)] at shape
    refine ⟨_, _, rfl, runeTail_begins (large_ofNat (by omega) (by omega)) shape ?_ ?_ ?_⟩
    · exact @ofNat_le 0x80 _ (by omega) (by omega)
    · exact @ofNat_le _ 0xBF (by omega) (by decide)
    · simp
  split
  next three =>
    have shape := lead_table (value / 4096 % 16 + 0xE0) (by omega)
    rw [if_neg (by omega), if_pos (by omega)] at shape
    refine ⟨_, _, rfl, runeTail_begins (large_ofNat (by omega) (by omega)) shape ?_ ?_ ?_⟩
    · split
      · exact @ofNat_le 0xA0 _ (by omega) (by omega)
      · exact @ofNat_le 0x80 _ (by omega) (by omega)
    · split
      · exact @ofNat_le _ 0x9F (by omega) (by decide)
      · exact @ofNat_le _ 0xBF (by omega) (by decide)
    · intro other member
      obtain rfl := List.mem_singleton.mp member
      exact isTail_ofNat (by omega) (by omega)
  next four =>
    have shape := lead_table (value / 262144 % 8 + 0xF0) (by omega)
    rw [if_neg (by omega), if_neg (by omega), if_pos (by omega)] at shape
    refine ⟨_, _, rfl, runeTail_begins (large_ofNat (by omega) (by omega)) shape ?_ ?_ ?_⟩
    · split
      · exact @ofNat_le 0x90 _ (by omega) (by omega)
      · exact @ofNat_le 0x80 _ (by omega) (by omega)
    · split
      · exact @ofNat_le _ 0x8F (by omega) (by decide)
      · exact @ofNat_le _ 0xBF (by omega) (by decide)
    · intro other member
      simp only [List.mem_cons, List.not_mem_nil, or_false] at member
      obtain rfl | rfl := member
      · exact isTail_ofNat (by omega) (by omega)
      · exact isTail_ofNat (by omega) (by omega)

@[simp] theorem coerce_utf8 (text : String) : coerce (utf8 text) = utf8 text := by
  rw [← String.ofList_toList (s := text), utf8_ofList]
  induction text.toList with
  | nil => rfl
  | cons char chars ih =>
    obtain ⟨byte, tails, encoded, found⟩ := runeTail_encode char (chars.flatMap String.utf8EncodeChar)
    rw [List.flatMap_cons, encoded, List.cons_append, coerce_rune found, ih]

theorem runes_utf8 (text : String) : runes (utf8 text) = text.toList := by
  have same := utf8_injective ((utf8_runes (utf8 text)).trans (coerce_utf8 text))
  rw [← String.toList_ofList (l := runes (utf8 text)), same]

/-- The first characters of a text. The first argument counts bytes of a character already begun. -/
def takeRunesFrom : Nat → Nat → Bytes → Bytes
  | _, _, [] => []
  | pending + 1, limit, byte :: rest => byte :: takeRunesFrom pending limit rest
  | 0, 0, _ :: _ => []
  | 0, limit + 1, byte :: rest => byte :: takeRunesFrom ((runeTail byte rest).getD 0) limit rest

def takeRunes (limit : Nat) (text : Bytes) : Bytes := takeRunesFrom 0 limit text

theorem length_coerceFrom (pending : Nat) (text : Bytes) : text.length ≤ (coerceFrom pending text).length := by
  fun_induction coerceFrom pending text with
  | case1 => exact Nat.le_refl _
  | case2 pending byte rest ih => simpa using ih
  | case3 byte rest invalid ih =>
    simp only [List.length_cons, List.length_append, replacement, List.length_nil]
    omega
  | case4 byte rest more found ih => simpa using ih

/-- Replacing what is invalid never makes a text shorter. -/
theorem length_coerce (text : Bytes) : text.length ≤ (coerce text).length := length_coerceFrom 0 text

end Library.Bytes
