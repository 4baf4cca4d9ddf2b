import Mathlib.Algebra.Order.BigOperators.Group.List
import SshLogger.Event
import SshLogger.Library.Search
import SshLogger.Library.Utf8

/-! How long JSON texts get. A byte takes at most six, and an event that was read
back from its JSON text is written no longer than before. -/

namespace SshLogger
open Library Library.Bytes

theorem escapeByte_length (byte : UInt8) : (escapeByte byte).length ≤ 6 := by
  have every : ∀ n < 256, (escapeByte (UInt8.ofNat n)).length ≤ 6 := by decide +kernel
  have found := every byte.toNat byte.toNat_lt
  rwa [UInt8.ofNat_toNat] at found

theorem quoteFrom_length (state : Nat × Bool) (text : Bytes) : (quoteFrom state text).length ≤ 6 * text.length := by
  fun_induction quoteFrom state text with
  | case1 => simp
  | case2 pending byte rest ih => simp only [List.length_cons]; omega
  | case3 pending copied byte rest dropped ih => simp only [List.length_cons]; omega
  | case4 copied byte rest small ih =>
    have short := escapeByte_length byte
    simp only [List.length_append, List.length_cons]
    omega
  | case5 copied byte rest large separator ih =>
    have six : (utf8 "\\u2028").length = 6 := rfl
    simp only [List.length_append, List.length_cons, six]
    omega
  | case6 copied byte rest large _ separator ih =>
    have six : (utf8 "\\u2029").length = 6 := rfl
    simp only [List.length_append, List.length_cons, six]
    omega
  | case7 copied byte rest large _ _ invalid ih =>
    have six : (utf8 "\\ufffd").length = 6 := rfl
    simp only [List.length_append, List.length_cons, six]
    omega
  | case8 copied byte rest large _ _ more found ih => simp only [List.length_cons]; omega

theorem quote_length (text : Bytes) : (quote text).length ≤ 6 * text.length + 2 := by
  have body := quoteFrom_length (0, true) text
  simp only [quote, List.length_cons, List.length_append, List.length_nil]
  omega

theorem hasPrefix_coerced {rest : Bytes} {first second : UInt8} (long : 2 ≤ rest.length) :
    hasPrefix (coerceFrom 2 rest) [first, second] = hasPrefix rest [first, second] := by
  have two : ∀ text : Bytes, hasPrefix text [first, second] = true ↔ text.take 2 = [first, second] := by
    intro text
    rw [hasPrefix, List.isPrefixOf_iff_prefix, List.prefix_iff_eq_take]
    exact eq_comm
  rw [Bool.eq_iff_iff, two, two, coerceFrom_take 2 rest long]

theorem runeTail_separator {rest : Bytes} {more : Nat} (found : runeTail 0xE2 rest = some more) : more = 2 :=
  @runeTail_size 0xE2 0x80 0xBF 3 more rest (by decide) (by decide) found

theorem runeTail_prefix {rest : Bytes} {last : UInt8} (tail : isTail last = true)
    (separator : hasPrefix rest [0x80, last] = true) : runeTail 0xE2 rest = some 2 := by
  obtain ⟨after, rfl⟩ := List.isPrefixOf_iff_prefix.mp separator
  simp [runeTail, lead, tail]

/-- A text that was read back is written no longer than the one it was read from. -/
theorem quoteFrom_coerced (state : Nat × Bool) (text : Bytes) (enough : state.1 ≤ text.length) :
    (quoteFrom state (coerceFrom state.1 text)).length ≤ (quoteFrom state text).length := by
  fun_induction quoteFrom state text with
  | case1 => simp [coerceFrom, quoteFrom]
  | case2 pending byte rest ih =>
    have shorter := ih (by simpa using enough)
    simpa [coerceFrom, quoteFrom] using shorter
  | case3 pending copied byte rest dropped ih =>
    have shorter := ih (by simpa using enough)
    simpa [coerceFrom, quoteFrom, dropped] using shorter
  | case4 copied byte rest small ih =>
    have shorter := ih (Nat.zero_le _)
    have whole : runeTail byte rest = some 0 := by simp [runeTail, small]
    simpa [coerceFrom, whole, quoteFrom, small] using shorter
  | case5 copied byte rest large separator ih =>
    simp only [Bool.and_eq_true, beq_iff_eq] at separator
    obtain ⟨rfl, separator⟩ := separator
    have whole := runeTail_prefix (by decide) separator
    have long := runeTail_le whole
    simpa [coerceFrom, whole, quoteFrom, hasPrefix_coerced long, separator] using ih long
  | case6 copied byte rest large other separator ih =>
    simp only [Bool.and_eq_true, beq_iff_eq] at separator
    obtain ⟨rfl, separator⟩ := separator
    have whole := runeTail_prefix (by decide) separator
    have long := runeTail_le whole
    have other : hasPrefix rest [0x80, 0xA8] = false := by simpa using other
    simpa [coerceFrom, whole, quoteFrom, hasPrefix_coerced long, separator, other] using ih long
  | case7 copied byte rest large _ _ invalid ih =>
    have shorter : (quoteFrom (0, true) (coerceFrom 0 rest)).length ≤ (quoteFrom (0, true) rest).length :=
      ih (Nat.zero_le _)
    have shape : runeTail 0xEF (0xBF :: 0xBD :: coerceFrom 0 rest) = some 2 := by simp [runeTail, lead, isTail]
    have six : (utf8 "\\ufffd").length = 6 := rfl
    simp only [coerceFrom, invalid, replacement, List.cons_append, List.nil_append, quoteFrom, shape, List.length_append, six]
    simp
    omega
  | case8 copied byte rest large other another more found ih =>
    have again := runeTail_congr found (coerceFrom_take more rest (runeTail_le found))
    have shorter := ih (runeTail_le found)
    by_cases separator : byte = 0xE2
    · subst separator
      obtain rfl := runeTail_separator found
      have long := runeTail_le found
      simp only [beq_self_eq_true, Bool.true_and, Bool.not_eq_true] at other another
      simpa [coerceFrom, found, quoteFrom, hasPrefix_coerced long, other, another, again] using shorter
    · simpa [coerceFrom, found, quoteFrom, large, separator, again] using shorter

theorem quote_coerced (text : Bytes) : (quote (coerce text)).length ≤ (quote text).length := by
  have body := quoteFrom_coerced (0, true) text (Nat.zero_le _)
  simp only [quote, List.length_cons, List.length_append, List.length_nil]
  exact Nat.add_le_add_right (Nat.add_le_add_right body 1) 1

def IsUnescaped (text : Bytes) : Prop := ∀ byte ∈ text, byte < 0x80 ∧ escapeByte byte = [byte]

theorem quote_unescaped {text : Bytes} (plain : IsUnescaped text) : (quote text).length = text.length + 2 := by
  have body : ∀ copied, quoteFrom (0, copied) text = text := by
    induction text with
    | nil => simp [quoteFrom]
    | cons byte rest ih =>
      obtain ⟨small, shown⟩ := plain byte (by simp)
      have kept := ih fun other member => plain other (by simp [member])
      simp [quoteFrom, small, shown, kept]
  simp [quote, body]

theorem utf8_length (text : String) : (utf8 text).length = text.utf8ByteSize := by
  rw [utf8, Array.length_toList, ← ByteArray.size, String.size_toByteArray]

theorem utf8_size (chars : List Char) : (utf8 (String.ofList chars)).length = (chars.map Char.utf8Size).sum := by
  rw [utf8_length]
  induction chars with
  | nil => rfl
  | cons char rest ih =>
    rw [String.ofList_cons, String.utf8ByteSize_append, String.utf8ByteSize_singleton, ih, List.map_cons, List.sum_cons]

theorem utf8_ascii {chars : List Char} (ascii : ∀ char ∈ chars, char.val ≤ 0x7F) :
    (utf8 (String.ofList chars)).length = chars.length := by
  have ones : chars.map Char.utf8Size = chars.map fun _ => 1 :=
    List.map_congr_left fun char member => Char.utf8Size_eq_one_iff.mpr (ascii char member)
  rw [utf8_size, ones]
  simp

theorem digit_ascii {char : Char} (digit : char.isDigit = true) : char.val ≤ 0x7F := by
  simp only [Char.isDigit, Bool.and_eq_true, decide_eq_true_eq] at digit
  exact UInt32.le_trans digit.2 (by decide)

/-- A machine integer that is not negative takes at most nineteen digits. -/
theorem decimal_length {value : Int} (low : 0 ≤ value) (high : value < 2 ^ 63) : (decimal value).length ≤ 19 := by
  obtain ⟨n, rfl⟩ := Int.eq_ofNat_of_zero_le low
  have text : toString (n : Int) = String.ofList (Nat.toDigits 10 n) := Nat.repr_eq_ofList_toDigits
  have digits : ∀ char ∈ Nat.toDigits 10 n, char.isDigit = true :=
    fun _ member => Nat.isDigit_of_mem_toDigits (by decide) (by decide) member
  rw [decimal, text, utf8_ascii fun char member => digit_ascii (digits char member)]
  exact (Nat.length_toDigits_le_iff (by decide) (by decide)).mpr (by omega)

theorem commaSeparated_bounded {parts : List Bytes} {width : Nat} (each : ∀ part ∈ parts, part.length ≤ width) :
    (commaSeparated parts).length ≤ parts.length * (width + 1) := by
  have sum : (parts.map List.length).sum ≤ parts.length * width := by
    have every := List.sum_le_card_nsmul (parts.map List.length) width (by simpa using each)
    simpa using every
  rw [commaSeparated_length, Nat.mul_add, Nat.mul_one]
  omega

@[simp] theorem jsonMember_length (name : String) (value : Bytes) :
    (jsonMember name value).length = (quote (utf8 name)).length + 1 + value.length := by
  simp only [jsonMember, List.length_append, List.length_cons]
  omega

theorem quotes_coerced (args : List Bytes) :
    (commaSeparated ((args.map coerce).map quote)).length ≤ (commaSeparated (args.map quote)).length := by
  rw [commaSeparated_length, commaSeparated_length]
  have sum : (((args.map coerce).map quote).map List.length).sum ≤ ((args.map quote).map List.length).sum := by
    simp only [List.map_map]
    exact List.sum_le_sum fun text _ => quote_coerced text
  simpa using sum

theorem kind_coerced (kind : Kind) : (quote (Event.coerceKind kind).text).length ≤ (quote kind.text).length := by
  cases kind with
  | unknown text => exact quote_coerced text
  | loginSuccess | loginFailure | sessionStart | sessionEnd | exec => exact Nat.le_refl _

/-- An event is sent in no more bytes than it is queued in. -/
theorem Event.coerced_json (e : Event) : e.coerced.json.length ≤ e.json.length := by
  have id := quote_coerced e.id
  have kind := kind_coerced e.kind
  have session := quote_coerced e.sessionId
  have user := quote_coerced e.user
  have login := quote_coerced e.loginUid
  have effective := quote_coerced e.effectiveUser
  have ip := quote_coerced e.ip
  have program := quote_coerced e.program
  have args := quotes_coerced e.args
  have outcome := quote_coerced e.outcome
  simp only [Event.json, Event.coerced, List.length_cons, List.length_append, List.length_nil, commaSeparated_length,
    List.map_append, List.map_cons, List.map_nil, List.sum_append, List.sum_cons, List.sum_nil, jsonMember_length]
  simp only [commaSeparated_length] at args
  omega

end SshLogger
