import SshLogger.Wire
import SshLogger.Proofs.RoutineText
import SshLogger.Proofs.BodySizes
import SshLogger.Library.JsonText

/-! What `json.Marshal` writes is read back. The bytes of a record spell a JSON value
whose strings are the coerced strings of the record, and decoding the value gives
the record with its strings coerced. -/

namespace SshLogger
open Library Library.Bytes Library.Json Library.Sqlite

theorem runes_append {plain : Bytes} (ascii : IsAscii plain) (rest : Bytes) :
    runes (plain ++ rest) = chars plain ++ runes rest := by
  induction plain with
  | nil => rfl
  | cons byte plain ih =>
    obtain ⟨small, others⟩ := List.forall_mem_cons.mp ascii
    rw [List.cons_append, runes_cons small, ih others]
    rfl

theorem quoteFrom_pending (tails rest : Bytes) (copied : Bool) :
    quoteFrom (tails.length, copied) (tails ++ rest) = (if copied then tails else []) ++ quoteFrom (0, true) rest := by
  induction tails with
  | nil => cases rest <;> cases copied <;> rfl
  | cons tail tails ih =>
    rw [List.cons_append, List.length_cons, quoteFrom, ih]
    cases copied <;> rfl

theorem escape_plain {char : Char} (large : 0x80 ≤ char.toNat) (first : char ≠ '\u2028') (second : char ≠ '\u2029') :
    Json.escape char = [char] := by
  have differs : ∀ {other : Char}, other.toNat < 0x80 → (char == other) = false := by
    intro other small
    rw [beq_eq_false_iff_ne]
    rintro rfl
    omega
  have control : ¬char.toNat < 0x20 := by omega
  simp [Json.escape, differs, control, first, second]

/-- A character outside ASCII is written as it is, the two line separators apart. -/
theorem shows_rune {byte : UInt8} {tails rest : Bytes} (large : 0x80 ≤ byte)
    (found : runeTail byte (tails ++ rest) = some tails.length)
    (other : ¬(byte == 0xE2 && hasPrefix (tails ++ rest) [0x80, 0xA8]) = true)
    (another : ¬(byte == 0xE2 && hasPrefix (tails ++ rest) [0x80, 0xA9]) = true) :
    Shows [Char.ofNat (runeCode byte tails)] [Char.ofNat (runeCode byte tails)] := by
  have encoded := encode_rune found
  rw [List.take_left] at encoded
  generalize Char.ofNat (runeCode byte tails) = char at encoded
  have separator : ∀ {last : UInt8}, byte :: tails = [0xE2, 0x80, last] →
      (byte == 0xE2 && hasPrefix (tails ++ rest) [0x80, last]) = true := by
    intro last same
    obtain ⟨rfl, rfl⟩ := List.cons.inj same
    simp [hasPrefix, List.isPrefixOf]
  have plain : Json.escape char = [char] := by
    refine escape_plain (Nat.not_lt.mp fun small => ?_) ?_ ?_
    · have single : String.utf8EncodeChar char = [UInt8.ofNat char.toNat] := if_pos (Nat.lt_succ_iff.mp small)
      rw [single] at encoded
      have low : UInt8.ofNat char.toNat < 0x80 := by
        rw [UInt8.lt_iff_toNat_lt, UInt8.toNat_ofNat', Nat.mod_eq_of_lt (by omega)]
        exact small
      exact absurd ((List.cons.inj encoded).1 ▸ low) (UInt8.not_lt.mpr large)
    · rintro rfl
      exact other (separator (encoded.symm.trans (by decide)))
    · rintro rfl
      exact another (separator (encoded.symm.trans (by decide)))
  exact plain ▸ Shows.escape char

theorem escapeByte_ascii {byte : UInt8} (small : byte < 0x80) : IsAscii (escapeByte byte) := by
  have every : ∀ value < 128, (escapeByte (UInt8.ofNat value)).all (· < 0x80) = true := by decide +kernel
  have found := every byte.toNat (UInt8.lt_iff_toNat_lt.mp small)
  rw [UInt8.ofNat_toNat] at found
  exact isAscii_of_all found

/-- The characters a reader finds between the quotes. -/
theorem shows_runes (text : Bytes) : Shows (runes (quoteFrom (0, true) text)) (runes text) := by
  induction text using runes_induction with
  | nil => exact .nil
  | stray byte rest large found ih =>
    have separator : ∀ last, isTail last = true → ¬(byte == 0xE2 && hasPrefix rest [0x80, last]) = true := by
      intro last tail same
      simp only [Bool.and_eq_true, beq_iff_eq] at same
      obtain ⟨rfl, starts⟩ := same
      rw [ runeTail_prefix tail starts] at found
      cases found
    rw [quoteFrom, if_neg (UInt8.not_lt.mpr large), if_neg (separator _ (by decide)), if_neg (separator _ (by decide)), found,
      runes_append (isAscii_of_all rfl), runes_stray found]
    exact shows_replacement.append ih
  | ascii byte rest small ih =>
    rw [quoteFrom, if_pos small, runes_append (escapeByte_ascii small), runes_cons small]
    exact (shows_ascii small).append ih
  | rune byte tails rest large others found ih =>
    rw [quoteFrom, if_neg (UInt8.not_lt.mpr large), runes_rune found]
    have dropped : ∀ {last : UInt8}, (byte == 0xE2 && hasPrefix (tails ++ rest) [0x80, last]) = true → isTail last = true →
        byte = 0xE2 ∧ tails = [0x80, last] := by
      intro last same tail
      simp only [Bool.and_eq_true, beq_iff_eq] at same
      obtain ⟨rfl, starts⟩ := same
      have leading := runeTail_prefix tail starts
      have two : 2 = tails.length := Option.some.inj (leading.symm.trans found)
      have taken : [0x80, last] = (tails ++ rest).take 2 := List.prefix_iff_eq_take.mp (List.isPrefixOf_iff_prefix.mp starts)
      rw [two, List.take_left] at taken
      exact ⟨rfl, taken.symm⟩
    split
    next first =>
      obtain ⟨rfl, rfl⟩ := dropped first (by decide)
      have shown : chars (utf8 "\\u2028") = Json.escape '\u2028' := by decide +kernel
      have code : Char.ofNat (runeCode 0xE2 [0x80, 0xA8]) = '\u2028' := by decide
      have skipped : quoteFrom (2, false) ([0x80, 0xA8] ++ rest) = quoteFrom (0, true) rest :=
        quoteFrom_pending [0x80, 0xA8] rest false
      rw [skipped, code, runes_append (isAscii_of_all rfl), shown]
      exact (Shows.escape _).append ih
    split
    next second =>
      obtain ⟨rfl, rfl⟩ := dropped second (by decide)
      have shown : chars (utf8 "\\u2029") = Json.escape '\u2029' := by decide +kernel
      have code : Char.ofNat (runeCode 0xE2 [0x80, 0xA9]) = '\u2029' := by decide
      have skipped : quoteFrom (2, false) ([0x80, 0xA9] ++ rest) = quoteFrom (0, true) rest :=
        quoteFrom_pending [0x80, 0xA9] rest false
      rw [skipped, code, runes_append (isAscii_of_all rfl), shown]
      exact (Shows.escape _).append ih
    next first second =>
      have kept : runeTail byte (tails ++ quoteFrom (0, true) rest) = some tails.length :=
        runeTail_congr found (by rw [List.take_left, List.take_left])
      simp only [found]
      rw [quoteFrom_pending tails rest true, if_pos rfl, runes_rune kept]
      exact (shows_rune large found first second).append ih

def readBack (text : Bytes) : String := String.ofList (runes text)

theorem utf8_readBack (text : Bytes) : utf8 (readBack text) = coerce text := utf8_runes text

theorem readBack_utf8 (text : String) : readBack (utf8 text) = text := by
  rw [readBack, runes_utf8, String.ofList_toList]

theorem runes_quote (text : Bytes) : runes (quote text) = '"' :: runes (quoteFrom (0, true) text) ++ ['"'] := by
  have mark : Char.ofNat (ascii '"').toNat = '"' := by decide
  rw [quote, List.cons_append, runes_cons (by decide), mark, runes_split (by decide), mark, List.cons_append]
  rfl

theorem renders_quote (text : Bytes) : RendersString (runes (quote text)) (readBack text) := by
  refine ⟨⟨_, by rw [runes_quote, List.cons_append], fun rest => ?_⟩⟩
  have ends : readString none ('"' :: rest) = some ([], rest) := by
    rw [readString.eq_def]
    rfl
  rw [List.append_assoc, List.singleton_append, shows_runes text, ends, readBack, String.toList_ofList]
  simp

theorem runes_decimal (value : Int) : runes (decimal value) = intText value := by
  rw [decimal, runes_utf8]
  cases value with
  | ofNat value =>
    have text : toString (Int.ofNat value) = String.ofList (Nat.toDigits 10 value) := rfl
    rw [text, String.toList_ofList, intText, if_neg (by simp)]
    rfl
  | negSucc value =>
    have text : toString (Int.negSucc value) = "-" ++ String.ofList (Nat.toDigits 10 (value + 1)) := rfl
    rw [text, String.toList_append, intText, if_pos (Int.negSucc_lt_zero value), String.toList_ofList (l := Nat.toDigits 10 _)]
    rfl

theorem renders_decimal (value : Int) : Renders (runes (decimal value)) (.int value) := by
  rw [runes_decimal]
  exact renders_write (.int value)

theorem runes_commaSeparated (parts : List Bytes) : runes (commaSeparated parts) = joined (parts.map runes) := by
  fun_induction commaSeparated parts with
  | case1 => rfl
  | case2 part => rfl
  | case3 part rest several ih =>
    cases rest with
    | nil => exact absurd rfl several
    | cons next rest =>
      have comma : Char.ofNat (ascii ',').toNat = ',' := by decide
      rw [runes_split (by decide), comma, ih]
      rfl

theorem renders_array {items : List Bytes} {values : List Value}
    (each : List.Forall₂ (fun item value => Renders (runes item) value) items values) :
    Renders (runes (jsonArray items)) (.arr values) := by
  have first : Char.ofNat (ascii '[').toNat = '[' := by decide
  have last : Char.ofNat (ascii ']').toNat = ']' := by decide
  have whole := renders_arr (List.forall₂_map_left_iff.mpr each)
  rw [jsonArray, List.cons_append, runes_cons (by decide), runes_split (by decide), first, last, runes_commaSeparated]
  exact whole

theorem renders_object {members : List Bytes} {values : List (String × Value)}
    (each : List.Forall₂ (fun member value => RendersMember (runes member) value) members values) :
    Renders (runes (jsonObject members)) (.obj values) := by
  have first : Char.ofNat (ascii '{').toNat = '{' := by decide
  have last : Char.ofNat (ascii '}').toNat = '}' := by decide
  have whole := renders_obj (List.forall₂_map_left_iff.mpr each)
  rw [jsonObject, List.cons_append, runes_cons (by decide), runes_split (by decide), first, last, runes_commaSeparated]
  exact whole

theorem renders_member {name : String} {text : Bytes} {value : Value} (rendered : Renders (runes text) value) :
    RendersMember (runes (jsonMember name text)) (name, value) := by
  have colon : Char.ofNat (ascii ':').toNat = ':' := by decide
  have named := renders_quote (utf8 name)
  rw [readBack_utf8] at named
  exact ⟨⟨_, _, by rw [jsonMember, runes_split (by decide), colon], named, rendered⟩⟩

theorem renders_true : Renders (runes (utf8 "true")) (.bool true) := by
  rw [runes_utf8]
  exact renders_write (.bool true)

theorem renders_null : Renders (runes (utf8 "null")) .null := by
  rw [runes_utf8]
  exact renders_write .null

end SshLogger
