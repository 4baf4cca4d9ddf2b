import SshLogger.Library.Bytes
import SshLogger.Library.Json

/-! The JSON functions of an SQL store that works on byte strings. A text is read
byte by byte, so that what stands in its strings need not be UTF-8, and items that
are copied keep their spelling. -/

namespace Library.Sqlite
open Bytes

def chars (text : Bytes) : List Char := text.map fun byte => Char.ofNat byte.toNat

/-- `json_valid(text)` -/
def jsonValid (text : Bytes) : Bool := (Json.parse (chars text)).isSome

/-- `json_type(text)`, of a valid text. -/
def jsonType (text : Bytes) : String :=
  match Json.parse (chars text) with
  | some .null | none => "null"
  | some (.bool true) => "true"
  | some (.bool false) => "false"
  | some (.num value) => if value.val.any ['.', 'e', 'E'].contains then "real" else "integer"
  | some (.str _) => "text"
  | some (.arr _) => "array"
  | some (.obj _) => "object"

def itemsUntil : Nat → Bytes → Option (List Bytes)
  | 0, _ => none
  | fuel + 1, text =>
    match Json.read (text.length + 1) (chars text) with
    | none => none
    | some (_, rest) =>
      let size := text.length - rest.length
      match text.drop size with
      | [] => none
      | mark :: more =>
        if mark == ascii ',' then (itemsUntil fuel more).map (text.take size :: ·)
        else if mark == ascii ']' && more.isEmpty then some [text.take size]
        else none

/-- The texts of the items of an array that is written without blanks. -/
def arrayItems : Bytes → Option (List Bytes)
  | [] => none
  | mark :: rest =>
    if mark != ascii '[' then none else if rest == [ascii ']'] then some [] else itemsUntil rest.length rest

def arrayText (items : List Bytes) : Bytes := ascii '[' :: [ascii ','].intercalate items ++ [ascii ']']

/-- `json_remove(text,'$[0]')`; a text that has no such item is left as it is. -/
def jsonRemoveFirst (text : Bytes) : Bytes :=
  match arrayItems text with
  | some (_ :: rest) => arrayText rest
  | _ => text

/-- A control character without a short escape takes the long one. -/
def escapeByte (byte : UInt8) : Bytes :=
  if byte == ascii '"' || byte == ascii '\\' then [ascii '\\', byte]
  else if byte == 8 then [ascii '\\', ascii 'b']
  else if byte == 9 then [ascii '\\', ascii 't']
  else if byte == 10 then [ascii '\\', ascii 'n']
  else if byte == 12 then [ascii '\\', ascii 'f']
  else if byte == 13 then [ascii '\\', ascii 'r']
  else if byte < 0x20 then
    [ascii '\\', ascii 'u', ascii '0', ascii '0', ascii (byte.toNat / 16).digitChar, ascii (byte.toNat % 16).digitChar]
  else [byte]

def jsonString (text : Bytes) : Bytes := ascii '"' :: text.flatMap escapeByte ++ [ascii '"']

/-- `json_array(texts)` -/
def jsonArray (texts : List Bytes) : Bytes := arrayText (texts.map jsonString)

@[simp] theorem chars_nil : chars [] = [] := rfl

@[simp] theorem chars_cons (byte : UInt8) (rest : Bytes) : chars (byte :: rest) = Char.ofNat byte.toNat :: chars rest := rfl

@[simp] theorem chars_append (first second : Bytes) : chars (first ++ second) = chars first ++ chars second := List.map_append

@[simp] theorem length_chars (text : Bytes) : (chars text).length = text.length := List.length_map _

theorem toNat_char (byte : UInt8) : (Char.ofNat byte.toNat).toNat = byte.toNat := by
  have valid : byte.toNat.isValidChar := Or.inl (Nat.lt_trans byte.toNat_lt (by decide))
  rw [Char.ofNat, dif_pos valid]
  rfl

theorem chars_injective : Function.Injective chars := by
  apply List.map_injective_iff.mpr
  intro first second same
  have numbers := congrArg Char.toNat same
  rw [toNat_char, toNat_char] at numbers
  exact UInt8.toNat_inj.mp numbers

/-- A text that is read as one string, whatever follows it. -/
structure IsString (text : Bytes) : Prop where
  quoted : ∃ rest, text = ascii '"' :: rest
  value : ∃ value, ∀ fuel rest, Json.read (fuel + 1) (chars text ++ rest) = some (.str value, rest)

variable {items : List Bytes}

theorem intercalate_cons {first : Bytes} (some_left : items ≠ []) :
    [ascii ','].intercalate (first :: items) = first ++ ascii ',' :: [ascii ','].intercalate items := by
  obtain ⟨second, rest, rfl⟩ := List.exists_cons_of_ne_nil some_left
  simp [List.intercalate_cons_cons]

theorem itemsUntil_strings (strings : ∀ item ∈ items, IsString item) (some_item : items ≠ []) {fuel : Nat}
    (enough : items.length ≤ fuel) : itemsUntil fuel ([ascii ','].intercalate items ++ [ascii ']']) = some items := by
  induction items generalizing fuel with
  | nil => exact absurd rfl some_item
  | cons first rest ih =>
    obtain ⟨fuel, rfl⟩ : ∃ less, fuel = less + 1 := ⟨fuel - 1, by simp only [List.length_cons] at enough; omega⟩
    obtain ⟨value, read⟩ := (strings first List.mem_cons_self).value
    have step : ∀ tail : Bytes, Json.read ((first ++ tail).length + 1) (chars (first ++ tail)) =
        some (.str value, chars tail) := by
      intro tail
      rw [chars_append]
      exact read _ _
    have size : ∀ tail : Bytes, (first ++ tail).length - (chars tail).length = first.length := by
      intro tail
      rw [List.length_append, length_chars]
      omega
    by_cases last : rest = []
    · subst last
      have other : (ascii ']' == ascii ',') = false := by decide
      simp only [List.intercalate_singleton, itemsUntil, step, size, List.drop_left, List.take_left, other, beq_self_eq_true,
        List.isEmpty_nil, Bool.and_self, Bool.false_eq_true, if_false, if_true]
    · have later := ih (fun item member => strings item (List.mem_cons_of_mem _ member)) last
        (Nat.le_of_succ_le_succ enough)
      rw [intercalate_cons last, List.append_assoc, List.cons_append]
      simp only [itemsUntil, step, size, List.drop_left, List.take_left, beq_self_eq_true, if_true, later, Option.map_some]

theorem length_items (strings : ∀ item ∈ items, IsString item) :
    items.length < ([ascii ','].intercalate items ++ [ascii ']']).length := by
  induction items with
  | nil => simp
  | cons first rest ih =>
    have later := ih fun item member => strings item (List.mem_cons_of_mem _ member)
    obtain ⟨after, quoted⟩ := (strings first List.mem_cons_self).quoted
    by_cases last : rest = []
    · subst last
      simp [quoted]
    · rw [intercalate_cons last, List.append_assoc, List.cons_append]
      simp only [List.length_append, List.length_cons] at later ⊢
      omega

/-- An array of strings is taken apart into them. -/
theorem arrayItems_text (strings : ∀ item ∈ items, IsString item) : arrayItems (arrayText items) = some items := by
  cases items with
  | nil => decide
  | cons first rest =>
    obtain ⟨after, quoted⟩ := (strings first List.mem_cons_self).quoted
    have whole := itemsUntil_strings strings (List.cons_ne_nil _ _) (Nat.le_of_lt (length_items strings))
    have other : [ascii ','].intercalate (first :: rest) ++ [ascii ']'] ≠ [ascii ']'] := by
      intro same
      have long := length_items strings
      rw [same] at long
      simp at long
    simp only [arrayText, List.cons_append, arrayItems, bne_self_eq_false, Bool.false_eq_true, if_false, beq_iff_eq, other,
      whole]

theorem jsonRemoveFirst_text {first : Bytes} (strings : ∀ item ∈ first :: items, IsString item) :
    jsonRemoveFirst (arrayText (first :: items)) = arrayText items := by
  simp only [jsonRemoveFirst, arrayItems_text strings]

theorem readItems_strings (strings : ∀ item ∈ items, IsString item) (some_item : items ≠ []) {fuel : Nat}
    (enough : items.length < fuel) :
    ∃ values, Json.readItems fuel (chars ([ascii ','].intercalate items ++ [ascii ']'])) = some (values, []) := by
  induction items generalizing fuel with
  | nil => exact absurd rfl some_item
  | cons first rest ih =>
    obtain ⟨fuel, rfl⟩ : ∃ less, fuel = less + 2 := ⟨fuel - 2, by simp only [List.length_cons] at enough; omega⟩
    obtain ⟨value, read⟩ := (strings first List.mem_cons_self).value
    by_cases last : rest = []
    · subst last
      refine ⟨[.str value], ?_⟩
      rw [List.intercalate_singleton, chars_append, Json.readItems, read]
      rfl
    · obtain ⟨values, later⟩ := @ih (fun item member => strings item (List.mem_cons_of_mem _ member)) last (fuel + 1)
        (by simp only [List.length_cons] at enough; omega)
      refine ⟨.str value :: values, ?_⟩
      have comma : Char.ofNat (ascii ',').toNat = ',' := by decide
      rw [intercalate_cons last, List.append_assoc, List.cons_append, chars_append, chars_cons, Json.readItems, read, comma]
      simp only [Json.skip_cons (by decide : Json.isBlank ',' = false), later, Option.map_some]

/-- An array of strings is valid, and an array. -/
theorem parse_text (strings : ∀ item ∈ items, IsString item) :
    ∃ values, Json.parse (chars (arrayText items)) = some (.arr values) := by
  cases items with
  | nil => exact ⟨[], rfl⟩
  | cons first rest =>
    obtain ⟨after, quoted⟩ := (strings first List.mem_cons_self).quoted
    have long := length_items strings
    obtain ⟨values, inner⟩ := readItems_strings strings (List.cons_ne_nil _ _) (Nat.lt_succ_of_lt long)
    have bracket : Char.ofNat (ascii '[').toNat = '[' := by decide
    have quote : Char.ofNat (ascii '"').toNat = '"' := by decide
    have text : chars (arrayText (first :: rest)) = '[' :: chars ([ascii ','].intercalate (first :: rest) ++ [ascii ']']) := by
      rw [arrayText, List.cons_append, chars_cons, bracket]
    have begins : ∃ char tail, chars ([ascii ','].intercalate (first :: rest) ++ [ascii ']']) = char :: tail ∧
        Json.isBlank char = false ∧ char ≠ ']' ∧ char ≠ '}' := by
      refine ⟨'"', ?_⟩
      by_cases last : rest = []
      · subst last
        exact ⟨_, by rw [List.intercalate_singleton, quoted, List.cons_append, chars_cons, quote], by decide⟩
      · exact ⟨_, by rw [intercalate_cons last, quoted, List.cons_append, List.cons_append, chars_cons, quote], by decide⟩
    have read := Json.read_arr begins inner
    refine ⟨values, ?_⟩
    rw [Json.parse, text, List.length_cons, length_chars, read]
    rfl

theorem jsonValid_text (strings : ∀ item ∈ items, IsString item) : jsonValid (arrayText items) = true := by
  obtain ⟨values, parsed⟩ := parse_text strings
  rw [jsonValid, parsed]
  rfl

theorem jsonType_text (strings : ∀ item ∈ items, IsString item) : jsonType (arrayText items) = "array" := by
  obtain ⟨values, parsed⟩ := parse_text strings
  simp only [jsonType, parsed]

end Library.Sqlite
