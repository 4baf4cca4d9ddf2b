import SshLogger.Proofs.Records
import SshLogger.Library.Numerals

/-! Audit lines as they are written, and what is read back from them. A line is
a header and a row of fields. A field's value is quoted text or a run of bytes,
so nothing inside a value is taken for another field. -/

namespace SshLogger
open Library Library.Bytes

/-- A byte that may stand inside double quotes. -/
def isPrintable (byte : UInt8) : Bool := 0x21 ≤ byte && byte ≤ 0x7E && byte != ascii '"'

def IsHexDigit (value : Nat) (byte : UInt8) : Prop :=
  (utf8 "0123456789ABCDEF")[value]? = some byte ∨ (utf8 "0123456789abcdef")[value]? = some byte

inductive SpellsHex : Bytes → Bytes → Prop
  | nil : SpellsHex [] []
  | cons {byte high low value text} : IsHexDigit (byte.toNat / 16) high → IsHexDigit (byte.toNat % 16) low →
      SpellsHex value text → SpellsHex (byte :: value) (high :: low :: text)

/-- How a byte string is written as a value: in quotes if it can stand there, in hexadecimal otherwise. -/
inductive Spells (value : Bytes) : Bytes → Prop
  | quoted : (∀ byte ∈ value, isPrintable byte = true) → Spells value (ascii '"' :: (value ++ [ascii '"']))
  | hex {text} : (∃ byte ∈ value, isPrintable byte = false) → SpellsHex value text → Spells value text

def spellHex (value : Bytes) : Bytes :=
  value.flatMap fun byte => [byte.toNat / 16, byte.toNat % 16].map fun digit => (utf8 "0123456789ABCDEF").getD digit 0

def spell (value : Bytes) : Bytes :=
  if value.all isPrintable then ascii '"' :: (value ++ [ascii '"']) else spellHex value

theorem isHexDigit_getD {digit : Nat} (small : digit < 16) :
    IsHexDigit digit ((utf8 "0123456789ABCDEF").getD digit 0) := by
  interval_cases digit <;> exact Or.inl rfl

theorem spellsHex_spellHex (value : Bytes) : SpellsHex value (spellHex value) := by
  induction value with
  | nil => exact .nil
  | cons byte rest ih =>
    have bound := byte.toNat_lt
    exact .cons (isHexDigit_getD (by omega)) (isHexDigit_getD (by omega)) ih

theorem spells_spell (value : Bytes) : Spells value (spell value) := by
  unfold spell
  split
  next printable => exact .quoted (List.all_eq_true.mp printable)
  next odd =>
    refine .hex ?_ (spellsHex_spellHex value)
    simpa using odd

theorem hexDigit_of_isHexDigit {value : Nat} {byte : UInt8} (digit : IsHexDigit value byte) :
    hexDigit byte = some value ∧ isValueByte byte = true ∧ byte ≠ ascii '"' := by
  have small : value < 16 := by
    rcases digit with found | found <;> exact (List.getElem?_eq_some_iff.mp found).1
  rcases digit with found | found <;>
    interval_cases value <;> cases Option.some.inj found <;> decide

theorem SpellsHex.decodes {value text : Bytes} (spells : SpellsHex value text) : hexDecode text = some value := by
  induction spells with
  | nil => rfl
  | @cons byte high low value text first second _ ih =>
    have bound := byte.toNat_lt
    have same : (16 * (byte.toNat / 16) + byte.toNat % 16).toUInt8 = byte := by
      rw [Nat.div_add_mod]
      exact UInt8.ofNat_toNat
    simp only [hexDecode, (hexDigit_of_isHexDigit first).1, (hexDigit_of_isHexDigit second).1, ih, same]

theorem SpellsHex.bytes {value text : Bytes} (spells : SpellsHex value text) :
    ∀ byte ∈ text, isValueByte byte = true ∧ byte ≠ ascii '"' := by
  induction spells with
  | nil => simp
  | cons first second _ ih =>
    intro byte member
    rcases List.mem_cons.mp member with rfl | member
    · exact (hexDigit_of_isHexDigit first).2
    rcases List.mem_cons.mp member with rfl | member
    · exact (hexDigit_of_isHexDigit second).2
    · exact ih byte member

theorem dropWhile_kept {cutset text : Bytes} (kept : ∀ byte ∈ text, byte ∉ cutset) :
    text.dropWhile (List.contains cutset) = text := by
  cases text with
  | nil => rfl
  | cons first rest => exact List.dropWhile_cons_of_neg (by simpa using kept first List.mem_cons_self)

theorem trim_kept {cutset text : Bytes} (kept : ∀ byte ∈ text, byte ∉ cutset) : trim cutset text = text := by
  rw [trim, dropWhile_kept kept, dropWhile_kept fun byte member => kept byte (List.mem_reverse.mp member),
    List.reverse_reverse]

theorem trim_between {cutset text : Bytes} (kept : ∀ byte ∈ text, byte ∉ cutset) {byte : UInt8} (cut : byte ∈ cutset) :
    trim cutset (byte :: (text ++ [byte])) = text := by
  have dropped : ∀ rest : Bytes, (byte :: rest).dropWhile (List.contains cutset) = rest.dropWhile (List.contains cutset) :=
    fun rest => List.dropWhile_cons_of_pos (by simpa using cut)
  rw [trim, dropped]
  cases text with
  | nil => simp [cut]
  | cons first rest =>
    have stops : (first :: rest ++ [byte]).dropWhile (List.contains cutset) = first :: rest ++ [byte] := by
      rw [List.cons_append]
      exact List.dropWhile_cons_of_neg (by simpa using kept first List.mem_cons_self)
    have back := dropWhile_kept fun byte member => kept byte (List.mem_reverse.mp member)
    rw [stops, List.reverse_append, List.reverse_singleton, List.singleton_append, dropped, back, List.reverse_reverse]

/-- A value is read back as what was written. -/
theorem auditString_of_spells {value text : Bytes} (spells : Spells value text) : auditString text = value := by
  cases spells with
  | quoted printable =>
    have inner : ∀ byte ∈ value, byte ∉ [ascii '"'] := by
      intro byte member
      have := printable byte member
      simp only [isPrintable, Bool.and_eq_true, bne_iff_ne] at this
      simpa using this.2
    simp only [auditString, hasPrefix, List.isPrefixOf, beq_self_eq_true, Bool.and_true, if_true, val]
    exact trim_between inner List.mem_cons_self
  | hex odd spelled =>
    obtain ⟨strange, member, _⟩ := odd
    have decoded := spelled.decodes
    cases spelled with
    | nil => cases member
    | @cons byte high low value text first second rest =>
      have unquoted : hasPrefix (high :: low :: text) [ascii '"'] = false := by
        have different := (hexDigit_of_isHexDigit first).2.2
        simp [hasPrefix, List.isPrefixOf, different.symm]
      simp [auditString, unquoted, decoded]

theorem run_of_all {p : UInt8 → Bool} {text : Bytes} (all : (!text.isEmpty && text.all p) = true) :
    text ≠ [] ∧ ∀ byte ∈ text, p byte = true := by
  simpa using all

theorem none_of_any {p : UInt8 → Bool} {text : Bytes} (any : text.any p = false) : ∀ byte ∈ text, p byte = false := by
  simpa using any

/-- What is read as a value when `tail` follows it: text in double quotes, or a
run of bytes that ends at white space, an apostrophe or a closing parenthesis. -/
inductive IsWord : Bytes → Bytes → Prop
  | quoted {inner tail} : ascii '"' ∉ inner → IsWord (ascii '"' :: (inner ++ [ascii '"'])) tail
  | bare {first rest tail} : first ≠ ascii '"' → (∀ byte ∈ first :: rest, isValueByte byte = true) →
      (∀ byte ∈ tail.head?, isValueByte byte = false) → IsWord (first :: rest) tail

/-- A field as it is written: what is read as its value may be followed by bytes
that start no other field, such as the parenthesis that closes `(null)`. -/
structure Field where
  key : Bytes
  word : Bytes
  tail : Bytes
  named : key ≠ [] ∧ ∀ byte ∈ key, isKeyByte byte = true
  valued : IsWord word tail
  ended : ∀ byte ∈ tail, isDelimiter byte = false

def Field.text (field : Field) : Bytes := field.key ++ ascii '=' :: (field.word ++ field.tail)

def Field.entry (field : Field) : Bytes × Bytes := (field.key, field.word)

/-- Whatever its bytes, a spelled value is read as one value. -/
theorem Spells.isWord {value text : Bytes} (spells : Spells value text) : IsWord text [] := by
  cases spells with
  | quoted printable =>
    refine .quoted fun member => ?_
    exact absurd (printable _ member) (by decide)
  | hex odd spelled =>
    obtain ⟨strange, member, _⟩ := odd
    have bytes := spelled.bytes
    cases spelled with
    | nil => cases member
    | cons first second rest =>
      exact .bare (bytes _ List.mem_cons_self).2 (fun byte member => (bytes byte member).1) (by simp)

def valueField (key : Bytes) (named : key ≠ [] ∧ ∀ byte ∈ key, isKeyByte byte = true) (value : Bytes) : Field :=
  ⟨key, spell value, [], named, (spells_spell value).isWord, by simp⟩

def fieldsText (fields : List Field) : Bytes := fields.flatMap fun field => 32 :: field.text

def EndsField (rest : Bytes) : Prop := ∀ byte ∈ rest.head?, byte = 32

theorem endsField_fieldsText (fields : List Field) : EndsField (fieldsText fields) := by
  cases fields with
  | nil => simp [EndsField, fieldsText]
  | cons field fields => simp [EndsField, fieldsText]

theorem takeWhile_stops {p : UInt8 → Bool} {run rest : Bytes} (within : ∀ byte ∈ run, p byte = true)
    (stop : ∀ byte ∈ rest.head?, p byte = false) :
    (run ++ rest).takeWhile p = run ∧ (run ++ rest).dropWhile p = rest := by
  rw [List.takeWhile_append_of_pos within, List.dropWhile_append_of_pos within]
  cases rest with
  | nil => simp
  | cons byte rest => simp [stop byte rfl]

theorem matchValue_word {word tail rest : Bytes} (valued : IsWord word tail) (ends : EndsField rest) :
    matchValue (word ++ tail ++ rest) = some word := by
  cases valued with
  | @quoted inner tail clean =>
    have inside : ((ascii '"' :: (inner ++ [ascii '"']) ++ tail ++ rest).drop 1).takeWhile (· != ascii '"') = inner := by
      have shape : (ascii '"' :: (inner ++ [ascii '"']) ++ tail ++ rest).drop 1 = inner ++ ascii '"' :: (tail ++ rest) := by
        simp
      rw [shape]
      refine (takeWhile_stops (fun byte member => ?_) fun byte first => ?_).1
      · have other : byte ≠ ascii '"' := fun same => clean (same ▸ member)
        simpa using other
      · simpa using first.symm
    rw [matchValue, inside]
    exact if_pos (by simp [hasPrefix, List.isPrefixOf])
  | @bare byte word tail unquoted within stops =>
    have plain : hasPrefix (byte :: word ++ tail ++ rest) [ascii '"'] = false := by
      simp [hasPrefix, List.isPrefixOf, unquoted.symm]
    have run : (byte :: word ++ tail ++ rest).takeWhile isValueByte = byte :: word := by
      rw [List.append_assoc]
      refine (takeWhile_stops within fun next first => ?_).1
      cases tail with
      | nil => rw [ends next first]; decide
      | cons head tail => exact stops next first
    simp only [matchValue, plain, run, Bool.false_and, Bool.false_eq_true, if_false, List.isEmpty_cons]

theorem matchField_text (field : Field) {rest : Bytes} (ends : EndsField rest) :
    matchField (field.text ++ rest) = some field.entry := by
  obtain ⟨nonempty, within⟩ := field.named
  have stop : ∀ byte ∈ (ascii '=' :: (field.word ++ field.tail ++ rest)).head?, isKeyByte byte = false := by
    rintro byte ⟨⟩
    decide
  have key := takeWhile_stops within stop
  have shape : field.text ++ rest = field.key ++ ascii '=' :: (field.word ++ field.tail ++ rest) := by
    simp [Field.text]
  simp only [matchField, shape, key.1, key.2, matchValue_word field.valued ends, Option.map_some, beq_self_eq_true,
    Bool.and_true, Bool.not_eq_true', List.isEmpty_eq_false_iff.mpr nonempty, if_true]
  rfl

theorem scanFields_skip (skipped rest : Bytes) :
    scanFields false skipped.length (skipped ++ rest) = scanFields false 0 rest := by
  induction skipped with
  | nil => rfl
  | cons byte skipped ih => exact ih

/-- Bytes that are no delimiter start no field. -/
theorem scanFields_tail {tail : Bytes} (ended : ∀ byte ∈ tail, isDelimiter byte = false) (rest : Bytes) :
    scanFields false 0 (tail ++ rest) = scanFields false 0 rest := by
  induction tail with
  | nil => rfl
  | cons byte tail ih =>
    have plain := ended byte List.mem_cons_self
    simp only [List.cons_append, scanFields, plain, Bool.false_eq_true, if_false]
    exact ih fun byte member => ended byte (List.mem_cons_of_mem _ member)

theorem scanFields_matched (field : Field) (rest : Bytes) :
    scanFields false (field.key.length + field.word.length + 1) (field.text ++ rest) = scanFields false 0 rest := by
  have shape : field.text ++ rest = (field.key ++ ascii '=' :: field.word) ++ (field.tail ++ rest) := by
    simp [Field.text]
  have size : field.key.length + field.word.length + 1 = (field.key ++ ascii '=' :: field.word).length := by
    simp only [List.length_append, List.length_cons]
    omega
  rw [shape, size, scanFields_skip, scanFields_tail field.ended]

theorem scanFields_fields (fields : List Field) : scanFields false 0 (fieldsText fields) = fields.map Field.entry := by
  induction fields with
  | nil => rfl
  | cons field fields ih =>
    have found := matchField_text field (endsField_fieldsText fields)
    have after := scanFields_matched field (fieldsText fields)
    have blank : isDelimiter 32 = true := by decide
    simp only [fieldsText, List.flatMap_cons, List.cons_append] at found after ih ⊢
    simp only [scanFields, blank, found, if_true, Bool.false_eq_true, if_false, Field.entry, after, ih, List.map_cons]

theorem scanFields_line (first : Field) (fields : List Field) :
    scanFields true 0 (first.text ++ fieldsText fields) = first.entry :: fields.map Field.entry := by
  have found := matchField_text first (endsField_fieldsText fields)
  have after := scanFields_matched first (fieldsText fields)
  obtain ⟨byte, rest, shape⟩ : ∃ byte rest, first.text ++ fieldsText fields = byte :: rest :=
    List.exists_cons_of_ne_nil (by simp [Field.text])
  rw [shape] at found after ⊢
  simp only [scanFields, found, if_true, Field.entry] at after ⊢
  rw [after, scanFields_fields]

/-- The time and the number that the records of one group share. -/
structure Stamp where
  sec : Bytes
  ms : Bytes
  serial : Bytes
  numbers : IsStamp (sec, ms, serial)

def Stamp.text (stamp : Stamp) : Bytes := stamp.sec ++ ascii '.' :: (stamp.ms ++ ascii ':' :: stamp.serial)

structure Line where
  kind : Bytes
  fields : List Field
  word : kind ≠ [] ∧ ∀ byte ∈ kind, isWord byte = true

def Line.text (stamp : Stamp) (line : Line) : Bytes :=
  utf8 "type=" ++ line.kind ++ utf8 " msg=audit(" ++ stamp.text ++ utf8 "):" ++ fieldsText line.fields

def fieldMap (entries : List (Bytes × Bytes)) : List (Bytes × Bytes) :=
  entries.foldl (fun map entry => assign entry.1 entry.2 map) []

def Line.entries (stamp : Stamp) (line : Line) : List (Bytes × Bytes) :=
  (utf8 "type", line.kind) :: (utf8 "msg", utf8 "audit(" ++ stamp.text) :: line.fields.map Field.entry

def Line.record (stamp : Stamp) (line : Line) : Record where
  kind := line.kind
  id := stamp.text
  time := stampTime stamp.text
  fields := fieldMap (line.entries stamp)

theorem Line.mem_entries {line : Line} {field : Field} (member : field ∈ line.fields) (stamp : Stamp) :
    (field.key, field.word) ∈ line.entries stamp :=
  List.mem_cons_of_mem _ (List.mem_cons_of_mem _ (List.mem_map.mpr ⟨field, member, rfl⟩))

theorem isWord_value {byte : UInt8} (word : isWord byte = true) : isValueByte byte = true ∧ byte ≠ ascii '"' := by
  refine ⟨?_, by rintro rfl; exact absurd word (by decide)⟩
  simp only [isValueByte, isSpace, Bool.not_eq_true', Bool.or_eq_false_iff, List.contains_eq_mem,
    decide_eq_false_iff_not, beq_eq_false_iff_ne]
  refine ⟨⟨fun space => ?_, ?_⟩, ?_⟩
  · simp only [List.mem_cons, List.not_mem_nil, or_false] at space
    obtain rfl | rfl | rfl | rfl | rfl := space <;> exact absurd word (by decide)
  · rintro rfl
    exact absurd word (by decide)
  · rintro rfl
    exact absurd word (by decide)

theorem isWord_digit {byte : UInt8} (digit : isDigit byte = true) : isWord byte = true := by
  simp [isWord, digit]

theorem isWord_bare {word tail : Bytes} (nonempty : word ≠ []) (bytes : ∀ byte ∈ word, isWord byte = true)
    (stop : ∀ byte ∈ tail.head?, isValueByte byte = false) : IsWord word tail := by
  obtain ⟨first, rest, rfl⟩ := List.exists_cons_of_ne_nil nonempty
  refine .bare (isWord_value (bytes first List.mem_cons_self)).2 (fun byte member => ?_) stop
  exact (isWord_value (bytes byte member)).1

def numberField (key : Bytes) (named : key ≠ [] ∧ ∀ byte ∈ key, isKeyByte byte = true) (value : Nat) : Field :=
  ⟨key, numeral value, [], named,
    isWord_bare (numeral_ne_nil value) (fun _ member => isWord_digit (isDigit_numeral member)) (by simp), by simp⟩

theorem Stamp.value (stamp : Stamp) {byte : UInt8} (member : byte ∈ stamp.text) : isValueByte byte = true := by
  obtain ⟨sec, ms, serial⟩ : (∀ byte ∈ stamp.sec, isDigit byte = true) ∧ (∀ byte ∈ stamp.ms, isDigit byte = true) ∧
      ∀ byte ∈ stamp.serial, isDigit byte = true :=
    ⟨(stamp.numbers _ (by simp)).2, (stamp.numbers _ (by simp)).2, (stamp.numbers _ (by simp)).2⟩
  simp only [Stamp.text, List.mem_append, List.mem_cons] at member
  obtain member | rfl | member | rfl | member := member
  · exact (isWord_value (isWord_digit (sec byte member))).1
  · decide
  · exact (isWord_value (isWord_digit (ms byte member))).1
  · decide
  · exact (isWord_value (isWord_digit (serial byte member))).1

def Line.kindField (line : Line) : Field where
  key := utf8 "type"
  word := line.kind
  tail := []
  named := run_of_all rfl
  valued := isWord_bare line.word.1 line.word.2 (by simp)
  ended := by simp

def Stamp.field (stamp : Stamp) : Field where
  key := utf8 "msg"
  word := utf8 "audit(" ++ stamp.text
  tail := utf8 "):"
  named := run_of_all rfl
  valued := by
    have start : ∀ byte ∈ utf8 "audit(", isValueByte byte = true := (run_of_all rfl).2
    have stop : ∀ byte ∈ (utf8 "):").head?, isValueByte byte = false := by
      rintro byte ⟨⟩
      rfl
    refine .bare (by decide : ascii 'a' ≠ ascii '"') (fun byte member => ?_) stop
    have member : byte ∈ utf8 "audit(" ++ stamp.text := member
    exact (List.mem_append.mp member).elim (start byte) stamp.value
  ended := none_of_any rfl

theorem Line.text_eq (stamp : Stamp) (line : Line) :
    line.text stamp = line.kindField.text ++ fieldsText (stamp.field :: line.fields) := by
  have opening : utf8 " msg=audit(" = 32 :: (utf8 "msg" ++ ascii '=' :: utf8 "audit(") := rfl
  have start : utf8 "type=" = utf8 "type" ++ [ascii '='] := rfl
  simp [Line.text, Field.text, fieldsText, Line.kindField, Stamp.field, opening, start]

theorem digitsThen_run {run : Bytes} (digits : run ≠ [] ∧ ∀ byte ∈ run, isDigit byte = true) {stop : Char}
    (other : isDigit (ascii stop) = false) (rest : Bytes) :
    digitsThen stop (run ++ ascii stop :: rest) = some (run, rest) := by
  have split := @takeWhile_digits run rest _ digits.2 other
  simp only [digitsThen, split.1, split.2, beq_self_eq_true, Bool.and_true, Bool.not_eq_true',
    List.isEmpty_eq_false_iff.mpr digits.1, if_true]

theorem matchStamp_text (stamp : Stamp) (rest : Bytes) :
    matchStamp (utf8 "msg=audit(" ++ stamp.text ++ ascii ')' :: rest) = some (stamp.sec, stamp.ms, stamp.serial) := by
  have starts : hasPrefix (utf8 "msg=audit(" ++ stamp.text ++ ascii ')' :: rest) (utf8 "msg=audit(") = true := by
    rw [hasPrefix, List.isPrefixOf_iff_prefix, List.append_assoc]
    exact List.prefix_append _ _
  have dropped : (utf8 "msg=audit(" ++ stamp.text ++ ascii ')' :: rest).drop 10 =
      stamp.sec ++ ascii '.' :: (stamp.ms ++ ascii ':' :: (stamp.serial ++ ascii ')' :: rest)) := by
    have ten : (utf8 "msg=audit(").length = 10 := rfl
    rw [List.append_assoc, ← ten, List.drop_left]
    simp [Stamp.text]
  have sec := digitsThen_run (stamp.numbers stamp.sec (by simp)) (by decide : isDigit (ascii '.') = false)
  have ms := digitsThen_run (stamp.numbers stamp.ms (by simp)) (by decide : isDigit (ascii ':') = false)
  have serial := digitsThen_run (stamp.numbers stamp.serial (by simp)) (by decide : isDigit (ascii ')') = false)
  simp only [matchStamp, starts, dropped, sec, ms, serial, if_true, Option.bind_eq_bind, Option.bind_some, Option.pure_def]

theorem matchHeader_line (stamp : Stamp) (line : Line) :
    matchHeader (line.text stamp) = some (line.kind, stamp.sec, stamp.ms, stamp.serial) := by
  obtain ⟨nonempty, bytes⟩ := line.word
  have shape : line.text stamp = utf8 "type=" ++
      (line.kind ++ 32 :: (utf8 "msg=audit(" ++ stamp.text ++ ascii ')' :: (58 :: fieldsText line.fields))) := by
    have blank : utf8 " msg=audit(" = 32 :: utf8 "msg=audit(" := rfl
    have close : utf8 "):" = [ascii ')', 58] := rfl
    simp [Line.text, blank, close]
  have starts : hasPrefix (line.text stamp) (utf8 "type=") = true := by
    rw [hasPrefix, List.isPrefixOf_iff_prefix, shape]
    exact List.prefix_append _ _
  have dropped : (line.text stamp).drop 5 =
      line.kind ++ 32 :: (utf8 "msg=audit(" ++ stamp.text ++ ascii ')' :: (58 :: fieldsText line.fields)) := by
    have five : (utf8 "type=").length = 5 := rfl
    rw [shape, ← five, List.drop_left]
  have run : ((line.text stamp).drop 5).takeWhile isWord = line.kind := by
    rw [dropped]
    refine (takeWhile_stops bytes ?_).1
    rintro byte ⟨⟩
    decide
  have found : findStamp (((line.text stamp).drop 5).drop line.kind.length) =
      some (stamp.sec, stamp.ms, stamp.serial) := by
    have blank : ∀ rest, matchStamp (32 :: rest) = none := fun _ => rfl
    have stamped := matchStamp_text stamp (58 :: fieldsText line.fields)
    have head : utf8 "msg=audit(" = ascii 'm' :: utf8 "sg=audit(" := rfl
    rw [dropped, List.drop_left]
    simp only [head, List.cons_append] at stamped ⊢
    simp only [findStamp, blank, stamped]
    rfl
  obtain ⟨length, size⟩ : ∃ length, line.kind.length = length + 1 :=
    Nat.exists_eq_succ_of_ne_zero (fun none => nonempty (List.length_eq_zero_iff.mp none))
  have kind : ((line.text stamp).drop 5).take (length + 1) = line.kind := by
    rw [dropped, ← size, List.take_left]
  have here : matchKind line.kind.length ((line.text stamp).drop 5) =
      some (line.kind, stamp.sec, stamp.ms, stamp.serial) := by
    rw [size] at found ⊢
    simp only [matchKind, found, kind]
  obtain ⟨byte, rest, text⟩ : ∃ byte rest, line.text stamp = byte :: rest := by
    rw [shape]
    exact ⟨_, _, rfl⟩
  rw [text] at starts run here ⊢
  simp only [matchHeader, starts, run, here, if_true]

/-- A line is read back as its kind, its stamp and its fields. -/
theorem parseRecord_line (stamp : Stamp) (line : Line) : parseRecord (line.text stamp) = some (line.record stamp) := by
  have scanned : scanFields true 0 (line.text stamp) = line.entries stamp := by
    rw [line.text_eq, scanFields_line]
    rfl
  have parsed : ∃ r, parseRecord (line.text stamp) = some r ∧ r.kind = line.kind ∧ r.id = stamp.text ∧
      r.fields = (line.record stamp).fields := by
    simp only [parseRecord, matchHeader_line, scanned]
    exact ⟨_, rfl, rfl, by simp [Stamp.text], rfl⟩
  obtain ⟨r, parsed, kind, id, fields⟩ := parsed
  have time := parseRecord_time parsed
  rw [parsed]
  obtain ⟨_, _, _, _⟩ := r
  simp only at kind id fields time
  simp only [Line.record, Option.some.injEq, Record.mk.injEq]
  exact ⟨kind, id, time.trans (congrArg stampTime id), fields⟩

end SshLogger
