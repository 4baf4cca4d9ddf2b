import Mathlib.Data.List.TakeWhile

/-! JSON texts over characters: how a value is written without blanks, how any
text is read, and that the reader gives back what was written. -/

namespace Library.Json

def isNumberChar (char : Char) : Bool := char.isDigit || ['-', '+', '.', 'e', 'E'].contains char

def isExponent : List Char → Bool
  | [] => true
  | mark :: rest =>
    (mark == 'e' || mark == 'E') &&
      match rest with
      | '+' :: digits => !digits.isEmpty && digits.all Char.isDigit
      | '-' :: digits => !digits.isEmpty && digits.all Char.isDigit
      | digits => !digits.isEmpty && digits.all Char.isDigit

def isFraction : List Char → Bool
  | '.' :: rest => !(rest.takeWhile Char.isDigit).isEmpty && isExponent (rest.dropWhile Char.isDigit)
  | rest => isExponent rest

/-- No zero stands before another digit. -/
def isUnsigned (text : List Char) : Bool :=
  let whole := text.takeWhile Char.isDigit
  (whole == ['0'] || !whole.isEmpty && whole.head? != some '0') && isFraction (text.dropWhile Char.isDigit)

def dropSign : List Char → List Char
  | '-' :: rest => rest
  | text => text

def isNumber (text : List Char) : Bool := text.all isNumberChar && isUnsigned (dropSign text)

abbrev Numeral := { text : List Char // isNumber text = true }

def intText (value : Int) : List Char :=
  if value < 0 then '-' :: Nat.toDigits 10 value.natAbs else Nat.toDigits 10 value.natAbs

/-- The integer a numeral stands for, if it is written as one. -/
def readInt (text : List Char) : Option Int :=
  match text with
  | '-' :: digits => if digits.all Char.isDigit then some (-Nat.ofDigitChars 10 digits 0) else none
  | digits => if digits.all Char.isDigit then some (Nat.ofDigitChars 10 digits 0) else none

inductive Value
  | null
  | bool (value : Bool)
  | num (value : Numeral)
  | str (value : String)
  | arr (items : List Value)
  | obj (members : List (String × Value))

/-- `<`, `>`, `&` and the two line separators are escaped as well. -/
def escape (char : Char) : List Char :=
  if char == '"' then ['\\', '"']
  else if char == '\\' then ['\\', '\\']
  else if char == '\x08' then ['\\', 'b']
  else if char == '\x0c' then ['\\', 'f']
  else if char == '\n' then ['\\', 'n']
  else if char == '\r' then ['\\', 'r']
  else if char == '\t' then ['\\', 't']
  else if char.toNat < 0x20 || char == '<' || char == '>' || char == '&' then
    ['\\', 'u', '0', '0', (char.toNat / 16).digitChar, (char.toNat % 16).digitChar]
  else if char == '\u2028' then ['\\', 'u', '2', '0', '2', '8']
  else if char == '\u2029' then ['\\', 'u', '2', '0', '2', '9']
  else [char]

def writeString (text : List Char) : List Char := '"' :: text.flatMap escape ++ ['"']

mutual

def write : Value → List Char
  | .null => ['n', 'u', 'l', 'l']
  | .bool true => ['t', 'r', 'u', 'e']
  | .bool false => ['f', 'a', 'l', 's', 'e']
  | .num value => value.val
  | .str value => writeString value.toList
  | .arr [] => ['[', ']']
  | .arr (first :: rest) => '[' :: write first ++ writeItems rest
  | .obj [] => ['{', '}']
  | .obj ((name, first) :: rest) => '{' :: writeString name.toList ++ ':' :: write first ++ writeMembers rest

/-- The items of an array after its first, and its end. -/
def writeItems : List Value → List Char
  | [] => [']']
  | item :: rest => ',' :: write item ++ writeItems rest

def writeMembers : List (String × Value) → List Char
  | [] => ['}']
  | (name, value) :: rest => ',' :: writeString name.toList ++ ':' :: write value ++ writeMembers rest

end

def isBlank (char : Char) : Bool := [' ', '\t', '\n', '\r'].contains char

def skip (text : List Char) : List Char := text.dropWhile isBlank

def hexDigit (char : Char) : Option Nat :=
  if char.isDigit then some (char.toNat - '0'.toNat)
  else if 'a' ≤ char ∧ char ≤ 'f' then some (char.toNat - 'a'.toNat + 10)
  else if 'A' ≤ char ∧ char ≤ 'F' then some (char.toNat - 'A'.toNat + 10)
  else none

def hexCode (a b c d : Char) : Option Nat :=
  match hexDigit a, hexDigit b, hexDigit c, hexDigit d with
  | some a, some b, some c, some d => some (((a * 16 + b) * 16 + c) * 16 + d)
  | _, _, _, _ => none

def unescape (char : Char) : Option Char :=
  match char with
  | '"' => some '"'
  | '\\' => some '\\'
  | '/' => some '/'
  | 'b' => some '\x08'
  | 'f' => some '\x0c'
  | 'n' => some '\n'
  | 'r' => some '\r'
  | 't' => some '\t'
  | _ => none

/-- The half of a surrogate pair read last, which stands for nothing by itself. -/
abbrev Half := Option Nat

def Half.text : Half → List Char
  | none => []
  | some _ => ['\ufffd']

def isHigh (code : Nat) : Bool := 0xd800 ≤ code && code < 0xdc00

def isLow (code : Nat) : Bool := 0xdc00 ≤ code && code < 0xe000

/-- What an escaped code adds to the text, and the half pair it leaves. -/
def decode (half : Half) (code : Nat) : List Char × Half :=
  match half with
  | some high =>
    if isLow code then ([Char.ofNat (0x10000 + (high - 0xd800) * 0x400 + (code - 0xdc00))], none)
    else if isHigh code then (['\ufffd'], some code)
    else (['\ufffd', Char.ofNat code], none)
  | none => if isHigh code then ([], some code) else if isLow code then (['\ufffd'], none) else ([Char.ofNat code], none)

/-- The rest of a string after its opening quote, and what follows the string. -/
def readString : Half → List Char → Option (List Char × List Char)
  | half, char :: rest =>
    if char == '"' then some (half.text, rest)
    else if char == '\\' then
      match rest with
      | [] => none
      | kind :: rest =>
        if kind == 'u' then
          match rest with
          | a :: b :: c :: d :: rest =>
            match hexCode a b c d with
            | none => none
            | some code =>
              (readString (decode half code).2 rest).map fun (text, rest) => ((decode half code).1 ++ text, rest)
          | _ => none
        else
          match unescape kind with
          | none => none
          | some char => (readString none rest).map fun (text, rest) => (half.text ++ char :: text, rest)
    else if char.toNat < 0x20 then none
    else (readString none rest).map fun (text, rest) => (half.text ++ char :: text, rest)
  | _, [] => none

/-- A number ends where no character of one follows. -/
def readNumber (text : List Char) : Option (Value × List Char) :=
  let number := text.takeWhile isNumberChar
  if valid : isNumber number = true then some (.num ⟨number, valid⟩, text.dropWhile isNumberChar) else none

mutual

/-- The fuel bounds the depth of the recursion, never more than the length of the text. -/
def read : Nat → List Char → Option (Value × List Char)
  | 0, _ => none
  | fuel + 1, text =>
    match skip text with
    | 'n' :: 'u' :: 'l' :: 'l' :: rest => some (.null, rest)
    | 't' :: 'r' :: 'u' :: 'e' :: rest => some (.bool true, rest)
    | 'f' :: 'a' :: 'l' :: 's' :: 'e' :: rest => some (.bool false, rest)
    | '"' :: rest => (readString none rest).map fun (text, rest) => (.str (String.ofList text), rest)
    | '[' :: rest =>
      match skip rest with
      | ']' :: rest => some (.arr [], rest)
      | rest => (readItems fuel rest).map fun (items, rest) => (.arr items, rest)
    | '{' :: rest =>
      match skip rest with
      | '}' :: rest => some (.obj [], rest)
      | rest => (readMembers fuel rest).map fun (members, rest) => (.obj members, rest)
    | text => readNumber text

/-- Items up to the end of their array; at least one. -/
def readItems : Nat → List Char → Option (List Value × List Char)
  | 0, _ => none
  | fuel + 1, text =>
    match read fuel text with
    | none => none
    | some (item, rest) =>
      match skip rest with
      | ',' :: rest => (readItems fuel rest).map fun (items, rest) => (item :: items, rest)
      | ']' :: rest => some ([item], rest)
      | _ => none

def readMembers : Nat → List Char → Option (List (String × Value) × List Char)
  | 0, _ => none
  | fuel + 1, text =>
    match skip text with
    | '"' :: rest =>
      match readString none rest with
      | none => none
      | some (name, rest) =>
        match skip rest with
        | ':' :: rest =>
          match read fuel rest with
          | none => none
          | some (value, rest) =>
            match skip rest with
            | ',' :: rest =>
              (readMembers fuel rest).map fun (members, rest) => ((String.ofList name, value) :: members, rest)
            | '}' :: rest => some ([(String.ofList name, value)], rest)
            | _ => none
        | _ => none
    | _ => none

end

/-- A text that holds one value and nothing else. -/
def parse (text : List Char) : Option Value :=
  match read (text.length + 1) text with
  | some (value, rest) => if (skip rest).isEmpty then some value else none
  | none => none

@[simp] theorem half_text_none : Half.text none = [] := rfl

theorem hexCode_low : ∀ code < 0x80, hexCode '0' '0' (code / 16).digitChar (code % 16).digitChar = some code := by
  decide

theorem hexCode_separator : hexCode '2' '0' '2' '8' = some 0x2028 ∧ hexCode '2' '0' '2' '9' = some 0x2029 := by
  decide

theorem readString_code {a b c d : Char} {code : Nat} (digits : hexCode a b c d = some code) (small : code < 0xd800)
    (rest : List Char) : readString none ('\\' :: 'u' :: a :: b :: c :: d :: rest) =
      (readString none rest).map fun (text, rest) => (Char.ofNat code :: text, rest) := by
  have plain : decode none code = ([Char.ofNat code], none) := by
    have high : isHigh code = false := by simp [isHigh]; omega
    have low : isLow code = false := by simp [isLow]; omega
    simp [decode, high, low]
  simp [readString, digits, plain]

theorem readString_short {kind char : Char} (other : kind ≠ 'u') (means : unescape kind = some char) (rest : List Char) :
    readString none ('\\' :: kind :: rest) = (readString none rest).map fun (text, rest) => (char :: text, rest) := by
  rw [readString.eq_def]
  simp [other, means]

theorem readString_escape (char : Char) (rest : List Char) :
    readString none (escape char ++ rest) = (readString none rest).map fun (text, rest) => (char :: text, rest) := by
  unfold escape
  split
  next same =>
    obtain rfl := eq_of_beq same
    exact readString_short (by decide) rfl rest
  split
  next same =>
    obtain rfl := eq_of_beq same
    exact readString_short (by decide) rfl rest
  split
  next same =>
    obtain rfl := eq_of_beq same
    exact readString_short (by decide) rfl rest
  split
  next same =>
    obtain rfl := eq_of_beq same
    exact readString_short (by decide) rfl rest
  split
  next same =>
    obtain rfl := eq_of_beq same
    exact readString_short (by decide) rfl rest
  split
  next same =>
    obtain rfl := eq_of_beq same
    exact readString_short (by decide) rfl rest
  split
  next same =>
    obtain rfl := eq_of_beq same
    exact readString_short (by decide) rfl rest
  split
  next special =>
    have small : char.toNat < 0x80 := by
      simp only [Bool.or_eq_true, decide_eq_true_eq, beq_iff_eq] at special
      rcases special with ((control | rfl) | rfl) | rfl
      · omega
      all_goals decide
    have read := readString_code (hexCode_low char.toNat small) (by omega) rest
    rw [Char.ofNat_toNat] at read
    exact read
  split
  next same =>
    obtain rfl : char = '\u2028' := by simpa using same
    exact readString_code hexCode_separator.1 (by decide) rest
  split
  next same =>
    obtain rfl : char = '\u2029' := by simpa using same
    exact readString_code hexCode_separator.2 (by decide) rest
  next quote backslash _ _ _ _ _ special _ _ =>
    have control : ¬ char.toNat < 0x20 := by
      intro control
      simp [control] at special
    rw [List.singleton_append, readString.eq_def]
    simp only [quote, backslash, control, half_text_none, List.nil_append]
    rfl

theorem readString_write (text rest : List Char) : readString none (text.flatMap escape ++ '"' :: rest) = some (text, rest) := by
  induction text with
  | nil =>
    rw [List.flatMap_nil, List.nil_append, readString.eq_def]
    rfl
  | cons char text ih =>
    rw [List.flatMap_cons, List.append_assoc, readString_escape, ih]
    rfl

theorem skip_cons {char : Char} (plain : isBlank char = false) (rest : List Char) : skip (char :: rest) = char :: rest := by
  simp [skip, plain]

theorem isNumber_head {text : List Char} (number : isNumber text = true) :
    ∃ char rest, text = char :: rest ∧ isNumberChar char = true := by
  cases text with
  | nil => cases number
  | cons char rest =>
    simp only [isNumber, List.all_cons, Bool.and_eq_true] at number
    exact ⟨char, rest, rfl, number.1.1⟩

theorem isBlank_number {char : Char} (number : isNumberChar char = true) : isBlank char = false := by
  cases blank : isBlank char with
  | false => rfl
  | true =>
    have shared : ∀ char ∈ [' ', '\t', '\n', '\r'], isNumberChar char = false := by
      intro char member
      simp only [List.mem_cons, List.not_mem_nil, or_false] at member
      rcases member with rfl | rfl | rfl | rfl <;> rfl
    have other := shared char (by simpa [isBlank] using blank)
    rw [number] at other
    cases other

/-- A value begins with a character that is no blank and ends nothing. -/
theorem write_head (value : Value) :
    ∃ char rest, write value = char :: rest ∧ isBlank char = false ∧ char ≠ ']' ∧ char ≠ '}' := by
  cases value with
  | null => exact ⟨_, _, rfl, by decide, by decide, by decide⟩
  | bool value => cases value <;> exact ⟨_, _, rfl, by decide, by decide, by decide⟩
  | num value =>
    obtain ⟨char, rest, same, number⟩ := isNumber_head value.property
    refine ⟨char, rest, by rw [write, same], isBlank_number number, ?_, ?_⟩
    · rintro rfl
      cases number
    · rintro rfl
      cases number
  | str value => exact ⟨_, _, by rw [write]; rfl, by decide, by decide, by decide⟩
  | arr items =>
    cases items with
    | nil => exact ⟨_, _, by rw [write], by decide, by decide, by decide⟩
    | cons first rest => exact ⟨_, _, by rw [write]; rfl, by decide, by decide, by decide⟩
  | obj members =>
    rcases members with _ | ⟨⟨name, value⟩, rest⟩
    · exact ⟨_, _, by rw [write], by decide, by decide, by decide⟩
    · exact ⟨_, _, by rw [write]; rfl, by decide, by decide, by decide⟩

theorem read_numeral (value : Numeral) (fuel : Nat) {rest : List Char}
    (ends : ∀ char ∈ rest.head?, isNumberChar char = false) : read (fuel + 1) (value.val ++ rest) = some (.num value, rest) := by
  have all : value.val.all isNumberChar = true := by
    have number := value.property
    simp only [isNumber, Bool.and_eq_true] at number
    exact number.1
  have taken : (value.val ++ rest).takeWhile isNumberChar = value.val := by
    rw [List.takeWhile_append_of_pos (by simpa using all)]
    cases rest with
    | nil => simp
    | cons char more => simp [ends char rfl]
  have dropped : (value.val ++ rest).dropWhile isNumberChar = rest := by
    rw [List.dropWhile_append_of_pos (by simpa using all)]
    cases rest with
    | nil => rfl
    | cons char more => simp [ends char rfl]
  obtain ⟨char, more, same, number⟩ := isNumber_head value.property
  have read_as : read (fuel + 1) (value.val ++ rest) = readNumber (value.val ++ rest) := by
    rw [same, List.cons_append, read, skip_cons (isBlank_number number)]
    split
    all_goals first
      | rfl
      | (next shape =>
          obtain rfl := (List.cons.inj shape).1
          cases number)
  rw [read_as, readNumber]
  simp [taken, dropped, value.property]

theorem writeItems_head (items : List Value) (rest : List Char) :
    ∀ char ∈ (writeItems items ++ rest).head?, isNumberChar char = false := by
  cases items with
  | nil => simp [writeItems, isNumberChar]
  | cons item items => simp [writeItems, isNumberChar]

theorem writeMembers_head (members : List (String × Value)) (rest : List Char) :
    ∀ char ∈ (writeMembers members ++ rest).head?, isNumberChar char = false := by
  cases members with
  | nil => simp [writeMembers, isNumberChar]
  | cons member members => simp [writeMembers, isNumberChar]

theorem read_string (value : String) (fuel : Nat) (rest : List Char) :
    read (fuel + 1) (writeString value.toList ++ rest) = some (.str value, rest) := by
  rw [writeString, List.append_assoc, List.cons_append, List.singleton_append, read, skip_cons (by decide)]
  simp [readString_write]

theorem read_arr {text : List Char} {fuel : Nat} {items : List Value} {rest : List Char}
    (begins : ∃ char tail, text = char :: tail ∧ isBlank char = false ∧ char ≠ ']' ∧ char ≠ '}')
    (inner : readItems fuel text = some (items, rest)) : read (fuel + 1) ('[' :: text) = some (.arr items, rest) := by
  obtain ⟨char, tail, rfl, plain, other, -⟩ := begins
  rw [read, skip_cons (by decide)]
  simp [skip_cons plain, other, inner]

theorem read_obj {text : List Char} {fuel : Nat} {members : List (String × Value)} {rest : List Char}
    (begins : ∃ tail, text = '"' :: tail) (inner : readMembers fuel text = some (members, rest)) :
    read (fuel + 1) ('{' :: text) = some (.obj members, rest) := by
  obtain ⟨tail, rfl⟩ := begins
  rw [read, skip_cons (by decide)]
  simp [skip_cons (by decide : isBlank '"' = false), inner]

/-- With this fuel every text that is no longer than it is read as written. -/
structure Reads (fuel : Nat) : Prop where
  value : ∀ value rest, (write value).length ≤ fuel → (∀ char ∈ rest.head?, isNumberChar char = false) →
    read fuel (write value ++ rest) = some (value, rest)
  items : ∀ item items rest, (write item).length + (writeItems items).length ≤ fuel →
    readItems fuel (write item ++ writeItems items ++ rest) = some (item :: items, rest)
  members : ∀ name value members rest,
    (writeString name.toList).length + 1 + (write value).length + (writeMembers members).length ≤ fuel →
    readMembers fuel (writeString name.toList ++ ':' :: write value ++ writeMembers members ++ rest) =
      some ((name, value) :: members, rest)

section
variable {fuel : Nat} (reads : Reads fuel)
include reads

theorem Reads.read_value (value : Value) (rest : List Char) (enough : (write value).length ≤ fuel + 1)
    (ends : ∀ char ∈ rest.head?, isNumberChar char = false) :
    read (fuel + 1) (write value ++ rest) = some (value, rest) := by
  match value with
  | .null => simp [write, read, skip, isBlank]
  | .bool true => simp [write, read, skip, isBlank]
  | .bool false => simp [write, read, skip, isBlank]
  | .num value => exact read_numeral value fuel ends
  | .str value =>
    rw [write]
    exact read_string value fuel rest
  | .arr [] => simp [write, read, skip, isBlank]
  | .arr (first :: items) =>
    have inner := reads.items first items rest (by simpa [write] using enough)
    obtain ⟨char, tail, begins, other⟩ := write_head first
    rw [write]
    exact read_arr ⟨char, tail ++ writeItems items ++ rest, by simp [begins], other⟩ inner
  | .obj [] => simp [write, read, skip, isBlank]
  | .obj ((name, first) :: members) =>
    have long : (writeString name.toList).length + 1 + (write first).length + (writeMembers members).length ≤ fuel := by
      simp only [write, List.length_append, List.length_cons] at enough
      omega
    rw [write]
    exact read_obj ⟨_, rfl⟩ (reads.members name first members rest long)

theorem Reads.read_items (item : Value) (items : List Value) (rest : List Char)
    (enough : (write item).length + (writeItems items).length ≤ fuel + 1) :
    readItems (fuel + 1) (write item ++ writeItems items ++ rest) = some (item :: items, rest) := by
  match items with
  | [] =>
    have first := reads.value item (writeItems [] ++ rest) (by simp [writeItems] at enough; omega) (writeItems_head [] rest)
    rw [List.append_assoc, readItems, first]
    simp [writeItems, skip, isBlank]
  | next :: items =>
    have long : (write item).length + 1 + ((write next).length + (writeItems items).length) ≤ fuel + 1 := by
      simp only [writeItems, List.length_append, List.length_cons] at enough
      omega
    have first := reads.value item (writeItems (next :: items) ++ rest) (by omega) (writeItems_head (next :: items) rest)
    rw [List.append_assoc, readItems, first]
    simp only [writeItems, List.cons_append, skip_cons (by decide : isBlank ',' = false)]
    rw [reads.items next items rest (by omega)]
    rfl

theorem Reads.read_members (name : String) (value : Value) (members : List (String × Value)) (rest : List Char)
    (enough : (writeString name.toList).length + 1 + (write value).length + (writeMembers members).length ≤ fuel + 1) :
    readMembers (fuel + 1) (writeString name.toList ++ ':' :: write value ++ writeMembers members ++ rest) =
      some ((name, value) :: members, rest) := by
  have named : ∀ more, readMembers (fuel + 1) (writeString name.toList ++ ':' :: more) =
      match read fuel more with
      | none => none
      | some (value, rest) =>
        match skip rest with
        | ',' :: rest => (readMembers fuel rest).map fun (members, rest) => ((name, value) :: members, rest)
        | '}' :: rest => some ([(name, value)], rest)
        | _ => none := by
    intro more
    rw [writeString, List.append_assoc, List.cons_append, List.singleton_append, readMembers, skip_cons (by decide)]
    simp only [readString_write, skip_cons (by decide : isBlank ':' = false), String.ofList_toList]
  match members with
  | [] =>
    have first := reads.value value (writeMembers [] ++ rest) (by omega) (writeMembers_head [] rest)
    rw [List.append_assoc, List.append_assoc, List.cons_append, named, first]
    simp [writeMembers, skip, isBlank]
  | (next, item) :: members =>
    have long : (write value).length + ((writeString next.toList).length + 1 + (write item).length +
        (writeMembers members).length) ≤ fuel := by
      simp only [writeMembers, List.length_append, List.length_cons] at enough
      omega
    have first := reads.value value (writeMembers ((next, item) :: members) ++ rest) (by omega)
      (writeMembers_head ((next, item) :: members) rest)
    rw [List.append_assoc, List.append_assoc, List.cons_append, named, first]
    simp only [writeMembers, List.cons_append, skip_cons (by decide : isBlank ',' = false)]
    rw [reads.members next item members rest (by omega)]
    rfl

end

theorem reads (fuel : Nat) : Reads fuel := by
  induction fuel with
  | zero =>
    refine ⟨?_, ?_, ?_⟩
    · intro value rest short
      obtain ⟨char, tail, begins, -⟩ := write_head value
      simp [begins] at short
    · intro item items rest short
      obtain ⟨char, tail, begins, -⟩ := write_head item
      simp [begins] at short
    · intro name value members rest short
      omega
  | succ fuel ih => exact ⟨ih.read_value, ih.read_items, ih.read_members⟩

theorem parse_write (value : Value) : parse (write value) = some value := by
  have whole := (reads ((write value).length + 1)).value value [] (by omega) (by simp)
  rw [List.append_nil] at whole
  simp [parse, whole, skip]

theorem toDigits_head {value : Nat} (positive : 0 < value) : (Nat.toDigits 10 value).head? ≠ some '0' := by
  induction value using Nat.base_induction 10 (by decide) with
  | single digit small =>
    rw [Nat.toDigits_of_lt_base small]
    have other : ∀ digit < 10, 0 < digit → [digit.digitChar].head? ≠ some '0' := by decide
    exact other digit small positive
  | digit lead last small some_lead ih =>
    rw [← Nat.toDigits_append_toDigits (by decide) some_lead small]
    have other := ih some_lead
    cases digits : Nat.toDigits 10 lead with
    | nil => exact absurd digits Nat.toDigits_ne_nil
    | cons first rest => simpa [digits] using other

theorem toDigits_all (value : Nat) : (Nat.toDigits 10 value).all Char.isDigit = true :=
  List.all_eq_true.mpr fun _ member => Nat.isDigit_of_mem_toDigits (by decide) (by decide) member

theorem isUnsigned_toDigits (value : Nat) : isUnsigned (Nat.toDigits 10 value) = true := by
  have taken : (Nat.toDigits 10 value).takeWhile Char.isDigit = Nat.toDigits 10 value :=
    List.takeWhile_eq_self_iff.mpr (List.all_eq_true.mp (toDigits_all value))
  have dropped : (Nat.toDigits 10 value).dropWhile Char.isDigit = [] :=
    List.dropWhile_eq_nil_iff.mpr (List.all_eq_true.mp (toDigits_all value))
  rcases Nat.eq_zero_or_pos value with rfl | positive
  · decide
  · simp [isUnsigned, taken, dropped, toDigits_head positive, Nat.toDigits_ne_nil, isFraction, isExponent]

theorem toDigits_number (value : Nat) : (Nat.toDigits 10 value).all isNumberChar = true := by
  refine List.all_eq_true.mpr fun char member => ?_
  simp [isNumberChar, List.all_eq_true.mp (toDigits_all value) char member]

theorem toDigits_sign (value : Nat) (rest : List Char) : Nat.toDigits 10 value ≠ '-' :: rest := by
  intro same
  have all := toDigits_all value
  rw [same] at all
  cases all

theorem dropSign_toDigits (value : Nat) : dropSign (Nat.toDigits 10 value) = Nat.toDigits 10 value := by
  unfold dropSign
  split
  next same => exact absurd same (toDigits_sign _ _)
  · rfl

theorem isNumber_intText (value : Int) : isNumber (intText value) = true := by
  rw [isNumber, intText]
  split
  · rw [List.all_cons, toDigits_number, dropSign, isUnsigned_toDigits]
    rfl
  · rw [toDigits_number, dropSign_toDigits, isUnsigned_toDigits]
    rfl

theorem readInt_intText (value : Int) : readInt (intText value) = some value := by
  rw [intText]
  split
  · simp only [readInt, toDigits_all, if_true, Nat.ofDigitChars_ten_toDigits]
    congr
    omega
  · unfold readInt
    split
    next same => exact absurd same (toDigits_sign _ _)
    · simp only [toDigits_all, if_true, Nat.ofDigitChars_ten_toDigits]
      congr
      omega

def Value.int (value : Int) : Value := .num ⟨intText value, isNumber_intText value⟩

end Library.Json
