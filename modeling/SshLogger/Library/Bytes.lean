import Mathlib.Data.List.Basic
import Mathlib.Tactic.IntervalCases
import Mathlib.Tactic.NormNum

/-! Byte strings: the operations of a `string` type whose values are arbitrary
bytes, the decimal numerals read from and written to them, and the UTF-8 view a
text encoder takes of them. -/

namespace Library

abbrev Bytes := List UInt8

namespace Bytes

def utf8 (literal : String) : Bytes := literal.toByteArray.data.toList

def ascii (char : Char) : UInt8 := char.toNat.toUInt8

def indexByte (byte : UInt8) (text : Bytes) : Option Nat := text.findIdx? (· == byte)

def hasPrefix (text start : Bytes) : Bool := start.isPrefixOf text

def hasSuffix (text ending : Bytes) : Bool := ending.isSuffixOf text

def contains (text part : Bytes) : Bool := text.tails.any part.isPrefixOf

def containsAny (text cutset : Bytes) : Bool := text.any (List.contains cutset)

/-- Drop every leading and trailing byte of the cut set. -/
def trim (cutset text : Bytes) : Bytes :=
  ((text.dropWhile (List.contains cutset)).reverse.dropWhile (List.contains cutset)).reverse

def isDigit (byte : UInt8) : Bool := ascii '0' ≤ byte && byte ≤ ascii '9'

def isUpper (byte : UInt8) : Bool := ascii 'A' ≤ byte && byte ≤ ascii 'Z'

def isLower (byte : UInt8) : Bool := ascii 'a' ≤ byte && byte ≤ ascii 'z'

/-- `\w`. -/
def isWord (byte : UInt8) : Bool := isDigit byte || isUpper byte || isLower byte || byte == ascii '_'

/-- `\s`. -/
def isSpace (byte : UInt8) : Bool := [9, 10, 12, 13, 32].contains byte

def digits (text : Bytes) : Nat := text.foldl (fun value byte => 10 * value + (byte.toNat - 48)) 0

def decimal (value : Int) : Bytes := utf8 (toString value)

/-- `strconv.ParseInt(text, 10, bits)`: an optional sign and digits, in range. -/
def parseInt (text : Bytes) (bits : Nat) : Option Int :=
  let (negative, rest) := match text with
    | sign :: rest => if sign == ascii '-' then (true, rest)
        else if sign == ascii '+' then (false, rest) else (false, text)
    | [] => (false, [])
  if rest.isEmpty || !rest.all isDigit then none
  else
    let value : Int := if negative then -(digits rest) else digits rest
    if -(2 ^ (bits - 1)) ≤ value && value < 2 ^ (bits - 1) then some value else none

/-- The value `strconv.Atoi` returns, also beside an error. -/
def atoi (text : Bytes) : Int :=
  let (negative, rest) := match text with
    | sign :: rest => if sign == ascii '-' then (true, rest)
        else if sign == ascii '+' then (false, rest) else (false, text)
    | [] => (false, [])
  if rest.isEmpty || !rest.all isDigit then 0
  else
    let value : Int := if negative then -(digits rest) else digits rest
    max (-(2 ^ 63)) (min value (2 ^ 63 - 1))

/-- The value `strconv.ParseInt` returns beside a range error is the nearest bound. -/
def parseIntSaturating (text : Bytes) : Int :=
  if text.isEmpty || !text.all isDigit then 0 else min (digits text) (2 ^ 63 - 1)

def hexDigit (byte : UInt8) : Option Nat :=
  if isDigit byte then some (byte.toNat - 48)
  else if ascii 'a' ≤ byte && byte ≤ ascii 'f' then some (byte.toNat - 87)
  else if ascii 'A' ≤ byte && byte ≤ ascii 'F' then some (byte.toNat - 55)
  else none

/-- `hex.DecodeString`: an odd length or any other byte is an error. -/
def hexDecode : Bytes → Option Bytes
  | [] => some []
  | [_] => none
  | high :: low :: rest =>
    match hexDigit high, hexDigit low, hexDecode rest with
    | some first, some second, some decoded => some ((16 * first + second).toUInt8 :: decoded)
    | _, _, _ => none

def isTail (byte : UInt8) : Bool := 0x80 ≤ byte && byte ≤ 0xBF

/-- The bounds of the second byte and the length of a sequence by its first byte. -/
def lead (byte : UInt8) : Option (UInt8 × UInt8 × Nat) :=
  if 0xC2 ≤ byte && byte ≤ 0xDF then some (0x80, 0xBF, 2)
  else if byte == 0xE0 then some (0xA0, 0xBF, 3)
  else if byte == 0xED then some (0x80, 0x9F, 3)
  else if 0xE1 ≤ byte && byte ≤ 0xEF then some (0x80, 0xBF, 3)
  else if byte == 0xF0 then some (0x90, 0xBF, 4)
  else if byte == 0xF4 then some (0x80, 0x8F, 4)
  else if 0xF1 ≤ byte && byte ≤ 0xF3 then some (0x80, 0xBF, 4)
  else none

/-- How many bytes follow the first one in the character that starts the text;
`none` when its first byte belongs to no character. -/
def runeTail (byte : UInt8) (rest : Bytes) : Option Nat :=
  if byte < 0x80 then some 0
  else match lead byte with
    | none => none
    | some (low, high, size) =>
      match rest with
      | [] => none
      | second :: others =>
        if low ≤ second && second ≤ high && size - 2 ≤ others.length && (others.take (size - 2)).all isTail
        then some (size - 1) else none

/-- U+FFFD. -/
def replacement : Bytes := [0xEF, 0xBF, 0xBD]

/-- Copy `pending` bytes of the current character, then decode the next ones,
with U+FFFD for each byte that belongs to no character. -/
def coerceFrom : Nat → Bytes → Bytes
  | _, [] => []
  | pending + 1, byte :: rest => byte :: coerceFrom pending rest
  | 0, byte :: rest =>
    match runeTail byte rest with
    | none => replacement ++ coerceFrom 0 rest
    | some more => byte :: coerceFrom more rest

/-- What a byte string becomes when it is written as a JSON string and read back. -/
def coerce (text : Bytes) : Bytes := coerceFrom 0 text

theorem runeTail_le {byte : UInt8} {rest : Bytes} {more : Nat} (found : runeTail byte rest = some more) :
    more ≤ rest.length := by
  unfold runeTail at found
  split at found
  · cases found; exact Nat.zero_le _
  · split at found
    · cases found
    · split at found
      · cases found
      · split at found
        next fits =>
          cases found
          simp only [Bool.and_eq_true, decide_eq_true_eq] at fits
          simp only [List.length_cons]
          omega
        · cases found

/-- Only the bytes of the character itself decide where it ends. -/
theorem runeTail_congr {byte : UInt8} {rest other : Bytes} {more : Nat}
    (found : runeTail byte rest = some more) (same : other.take more = rest.take more) :
    runeTail byte other = some more := by
  have enough := runeTail_le found
  unfold runeTail at found ⊢
  split at found
  next small => simpa [small] using found
  next large =>
    simp only [large, if_false]
    split at found
    · cases found
    next low high size shape =>
      cases rest with
      | nil => cases found
      | cons second others =>
        simp only at found
        split at found
        next fits =>
          cases found
          simp only [Bool.and_eq_true, decide_eq_true_eq] at fits
          obtain ⟨⟨⟨below, above⟩, long⟩, tails⟩ := fits
          have wide : 2 ≤ size := by
            unfold lead at shape
            split_ifs at shape <;> simp_all <;> omega
          obtain ⟨extra, rfl⟩ : ∃ extra, size = extra + 2 := ⟨size - 2, by omega⟩
          simp only [Nat.add_sub_cancel, show extra + 2 - 1 = extra + 1 by omega, List.take_succ_cons] at same long tails enough ⊢
          cases other with
          | nil => simp at same
          | cons first left =>
            simp only [List.take_succ_cons, List.cons.injEq] at same
            obtain ⟨rfl, same⟩ := same
            have length := congrArg List.length same
            simp only [List.length_take] at length
            simp only [below, above, same, tails, decide_true, Bool.and_true, Bool.true_and]
            rw [if_pos (by simp; omega)]
        · cases found

theorem coerceFrom_take (pending : Nat) (text : Bytes) (enough : pending ≤ text.length) :
    (coerceFrom pending text).take pending = text.take pending := by
  induction text generalizing pending with
  | nil => simp_all [coerceFrom]
  | cons byte rest ih =>
    cases pending with
    | zero => simp
    | succ pending => simp [coerceFrom, ih pending (by simpa using enough)]

theorem coerceFrom_idem (pending : Nat) (text : Bytes) (enough : pending ≤ text.length) :
    coerceFrom pending (coerceFrom pending text) = coerceFrom pending text := by
  induction text generalizing pending with
  | nil => cases pending <;> rfl
  | cons byte rest ih =>
    cases pending with
    | succ pending => simp [coerceFrom, ih pending (by simpa using enough)]
    | zero =>
      simp only [coerceFrom]
      split
      next invalid =>
        have shape : runeTail 0xEF (0xBF :: 0xBD :: coerceFrom 0 rest) = some 2 := by
          simp [runeTail, lead, isTail]
        simp [replacement, coerceFrom, shape, ih 0 (Nat.zero_le _)]
      next more found =>
        have again := runeTail_congr found (coerceFrom_take more rest (runeTail_le found))
        simp [coerceFrom, again, ih more (runeTail_le found)]

/-- A second hop through JSON changes nothing. -/
@[simp] theorem coerce_coerce (text : Bytes) : coerce (coerce text) = coerce text :=
  coerceFrom_idem 0 text (Nat.zero_le _)

def IsAscii (text : Bytes) : Prop := ∀ byte ∈ text, byte < 0x80

theorem isAscii_of_all {text : Bytes} (all : (text.all fun byte => byte < 0x80) = true) : IsAscii text := by
  simpa [IsAscii] using all

theorem coerce_ascii {text : Bytes} (plain : IsAscii text) : coerce text = text := by
  induction text with
  | nil => rfl
  | cons byte rest ih =>
    have small : byte < 0x80 := plain byte (by simp)
    have kept := ih (fun other member => plain other (by simp [member]))
    simp only [coerce] at kept
    simp [coerce, coerceFrom, runeTail, small, kept]

theorem coerce_ne_nil {text : Bytes} (nonempty : text ≠ []) : coerce text ≠ [] := by
  cases text with
  | nil => exact absurd rfl nonempty
  | cons byte rest =>
    simp only [coerce, coerceFrom]
    split <;> simp [replacement]

end Bytes

end Library
