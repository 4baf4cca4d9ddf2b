import Mathlib.Data.List.Basic

/-! Internet addresses as text: the reader and the printer of a `netip` address.
Addresses are read strictly (no leading zeros, one `::` standing for at least
one group) and printed in their shortest form. -/

namespace Library.Netip

/-- An IPv4 address by its octets, or an IPv6 address by its 16-bit groups and zone. -/
inductive Addr
  | v4 (octets : List Nat)
  | v6 (groups : List Nat) (zone : List Char)
  deriving DecidableEq, Repr

def digit (char : Char) : Option Nat :=
  if '0' ≤ char && char ≤ '9' then some (char.toNat - 48) else none

def hex (char : Char) : Option Nat :=
  if '0' ≤ char && char ≤ '9' then some (char.toNat - 48)
  else if 'a' ≤ char && char ≤ 'f' then some (char.toNat - 87)
  else if 'A' ≤ char && char ≤ 'F' then some (char.toNat - 55)
  else none

/-- One decimal field: digits without a leading zero, at most 255. -/
def octet (field : List Char) : Option Nat :=
  match field.mapM digit with
  | none | some [] => none
  | some (first :: rest) =>
    let value := (first :: rest).foldl (fun value next => 10 * value + next) 0
    if (first == 0 && !rest.isEmpty) || rest.length > 2 || value > 255 then none else some value

def parseIPv4Fields (text : List Char) : Option (List Nat) :=
  match (text.splitOn '.').mapM octet with
  | some fields => if fields.length = 4 then some fields else none
  | none => none

/-- The groups read so far, where `::` stood among them, and the text left. -/
structure Scan where
  groups : List Nat
  ellipsis : Option Nat
  rest : List Char

/-- Hexadecimal groups separated by colons, until eight of them or the end. -/
def scanGroups : Nat → Scan → Option Scan
  | 0, scan => some scan
  | fuel + 1, scan =>
    if scan.groups.length ≥ 8 then some scan
    else
      let field := scan.rest.takeWhile fun char => (hex char).isSome
      let after := scan.rest.dropWhile fun char => (hex char).isSome
      if field.isEmpty || field.length > 4 then none
      else
        match after with
        | '.' :: _ =>
          -- The last two groups may be written as an IPv4 address.
          if (scan.ellipsis.isNone && scan.groups.length != 6) || scan.groups.length > 6 then none
          else match parseIPv4Fields scan.rest with
            | some [a, b, c, d] =>
              some { scan with groups := scan.groups ++ [256 * a + b, 256 * c + d], rest := [] }
            | _ => none
        | _ =>
          let value := (field.filterMap hex).foldl (fun value next => 16 * value + next) 0
          let groups := scan.groups ++ [value]
          match after with
          | [] => some { scan with groups, rest := [] }
          | ':' :: ':' :: more =>
            if scan.ellipsis.isSome then none
            else
              let next := { groups, ellipsis := some groups.length, rest := more }
              if more.isEmpty then some next else scanGroups fuel next
          | ':' :: more => if more.isEmpty then none else scanGroups fuel { scan with groups, rest := more }
          | _ => none

def parseIPv6 (text : List Char) : Option Addr :=
  let body := text.takeWhile (· != '%')
  let zoned := text.dropWhile (· != '%')
  let zone := zoned.drop 1
  if !zoned.isEmpty && zone.isEmpty then none
  else
    let start : Scan := match body with
      | ':' :: ':' :: more => ⟨[], some 0, more⟩
      | _ => ⟨[], none, body⟩
    if start.ellipsis.isSome && start.rest.isEmpty then some (.v6 (List.replicate 8 0) zone)
    else match scanGroups 9 start with
      | none => none
      | some scan =>
        if !scan.rest.isEmpty then none
        else match scan.ellipsis with
          | none => if scan.groups.length = 8 then some (.v6 scan.groups zone) else none
          | some place =>
            if scan.groups.length < 8 then
              some (.v6 (scan.groups.take place ++ List.replicate (8 - scan.groups.length) 0 ++
                scan.groups.drop place) zone)
            else none

/-- The first `.`, `:` or `%` decides which form the text is in. -/
def parseAddr (text : String) : Option Addr :=
  match text.toList.find? fun char => char == '.' || char == ':' || char == '%' with
  | some '.' => (parseIPv4Fields text.toList).map .v4
  | some ':' => parseIPv6 text.toList
  | _ => none

def zone : Addr → List Char
  | .v4 _ => []
  | .v6 _ zone => zone

def unmap : Addr → Addr
  | .v6 [0, 0, 0, 0, 0, mark, high, low] zone =>
    if mark = 0xFFFF then .v4 [high / 256, high % 256, low / 256, low % 256]
    else .v6 [0, 0, 0, 0, 0, mark, high, low] zone
  | addr => addr

def isUnspecified (addr : Addr) : Bool :=
  addr == .v4 [0, 0, 0, 0] || addr == .v6 (List.replicate 8 0) []

def isMulticast : Addr → Bool
  | .v4 octets => octets.head?.map (· / 16) == some 14
  | .v6 groups _ => groups.head?.map (· / 256) == some 255

def isLoopback : Addr → Bool
  | .v4 octets => octets.head? == some 127
  | .v6 groups _ => groups == [0, 0, 0, 0, 0, 0, 0, 1]

def hexText (value : Nat) : String := String.ofList (Nat.toDigits 16 value)

/-- The first longest run of at least two zero groups: its start and its end. -/
def zeroRun (groups : List Nat) : Option (Nat × Nat) :=
  (List.range 8).foldl (fun best start =>
    let length := ((groups.drop start).takeWhile (· == 0)).length
    let longest := match best with | some (from_, to_) => to_ - from_ | none => 1
    if length > longest then some (start, start + length) else best) none

def addrText : Addr → String
  | .v4 octets => String.intercalate "." (octets.map toString)
  | .v6 groups _ =>
    match zeroRun groups with
    | none => String.intercalate ":" (groups.map hexText)
    | some (start, finish) =>
      String.intercalate ":" ((groups.take start).map hexText) ++ "::" ++
        String.intercalate ":" ((groups.drop finish).map hexText)

def isHexDigit (char : Char) : Bool := char.isDigit || ('a' ≤ char && char ≤ 'f')

/-- What holds of each hexadecimal digit holds of the digits of a number. -/
theorem forall_toDigits {shape : Char → Prop} (digit : ∀ value < 16, shape value.digitChar) {value : Nat} {char : Char}
    (member : char ∈ Nat.toDigits 16 value) : shape char := by
  induction value using Nat.strongRecOn with
  | ind value ih =>
    by_cases small : value < 16
    · rw [Nat.toDigits_of_lt_base small] at member
      obtain rfl := List.mem_singleton.mp member
      exact digit value small
    · rw [Nat.toDigits_of_base_le (by decide) (by omega)] at member
      rcases List.mem_append.mp member with earlier | last
      · exact ih _ (by omega) earlier
      · obtain rfl := List.mem_singleton.mp last
        exact digit _ (Nat.mod_lt _ (by decide))

theorem isHexDigit_of_mem_toDigits {value : Nat} {char : Char} (member : char ∈ Nat.toDigits 16 value) :
    isHexDigit char = true :=
  @forall_toDigits (isHexDigit · = true) (by decide) value char member

theorem mem_intercalate {separator : String} {char : Char} {texts : List String}
    (member : char ∈ (String.intercalate separator texts).toList) :
    char ∈ separator.toList ∨ ∃ text ∈ texts, char ∈ text.toList := by
  simp only [String.toList_intercalate] at member
  induction texts with
  | nil => simp at member
  | cons first rest ih =>
    cases rest with
    | nil => exact Or.inr ⟨first, List.mem_cons_self, by simpa using member⟩
    | cons second rest =>
      simp only [List.map_cons, List.intercalate_cons_cons, List.mem_append] at member ih
      rcases member with (here | same) | later
      · exact Or.inr ⟨first, List.mem_cons_self, here⟩
      · exact Or.inl same
      · exact (ih later).imp id fun ⟨text, listed, there⟩ => ⟨text, List.mem_cons_of_mem _ listed, there⟩

theorem addrText_v4 {octets : List Nat} {char : Char} (member : char ∈ (addrText (.v4 octets)).toList) :
    char = '.' ∨ char.isDigit = true := by
  have member : char ∈ (String.intercalate (String.singleton '.') (octets.map toString)).toList := member
  refine (mem_intercalate member).imp (by simp) ?_
  rintro ⟨_, listed, there⟩
  obtain ⟨octet, -, rfl⟩ := List.mem_map.mp listed
  have decimal : char ∈ Nat.toDigits 10 octet := by simpa using there
  exact Nat.isDigit_of_mem_toDigits (by decide) (by decide) decimal

/-- The printed groups of an IPv6 address hold no dot. -/
theorem addrText_v6 {groups : List Nat} {zone : List Char} {char : Char}
    (member : char ∈ (addrText (.v6 groups zone)).toList) : isHexDigit char = true ∨ char = ':' := by
  have printed : ∀ {groups : List Nat}, char ∈ (String.intercalate ":" (groups.map hexText)).toList →
      isHexDigit char = true ∨ char = ':' := by
    intro groups member
    rcases mem_intercalate member with same | ⟨_, listed, there⟩
    · exact Or.inr (by simpa using same)
    · obtain ⟨group, -, rfl⟩ := List.mem_map.mp listed
      exact Or.inl (isHexDigit_of_mem_toDigits (by simpa [hexText] using there))
  simp only [addrText] at member
  split at member
  · exact printed member
  · simp only [String.toList_append, List.mem_append] at member
    rcases member with (left | colons) | right
    · exact printed left
    · exact Or.inr (by simpa using colons)
    · exact printed right

/-- Addresses are printed with hexadecimal digits, dots and colons. -/
theorem addrText_plain {addr : Addr} {char : Char} (member : char ∈ (addrText addr).toList) :
    isHexDigit char = true ∨ char = '.' ∨ char = ':' := by
  cases addr with
  | v4 octets =>
    rcases addrText_v4 member with dot | digit
    · exact Or.inr (Or.inl dot)
    · exact Or.inl (by simp [isHexDigit, digit])
  | v6 parts zone => exact (addrText_v6 member).imp id Or.inr

end Library.Netip
