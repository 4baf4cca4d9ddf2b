import SshLogger.Library.Netip
import Mathlib.Data.List.TakeWhile
import Mathlib.Tactic.Ring

/-! Reading an address back from its text: what the printer writes for an address
is read as that address, so that texts in printed form stand for one address each. -/

namespace Library.Netip

/-- Four octets, or eight groups of sixteen bits. -/
def WellFormed : Addr → Prop
  | .v4 octets => octets.length = 4 ∧ ∀ octet ∈ octets, octet < 256
  | .v6 groups _ => groups.length = 8 ∧ ∀ group ∈ groups, group < 65536

theorem octet_toDigits {value : Nat} (small : value < 256) : octet (Nat.toDigits 10 value) = some value :=
  (by decide +kernel : ∀ value < 256, octet (Nat.toDigits 10 value) = some value) value small

theorem hex_digitChar {value : Nat} (small : value < 16) : hex value.digitChar = some value :=
  (by decide : ∀ value < 16, hex value.digitChar = some value) value small

theorem hex_toDigits (value : Nat) :
    ((Nat.toDigits 16 value).filterMap hex).foldl (fun value next => 16 * value + next) 0 = value := by
  induction value using Nat.strongRecOn with
  | ind value ih =>
    by_cases small : value < 16
    · simp [Nat.toDigits_of_lt_base small, hex_digitChar small]
    · rw [Nat.toDigits_of_base_le (by decide) (by omega), List.filterMap_append, List.foldl_append, ih _ (by omega)]
      simp only [List.filterMap_cons, hex_digitChar (Nat.mod_lt value (by decide : 0 < 16)), List.filterMap_nil,
        List.foldl_cons, List.foldl_nil]
      omega

theorem hex_of_mem_toDigits {value : Nat} {char : Char} (member : char ∈ Nat.toDigits 16 value) :
    (hex char).isSome = true := by
  refine @forall_toDigits (fun char => (hex char).isSome = true) (fun digit small => ?_) value char member
  rw [hex_digitChar small]
  rfl

theorem toDigits_short {value : Nat} (small : value < 65536) : (Nat.toDigits 16 value).length ≤ 4 :=
  (Nat.length_toDigits_le_iff (by decide) (by decide)).mpr small

theorem colon_not_hex : hex ':' = none := by decide

theorem ne_colon_of_hex {char : Char} (digit : (hex char).isSome = true) : char ≠ ':' := by
  rintro rfl
  rw [colon_not_hex] at digit
  cases digit

theorem addrText_octets (octets : List Nat) :
    (addrText (.v4 octets)).toList = ['.'].intercalate (octets.map (Nat.toDigits 10)) := by
  simp only [addrText, String.toList_intercalate, List.map_map]
  refine congrArg _ (List.map_congr_left fun octet _ => ?_)
  simp

theorem parseIPv4Fields_text {octets : List Nat} (four : octets.length = 4) (small : ∀ octet ∈ octets, octet < 256) :
    parseIPv4Fields (addrText (.v4 octets)).toList = some octets := by
  have plain : ∀ field ∈ octets.map (Nat.toDigits 10), '.' ∉ field := by
    intro field listed dot
    obtain ⟨octet, -, rfl⟩ := List.mem_map.mp listed
    have digit := Nat.isDigit_of_mem_toDigits (by decide) (by decide) dot
    exact absurd digit (by decide)
  have some_field : octets.map (Nat.toDigits 10) ≠ [] := by
    intro none_left
    rw [List.map_eq_nil_iff.mp none_left] at four
    cases four
  have fields : (octets.map (Nat.toDigits 10)).mapM octet = some octets := by
    clear plain some_field four
    induction octets with
    | nil => rfl
    | cons first rest ih =>
      have others := ih fun octet member => small octet (List.mem_cons_of_mem _ member)
      simp [octet_toDigits (small first List.mem_cons_self), others]
  rw [addrText_octets, parseIPv4Fields, List.splitOn_intercalate '.' plain some_field, fields]
  simp [four]

def groupsText (groups : List Nat) : List Char := [':'].intercalate (groups.map (Nat.toDigits 16))

theorem groupsText_cons (group : Nat) (rest : List Nat) (some_left : rest ≠ []) :
    groupsText (group :: rest) = Nat.toDigits 16 group ++ ':' :: groupsText rest := by
  obtain ⟨second, more, rfl⟩ := List.exists_cons_of_ne_nil some_left
  simp [groupsText, List.intercalate_cons_cons]

theorem groupsText_single (group : Nat) : groupsText [group] = Nat.toDigits 16 group := by simp [groupsText]

/-- A text of groups begins with a digit. -/
theorem groupsText_head {groups : List Nat} (some_left : groups ≠ []) :
    ∃ first more, groupsText groups = first :: more ∧ (hex first).isSome = true := by
  obtain ⟨group, rest, rfl⟩ := List.exists_cons_of_ne_nil some_left
  obtain ⟨first, more, digits⟩ := List.exists_cons_of_ne_nil (@Nat.toDigits_ne_nil group 16)
  have digit := @hex_of_mem_toDigits group first (by simp [digits])
  cases rest with
  | nil => exact ⟨first, more, by rw [groupsText_single, digits], digit⟩
  | cons second rest =>
    refine ⟨first, more ++ ':' :: groupsText (second :: rest), ?_, digit⟩
    rw [groupsText_cons _ _ (by simp), digits, List.cons_append]

/-- The scanner's field is a group up to a colon or the end. -/
theorem field_text {group : Nat} {after : List Char} (stops : ∀ first more, after = first :: more → first = ':') :
    (Nat.toDigits 16 group ++ after).takeWhile (fun char => (hex char).isSome) = Nat.toDigits 16 group ∧
      (Nat.toDigits 16 group ++ after).dropWhile (fun char => (hex char).isSome) = after := by
  have all : ∀ char ∈ Nat.toDigits 16 group, (hex char).isSome = true := fun char member => hex_of_mem_toDigits member
  have stop : after.takeWhile (fun char => (hex char).isSome) = [] ∧ after.dropWhile (fun char => (hex char).isSome) = after := by
    cases after with
    | nil => exact ⟨rfl, rfl⟩
    | cons first more =>
      obtain rfl := stops first more rfl
      simp [colon_not_hex]
  rw [List.takeWhile_append_of_pos all, stop.1, List.append_nil, List.dropWhile_append_of_pos all, stop.2]
  exact ⟨rfl, rfl⟩

theorem field_fits {group : Nat} (small : group < 65536) :
    ((Nat.toDigits 16 group).isEmpty || decide ((Nat.toDigits 16 group).length > 4)) = false := by
  simp [List.isEmpty_eq_false_iff, Nat.toDigits_ne_nil, toDigits_short small]

variable {group fuel : Nat} {groups : List Nat} {ellipsis : Option Nat} {more : List Char}

theorem scan_end (small : group < 65536) (room : groups.length < 8) :
    scanGroups (fuel + 1) ⟨groups, ellipsis, Nat.toDigits 16 group⟩ = some ⟨groups ++ [group], ellipsis, []⟩ := by
  obtain ⟨field, rest⟩ := @field_text group [] nofun
  rw [List.append_nil] at field rest
  rw [scanGroups, if_neg (Nat.not_le.mpr room)]
  simp only [field, rest, hex_toDigits, field_fits small, if_false, Bool.false_eq_true]

theorem scan_colon {first : Char} (small : group < 65536) (room : groups.length < 8) (other : first ≠ ':') :
    scanGroups (fuel + 1) ⟨groups, ellipsis, Nat.toDigits 16 group ++ ':' :: first :: more⟩ =
      scanGroups fuel ⟨groups ++ [group], ellipsis, first :: more⟩ := by
  obtain ⟨field, rest⟩ := @field_text group (':' :: first :: more) (by rintro _ _ ⟨⟩; rfl)
  rw [scanGroups, if_neg (Nat.not_le.mpr room)]
  simp [field, rest, hex_toDigits, field_fits small, other]

theorem scan_ellipsis (small : group < 65536) (room : groups.length < 8) :
    scanGroups (fuel + 1) ⟨groups, none, Nat.toDigits 16 group ++ ':' :: ':' :: more⟩ =
      if more.isEmpty then some ⟨groups ++ [group], some (groups.length + 1), more⟩
      else scanGroups fuel ⟨groups ++ [group], some (groups.length + 1), more⟩ := by
  obtain ⟨field, rest⟩ := @field_text group (':' :: ':' :: more) (by rintro _ _ ⟨⟩; rfl)
  rw [scanGroups, if_neg (Nat.not_le.mpr room)]
  simp only [field, rest, hex_toDigits, field_fits small, if_false, Bool.false_eq_true, Option.isSome_none,
    List.length_append, List.length_singleton]
  rfl

/-- Groups that stand at the end of the text. -/
theorem scan_last {rest : List Nat} (some_left : rest ≠ []) (small : ∀ group ∈ rest, group < 65536) {groups : List Nat}
    {ellipsis : Option Nat} {fuel : Nat} (room : groups.length + rest.length ≤ 8) (enough : rest.length ≤ fuel) :
    scanGroups fuel ⟨groups, ellipsis, groupsText rest⟩ = some ⟨groups ++ rest, ellipsis, []⟩ := by
  induction rest generalizing groups fuel with
  | nil => exact absurd rfl some_left
  | cons group rest ih =>
    obtain ⟨fuel, rfl⟩ := Nat.exists_eq_add_of_le' (Nat.le_trans (Nat.succ_pos rest.length) enough)
    simp only [List.length_cons] at room enough
    have here := small group List.mem_cons_self
    cases rest with
    | nil =>
      rw [groupsText_single, scan_end here (by omega)]
    | cons second rest =>
      obtain ⟨first, more, starts, digit⟩ := @groupsText_head (second :: rest) (by simp)
      have later := @ih (by simp) (fun other member => small other (List.mem_cons_of_mem _ member)) (groups ++ [group]) fuel
        (by simp only [List.length_append, List.length_cons, List.length_nil] at room ⊢; omega) (by simpa using enough)
      have other := ne_colon_of_hex digit
      rw [starts] at later
      rw [groupsText_cons _ _ (by simp), starts, scan_colon here (by omega) other, later]
      simp

/-- Groups before an ellipsis. -/
theorem scan_front {front : List Nat} (some_left : front ≠ []) (small : ∀ group ∈ front, group < 65536) {groups : List Nat}
    {fuel : Nat} {more : List Char} (room : groups.length + front.length ≤ 8) (enough : front.length ≤ fuel) :
    scanGroups fuel ⟨groups, none, groupsText front ++ ':' :: ':' :: more⟩ =
      if more.isEmpty then some ⟨groups ++ front, some (groups.length + front.length), more⟩
      else scanGroups (fuel - front.length) ⟨groups ++ front, some (groups.length + front.length), more⟩ := by
  induction front generalizing groups fuel with
  | nil => exact absurd rfl some_left
  | cons group rest ih =>
    obtain ⟨fuel, rfl⟩ := Nat.exists_eq_add_of_le' (Nat.le_trans (Nat.succ_pos rest.length) enough)
    simp only [List.length_cons] at room enough
    have here := small group List.mem_cons_self
    cases rest with
    | nil =>
      rw [groupsText_single, scan_ellipsis here (by omega)]
      rfl
    | cons second rest =>
      obtain ⟨first, others, starts, digit⟩ := @groupsText_head (second :: rest) (by simp)
      have later := @ih (by simp) (fun other member => small other (List.mem_cons_of_mem _ member)) (groups ++ [group]) fuel
        (by simp only [List.length_append, List.length_cons, List.length_nil] at room ⊢; omega) (by simpa using enough)
      have other := ne_colon_of_hex digit
      have count : (groups ++ [group]).length + (second :: rest).length = groups.length + (group :: second :: rest).length := by
        simp only [List.length_append, List.length_cons, List.length_nil]
        omega
      have left : fuel - (second :: rest).length = fuel + 1 - (group :: second :: rest).length := by
        simp only [List.length_cons]
        omega
      rw [count, left, List.append_assoc, List.singleton_append] at later
      rw [starts, List.cons_append] at later
      rw [groupsText_cons _ _ (by simp), starts, List.append_assoc, List.cons_append, List.cons_append,
        scan_colon here (by omega) other]
      exact later

/-- A scan each of whose steps finds something good, given that the best find so far is. -/
theorem foldl_finds {α β : Type*} {step : Option α → β → Option α} (good : α → Prop)
    (finds : ∀ best next found, (∀ kept, best = some kept → good kept) → step best next = some found → good found)
    (scanned : List β) {best : Option α} (kept : ∀ found, best = some found → good found) {found : α}
    (last : scanned.foldl step best = some found) : good found := by
  induction scanned generalizing best with
  | nil => exact kept found last
  | cons next rest ih => exact ih (fun found same => finds best next found kept same) last

/-- The run that is left out consists of zeros, at least two of them. -/
theorem zeroRun_zeros {groups : List Nat} {start finish : Nat} (eight : groups.length = 8)
    (found : zeroRun groups = some (start, finish)) :
    start + 2 ≤ finish ∧ finish ≤ 8 ∧ groups = groups.take start ++ List.replicate (finish - start) 0 ++ groups.drop finish := by
  obtain ⟨length, long⟩ : finish = start + ((groups.drop start).takeWhile (· == 0)).length ∧ start + 2 ≤ finish := by
    refine foldl_finds (fun run => run.2 = run.1 + ((groups.drop run.1).takeWhile (· == 0)).length ∧ run.1 + 2 ≤ run.2)
      ?_ (List.range 8) (fun _ empty => by cases empty) found
    intro best next found holds same
    cases best with
    | none =>
      simp only at same
      split at same
      next longer =>
        cases same
        exact ⟨rfl, by omega⟩
      · cases same
    | some run =>
      have least := (holds run rfl).2
      simp only at same
      split at same
      next longer =>
        cases same
        exact ⟨rfl, by omega⟩
      · exact holds found same
  have zeros : (groups.drop start).takeWhile (· == 0) = List.replicate (finish - start) 0 := by
    refine List.eq_replicate_iff.mpr ⟨by omega, fun group member => ?_⟩
    simpa using List.mem_takeWhile_imp member
  have bound : ((groups.drop start).takeWhile (· == 0)).length ≤ (groups.drop start).length :=
    (List.takeWhile_sublist _).length_le
  rw [List.length_drop, eight] at bound
  refine ⟨long, by omega, ?_⟩
  have rest : (groups.drop start).dropWhile (· == 0) = groups.drop finish := by
    have whole := List.takeWhile_append_dropWhile (p := (· == 0)) (l := groups.drop start)
    have dropped := congrArg (List.drop (finish - start)) whole
    rw [zeros, List.drop_left' (by simp), List.drop_drop] at dropped
    rw [dropped]
    congr 1
    omega
  calc groups
    _ = groups.take start ++ groups.drop start := (List.take_append_drop _ _).symm
    _ = groups.take start ++ ((groups.drop start).takeWhile (· == 0) ++ (groups.drop start).dropWhile (· == 0)) := by
      rw [List.takeWhile_append_dropWhile]
    _ = groups.take start ++ List.replicate (finish - start) 0 ++ groups.drop finish := by
      rw [zeros, rest, List.append_assoc]

theorem groupsText_toList (groups : List Nat) :
    (String.intercalate ":" (groups.map hexText)).toList = groupsText groups := by
  simp only [String.toList_intercalate, List.map_map, groupsText]
  refine congrArg _ (List.map_congr_left fun group _ => ?_)
  simp [hexText]

theorem addrText_whole {groups : List Nat} (zone : List Char) (none_left : zeroRun groups = none) :
    (addrText (.v6 groups zone)).toList = groupsText groups := by
  simp only [addrText, none_left]
  exact groupsText_toList groups

theorem addrText_short {groups : List Nat} {start finish : Nat} (zone : List Char) (run : zeroRun groups = some (start, finish)) :
    (addrText (.v6 groups zone)).toList = groupsText (groups.take start) ++ ':' :: ':' :: groupsText (groups.drop finish) := by
  have colons : "::".toList = [':', ':'] := by decide
  simp only [addrText, run, String.toList_append, groupsText_toList, colons]
  simp

def startOf : List Char → Scan
  | ':' :: ':' :: more => ⟨[], some 0, more⟩
  | text => ⟨[], none, text⟩

def readScan (scan : Scan) : Option Addr :=
  if !scan.rest.isEmpty then none
  else match scan.ellipsis with
    | none => if scan.groups.length = 8 then some (.v6 scan.groups []) else none
    | some place =>
      if scan.groups.length < 8 then
        some (.v6 (scan.groups.take place ++ List.replicate (8 - scan.groups.length) 0 ++ scan.groups.drop place) [])
      else none

theorem parseIPv6_plain {text : List Char} (plain : '%' ∉ text) :
    parseIPv6 text =
      if (startOf text).ellipsis.isSome && (startOf text).rest.isEmpty then some (.v6 (List.replicate 8 0) [])
      else (scanGroups 9 (startOf text)).bind readScan := by
  have all : ∀ char ∈ text, (char != '%') = true := fun char member => by
    simp only [bne_iff_ne]
    rintro rfl
    exact plain member
  have body : text.takeWhile (· != '%') = text := List.takeWhile_eq_self_iff.mpr all
  have zoned : text.dropWhile (· != '%') = [] := List.dropWhile_eq_nil_iff.mpr all
  simp only [parseIPv6, body, zoned, List.drop_nil, List.isEmpty_nil, Bool.not_true, Bool.false_and, Bool.false_eq_true,
    if_false]
  split
  · rename_i more
    refine if_congr Iff.rfl rfl ?_
    have begins : startOf (':' :: ':' :: more) = ⟨[], some 0, more⟩ := rfl
    rw [begins]
    cases scanGroups 9 ⟨[], some 0, more⟩ <;> rfl
  · rename_i other
    have whole : startOf text = ⟨[], none, text⟩ := by
      unfold startOf
      split
      · exact absurd rfl (other _)
      · rfl
    rw [whole]
    refine if_congr Iff.rfl rfl ?_
    cases scanGroups 9 ⟨[], none, text⟩ <;> rfl

theorem startOf_digit {first : Char} {more : List Char} (digit : (hex first).isSome = true) :
    startOf (first :: more) = ⟨[], none, first :: more⟩ := by
  simp [startOf, ne_colon_of_hex digit]

theorem parseIPv6_text {groups : List Nat} (eight : groups.length = 8) (small : ∀ group ∈ groups, group < 65536) :
    parseIPv6 (addrText (.v6 groups [])).toList = some (.v6 groups []) := by
  have plain : '%' ∉ (addrText (.v6 groups [])).toList := by
    intro member
    rcases addrText_plain member with digit | dot | colon
    · exact absurd digit (by decide)
    · exact absurd dot (by decide)
    · exact absurd colon (by decide)
  rw [parseIPv6_plain plain]
  cases run : zeroRun groups with
  | none =>
    have some_left : groups ≠ [] := by
      rintro rfl
      cases eight
    obtain ⟨first, more, starts, digit⟩ := groupsText_head some_left
    have scanned := @scan_last groups some_left small [] none 9 (by simp [eight]) (by omega)
    rw [starts] at scanned
    rw [addrText_whole [] run, starts, startOf_digit digit, scanned]
    simp [readScan, eight]
  | some bounds =>
    obtain ⟨start, finish⟩ := bounds
    obtain ⟨long, bound, whole⟩ := zeroRun_zeros eight run
    have front : (groups.take start).length = start := by
      rw [List.length_take]
      omega
    have back : (groups.drop finish).length = 8 - finish := by rw [List.length_drop, eight]
    have smallBack : ∀ group ∈ groups.drop finish, group < 65536 := fun group member => small group (List.mem_of_mem_drop member)
    have smallFront : ∀ group ∈ groups.take start, group < 65536 := fun group member => small group (List.mem_of_mem_take member)
    -- the groups that were scanned, with the run put back between them
    have reads : readScan ⟨groups.take start ++ groups.drop finish, some start, []⟩ = some (.v6 groups []) := by
      have count : (groups.take start ++ groups.drop finish).length = start + (8 - finish) := by
        rw [List.length_append, front, back]
      have less : start + (8 - finish) < 8 := by omega
      have gap : 8 - (start + (8 - finish)) = finish - start := by omega
      simp only [readScan, List.isEmpty_nil, Bool.not_true, Bool.false_eq_true, if_false, count, less, if_true, gap,
        List.take_left' front, List.drop_left' front]
      rw [← whole]
    rw [addrText_short [] run]
    by_cases first : start = 0
    · subst first
      have text : startOf (groupsText (groups.take 0) ++ ':' :: ':' :: groupsText (groups.drop finish)) =
          ⟨[], some 0, groupsText (groups.drop finish)⟩ := rfl
      rw [text]
      by_cases last : groups.drop finish = []
      · have zeros : groups = List.replicate 8 0 := by
          have all : finish = 8 := by
            rw [last] at back
            simp only [List.length_nil] at back
            omega
          rw [last, all] at whole
          simpa using whole
        rw [last, zeros]
        rfl
      · obtain ⟨digit, more, starts, -⟩ := groupsText_head last
        have scanned := @scan_last (groups.drop finish) last smallBack [] (some 0) 9 (by simp [back]) (by omega)
        rw [starts] at scanned ⊢
        simp only [scanned, Option.isSome_some, List.isEmpty_cons, Bool.and_false, Bool.false_eq_true, if_false]
        exact reads
    · have some_front : groups.take start ≠ [] := by
        intro none_left
        rw [none_left] at front
        exact first front.symm
      obtain ⟨head, more, starts, digit⟩ := groupsText_head some_front
      have text : startOf (groupsText (groups.take start) ++ ':' :: ':' :: groupsText (groups.drop finish)) =
          ⟨[], none, groupsText (groups.take start) ++ ':' :: ':' :: groupsText (groups.drop finish)⟩ := by
        rw [starts, List.cons_append]
        exact startOf_digit digit
      have scanned := @scan_front (groups.take start) some_front smallFront [] 9 (groupsText (groups.drop finish))
        (by rw [front]; simp; omega) (by omega)
      rw [front] at scanned
      rw [text, scanned]
      by_cases last : groups.drop finish = []
      · rw [last] at reads ⊢
        simpa [groupsText] using reads
      · obtain ⟨digit, more, starts, -⟩ := groupsText_head last
        have rest := @scan_last (groups.drop finish) last smallBack (groups.take start) (some start) (9 - start)
          (by rw [front, back]; omega) (by omega)
        simp only [starts, List.isEmpty_cons, Bool.false_eq_true, if_false, List.nil_append, List.length_nil, Nat.zero_add,
          Option.isSome_none, Bool.false_and] at rest ⊢
        rw [rest]
        exact reads

theorem hexDigit_plain {char : Char} (digit : isHexDigit char = true) : char ≠ '.' ∧ char ≠ ':' ∧ char ≠ '%' := by
  refine ⟨?_, ?_, ?_⟩ <;> rintro rfl <;> exact absurd digit (by decide)

/-- The first mark of a text whose other marks are all the same. -/
theorem find_mark {text : List Char} {mark : Char} (listed : mark ∈ text)
    (isMark : (mark == '.' || mark == ':' || mark == '%') = true)
    (only : ∀ char ∈ text, (char == '.' || char == ':' || char == '%') = true → char = mark) :
    text.find? (fun char => char == '.' || char == ':' || char == '%') = some mark := by
  cases found : text.find? (fun char => char == '.' || char == ':' || char == '%') with
  | none => exact absurd isMark (List.find?_eq_none.mp found mark listed)
  | some char =>
    have marked := List.find?_some found
    rw [only char (List.mem_of_find?_eq_some found) marked]

theorem parseAddr_v4 {octets : List Nat} (four : octets.length = 4) (small : ∀ octet ∈ octets, octet < 256) :
    parseAddr (addrText (.v4 octets)) = some (.v4 octets) := by
  have dotted : '.' ∈ (addrText (.v4 octets)).toList := by
    obtain ⟨a, b, c, d, rfl⟩ : ∃ a b c d, octets = [a, b, c, d] := List.length_eq_four.mp four
    simp [addrText]
  have found := find_mark dotted (by decide) fun char member marked => by
    rcases addrText_v4 member with dot | digit
    · exact dot
    · have plain := hexDigit_plain (show isHexDigit char = true by simp [isHexDigit, digit])
      simp [plain.1, plain.2.1, plain.2.2] at marked
  simp only [parseAddr, found, parseIPv4Fields_text four small, Option.map_some]

theorem parseAddr_v6 {groups : List Nat} (eight : groups.length = 8) (small : ∀ group ∈ groups, group < 65536) :
    parseAddr (addrText (.v6 groups [])) = some (.v6 groups []) := by
  have parted : ':' ∈ (addrText (.v6 groups [])).toList := by
    cases run : zeroRun groups with
    | none =>
      rw [addrText_whole [] run]
      obtain ⟨first, second, more, rfl⟩ : ∃ first second more, groups = first :: second :: more := by
        match groups, eight with
        | first :: second :: more, _ => exact ⟨first, second, more, rfl⟩
      simp [groupsText, List.intercalate_cons_cons]
    | some bounds =>
      rw [addrText_short [] run]
      simp
  have found := find_mark parted (by decide) fun char member marked => by
    rcases addrText_v6 member with digit | colon
    · have plain := hexDigit_plain digit
      simp [plain.1, plain.2.1, plain.2.2] at marked
    · exact colon
  simp only [parseAddr, found, parseIPv6_text eight small]

/-- What is printed for an address without a zone is read as that address. -/
theorem parseAddr_addrText {addr : Addr} (wellFormed : WellFormed addr) (plain : zone addr = []) :
    parseAddr (addrText addr) = some addr := by
  cases addr with
  | v4 octets => exact parseAddr_v4 wellFormed.1 wellFormed.2
  | v6 groups named =>
    obtain rfl : named = [] := plain
    exact parseAddr_v6 wellFormed.1 wellFormed.2

theorem mem_of_mapM {α β : Type} {read : α → Option β} {items : List α} {results : List β}
    (mapped : items.mapM read = some results) {result : β} (member : result ∈ results) :
    ∃ item ∈ items, read item = some result := by
  induction items generalizing results with
  | nil =>
    cases mapped
    cases member
  | cons first rest ih =>
    simp only [List.mapM_cons, Option.pure_def, Option.bind_eq_bind, Option.bind_eq_some_iff, Option.some.injEq] at mapped
    obtain ⟨head, here, tail, there, rfl⟩ := mapped
    rcases List.mem_cons.mp member with rfl | later
    · exact ⟨first, List.mem_cons_self, here⟩
    · obtain ⟨item, listed, same⟩ := ih there later
      exact ⟨item, List.mem_cons_of_mem _ listed, same⟩

theorem octet_small {field : List Char} {value : Nat} (read : octet field = some value) : value < 256 := by
  unfold octet at read
  split at read
  · cases read
  · cases read
  · simp only [Option.ite_none_left_eq_some, Bool.or_eq_true, not_or, decide_eq_true_eq, Option.some.injEq] at read
    omega

theorem parseIPv4Fields_small {text : List Char} {octets : List Nat} (read : parseIPv4Fields text = some octets) :
    octets.length = 4 ∧ ∀ octet ∈ octets, octet < 256 := by
  unfold parseIPv4Fields at read
  split at read
  next fields found =>
    split at read
    next four =>
      cases read
      refine ⟨four, fun value member => ?_⟩
      obtain ⟨field, -, same⟩ := mem_of_mapM found member
      exact octet_small same
    · cases read
  · cases read

theorem hex_small {char : Char} {value : Nat} (read : hex char = some value) : value < 16 := by
  have below : ∀ {low high : Char}, (decide (low ≤ char) && decide (char ≤ high)) = true → char.toNat ≤ high.toNat := by
    intro low high inside
    simp only [Bool.and_eq_true, decide_eq_true_eq, Char.le_def, UInt32.le_iff_toNat_le] at inside
    exact inside.2
  unfold hex at read
  split at read
  next inside =>
    have digit : char.toNat ≤ 57 := below inside
    cases read
    omega
  split at read
  next inside =>
    have small : char.toNat ≤ 102 := below inside
    cases read
    omega
  split at read
  next inside =>
    have capital : char.toNat ≤ 70 := below inside
    cases read
    omega
  · cases read

theorem foldl_hex_lt {digits : List Nat} (small : ∀ digit ∈ digits, digit < 16) (value : Nat) :
    digits.foldl (fun value next => 16 * value + next) value < (value + 1) * 16 ^ digits.length := by
  induction digits generalizing value with
  | nil => simp
  | cons first rest ih =>
    have head := small first List.mem_cons_self
    have later := ih (fun digit member => small digit (List.mem_cons_of_mem _ member)) (16 * value + first)
    rw [List.foldl_cons, List.length_cons, Nat.pow_succ]
    calc _ < (16 * value + first + 1) * 16 ^ rest.length := later
      _ ≤ ((value + 1) * 16) * 16 ^ rest.length := Nat.mul_le_mul_right _ (by omega)
      _ = (value + 1) * (16 ^ rest.length * 16) := by ring

/-- At most four hexadecimal digits make a group. -/
theorem field_small {field : List Char} (short : field.length ≤ 4) :
    (field.filterMap hex).foldl (fun value next => 16 * value + next) 0 < 65536 := by
  have small : ∀ digit ∈ field.filterMap hex, digit < 16 := by
    intro digit member
    obtain ⟨char, -, read⟩ := List.mem_filterMap.mp member
    exact hex_small read
  have length : (field.filterMap hex).length ≤ 4 := (List.length_filterMap_le _ _).trans short
  calc _ < (0 + 1) * 16 ^ (field.filterMap hex).length := foldl_hex_lt small 0
    _ ≤ (0 + 1) * 16 ^ 4 := Nat.mul_le_mul_left _ (Nat.pow_le_pow_right (by decide) length)
    _ = 65536 := by decide

theorem scanGroups_small {fuel : Nat} {scan result : Scan} (before : ∀ group ∈ scan.groups, group < 65536)
    (scanned : scanGroups fuel scan = some result) : ∀ group ∈ result.groups, group < 65536 := by
  have extended : ∀ {groups added : List Nat}, (∀ group ∈ groups, group < 65536) → (∀ group ∈ added, group < 65536) →
      ∀ group ∈ groups ++ added, group < 65536 := fun before after group member =>
    (List.mem_append.mp member).elim (before group) (after group)
  induction fuel generalizing scan with
  | zero =>
    cases scanned
    exact before
  | succ fuel ih =>
    unfold scanGroups at scanned
    split at scanned
    · cases scanned
      exact before
    simp only [Option.ite_none_left_eq_some, Bool.or_eq_true, not_or, decide_eq_true_eq] at scanned
    obtain ⟨⟨-, short⟩, scanned⟩ := scanned
    have value := field_small (Nat.le_of_not_gt short)
    split at scanned
    · simp only [Option.ite_none_left_eq_some] at scanned
      obtain ⟨-, scanned⟩ := scanned
      split at scanned
      next a b c d read =>
        have small := (parseIPv4Fields_small read).2
        simp only [List.mem_cons, List.not_mem_nil, or_false, forall_eq_or_imp, forall_eq] at small
        cases scanned
        refine extended before ?_
        simp only [List.mem_cons, List.not_mem_nil, or_false, forall_eq_or_imp, forall_eq]
        omega
      · cases scanned
    · have added := extended before (List.forall_mem_singleton.mpr value)
      split at scanned
      · cases scanned
        exact added
      · simp only [Option.ite_none_left_eq_some] at scanned
        obtain ⟨-, scanned⟩ := scanned
        split at scanned
        · cases scanned
          exact added
        · exact ih added scanned
      · simp only [Option.ite_none_left_eq_some] at scanned
        exact ih added scanned.2
      · cases scanned

theorem parseIPv6_wellFormed {text : List Char} {addr : Addr} (read : parseIPv6 text = some addr) : WellFormed addr := by
  unfold parseIPv6 at read
  simp only [Option.ite_none_left_eq_some] at read
  obtain ⟨-, read⟩ := read
  -- with a leading `::` or without, the scan starts with no group
  split at read
  all_goals
    split at read
    · cases read
      exact ⟨List.length_replicate, fun group member => by rw [List.eq_of_mem_replicate member]; decide⟩
    split at read
    · cases read
    next scan scanned =>
      have small : ∀ group ∈ scan.groups, group < 65536 :=
        scanGroups_small (fun group member => absurd member List.not_mem_nil) scanned
      simp only [Option.ite_none_left_eq_some] at read
      obtain ⟨-, read⟩ := read
      split at read
      · split at read
        next eight =>
          cases read
          exact ⟨eight, small⟩
        · cases read
      next place _ =>
        split at read
        next short =>
          cases read
          refine ⟨?_, fun group member => ?_⟩
          · simp only [List.length_append, List.length_take, List.length_replicate, List.length_drop]
            omega
          · rcases List.mem_append.mp member with earlier | back
            · rcases List.mem_append.mp earlier with front | zero
              · exact small group (List.mem_of_mem_take front)
              · rw [List.eq_of_mem_replicate zero]
                decide
            · exact small group (List.mem_of_mem_drop back)
        · cases read

theorem parseAddr_wellFormed {text : String} {addr : Addr} (read : parseAddr text = some addr) : WellFormed addr := by
  unfold parseAddr at read
  split at read
  · obtain ⟨octets, fields, rfl⟩ := Option.map_eq_some_iff.mp read
    exact parseIPv4Fields_small fields
  · exact parseIPv6_wellFormed read
  · cases read

theorem unmap_wellFormed {addr : Addr} (wellFormed : WellFormed addr) : WellFormed (unmap addr) := by
  unfold unmap
  split
  next mark high low named =>
    split
    · simp only [WellFormed, List.mem_cons, List.not_mem_nil, or_false, forall_eq_or_imp, forall_eq] at wellFormed ⊢
      exact ⟨rfl, by omega, by omega, by omega, by omega⟩
    · exact wellFormed
  · exact wellFormed

theorem unmap_cases (addr : Addr) : unmap addr = addr ∨ ∃ octets, unmap addr = .v4 octets := by
  unfold unmap
  split
  · split
    · exact Or.inr ⟨_, rfl⟩
    · exact Or.inl rfl
  · exact Or.inl rfl

theorem unmap_unmap (addr : Addr) : unmap (unmap addr) = unmap addr := by
  rcases unmap_cases addr with same | ⟨octets, mapped⟩
  · rw [same, same]
  · rw [mapped]
    rfl

theorem zone_unmap {addr : Addr} (plain : zone addr = []) : zone (unmap addr) = [] := by
  rcases unmap_cases addr with same | ⟨octets, mapped⟩
  · rw [same, plain]
  · rw [mapped]
    rfl

theorem intercalate_length {separator : Char} {parts : List (List Char)} {width : Nat}
    (each : ∀ part ∈ parts, part.length ≤ width) :
    ([separator].intercalate parts).length ≤ parts.length * (width + 1) - 1 := by
  induction parts with
  | nil => simp
  | cons first rest ih =>
    have here := each first List.mem_cons_self
    cases rest with
    | nil =>
      simp only [List.intercalate_singleton, List.length_cons, List.length_nil]
      omega
    | cons second rest =>
      have later := ih fun part member => each part (List.mem_cons_of_mem _ member)
      simp only [List.intercalate_cons_cons, List.length_append, List.length_cons, List.length_nil, Nat.add_mul] at later ⊢
      omega

theorem groupsText_length {groups : List Nat} (small : ∀ group ∈ groups, group < 65536) :
    (groupsText groups).length ≤ groups.length * 5 - 1 := by
  have each : ∀ part ∈ groups.map (Nat.toDigits 16), part.length ≤ 4 := by
    intro part member
    obtain ⟨group, listed, rfl⟩ := List.mem_map.mp member
    exact toDigits_short (small group listed)
  have total := @intercalate_length ':' _ 4 each
  rwa [List.length_map] at total

/-- An address takes at most 39 characters: eight groups of four digits. -/
theorem addrText_length {addr : Addr} (wellFormed : WellFormed addr) : (addrText addr).length ≤ 39 := by
  rw [← String.length_toList]
  match addr, wellFormed with
  | .v4 octets, ⟨four, small⟩ =>
    have each : ∀ part ∈ octets.map (Nat.toDigits 10), part.length ≤ 3 := by
      intro part member
      obtain ⟨octet, listed, rfl⟩ := List.mem_map.mp member
      have below := small octet listed
      exact (Nat.length_toDigits_le_iff (by decide) (by decide)).mpr (by omega)
    have total := @intercalate_length '.' _ 3 each
    rw [List.length_map, four] at total
    rw [addrText_octets]
    omega
  | .v6 groups zone, ⟨eight, small⟩ =>
    cases run : zeroRun groups with
    | none =>
      have total := groupsText_length small
      rw [addrText_whole zone run]
      omega
    | some found =>
      obtain ⟨start, finish⟩ := found
      obtain ⟨long, inside, -⟩ := zeroRun_zeros eight run
      have left : (groupsText (groups.take start)).length ≤ (groups.take start).length * 5 - 1 :=
        groupsText_length fun group member => small group (List.mem_of_mem_take member)
      have right : (groupsText (groups.drop finish)).length ≤ (groups.drop finish).length * 5 - 1 :=
        groupsText_length fun group member => small group (List.mem_of_mem_drop member)
      rw [addrText_short zone run]
      simp only [List.length_append, List.length_cons, List.length_take, List.length_drop] at left right ⊢
      omega

end Library.Netip
