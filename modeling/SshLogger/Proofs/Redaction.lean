import SshLogger.Library.Search
import SshLogger.Parser
import SshLogger.Proofs.Serving

/-! What redaction hides. An argument is judged on its own, but for the value of
a bare flag, which is the next argument: a run of such flags is read in pairs. -/

namespace SshLogger
open Library Library.Bytes

def separators : Bytes := utf8 "=: \t\n"

/-- A sensitive argument whose value is the next one. -/
def isBare (arg : Bytes) : Bool := isSensitive arg && !containsAny arg separators

def redactArg (arg : Bytes) : Bytes :=
  if isSensitive arg then
    match indexByte (ascii '=') arg with
    | some p => arg.take (p + 1) ++ mark
    | none =>
      match indexByte (ascii ':') arg with
      | some p => arg.take (p + 1) ++ ascii ' ' :: mark
      | none => if containsAny arg (utf8 " \t\n") then mark else arg
  else arg

theorem containsAny_separators (arg : Bytes) : containsAny arg separators = true ↔
    ascii '=' ∈ arg ∨ ascii ':' ∈ arg ∨ containsAny arg (utf8 " \t\n") = true := by
  have all : separators = ascii '=' :: ascii ':' :: utf8 " \t\n" := rfl
  simp only [containsAny, all, List.any_eq_true, List.contains_eq_mem, List.mem_cons, decide_eq_true_eq]
  constructor
  · rintro ⟨byte, member, rfl | rfl | space⟩
    · exact Or.inl member
    · exact Or.inr (Or.inl member)
    · exact Or.inr (Or.inr ⟨byte, member, space⟩)
  · rintro (member | member | ⟨byte, member, space⟩)
    · exact ⟨_, member, Or.inl rfl⟩
    · exact ⟨_, member, Or.inr (Or.inl rfl)⟩
    · exact ⟨byte, member, Or.inr (Or.inr space)⟩

theorem redactArg_plain {arg : Bytes} (plain : isSensitive arg = false) : redactArg arg = arg := by
  simp [redactArg, plain]

theorem take_through (before : Bytes) (byte : UInt8) (after : Bytes) :
    (before ++ byte :: after).take (before.length + 1) = before ++ [byte] := by
  simp [List.take_append]

theorem redactArg_assigned {before after : Bytes} (first : ascii '=' ∉ before)
    (sensitive : isSensitive (before ++ ascii '=' :: after) = true) :
    redactArg (before ++ ascii '=' :: after) = before ++ ascii '=' :: mark := by
  simp [redactArg, sensitive, indexByte_first first, take_through]

theorem redactArg_named {before after : Bytes} (unassigned : ascii '=' ∉ before ++ ascii ':' :: after)
    (first : ascii ':' ∉ before) (sensitive : isSensitive (before ++ ascii ':' :: after) = true) :
    redactArg (before ++ ascii ':' :: after) = before ++ ascii ':' :: ascii ' ' :: mark := by
  simp [redactArg, sensitive, indexByte_eq_none.mpr unassigned, indexByte_first first, take_through]

theorem redactArg_spaced {arg : Bytes} (unassigned : ascii '=' ∉ arg) (unnamed : ascii ':' ∉ arg)
    (spaced : containsAny arg (utf8 " \t\n") = true) (sensitive : isSensitive arg = true) : redactArg arg = mark := by
  simp [redactArg, sensitive, indexByte_eq_none.mpr unassigned, indexByte_eq_none.mpr unnamed, spaced]

theorem redactArg_bare {arg : Bytes} (bare : isBare arg = true) : redactArg arg = arg := by
  simp only [isBare, Bool.and_eq_true, Bool.not_eq_true', ← Bool.not_eq_true, containsAny_separators, not_or] at bare
  obtain ⟨sensitive, unassigned, unnamed, unspaced⟩ := bare
  simp [redactArg, sensitive, indexByte_eq_none.mpr unassigned, indexByte_eq_none.mpr unnamed, unspaced]

/-- The ways an argument is redacted. -/
theorem redactArg_cases (arg : Bytes) :
    (isSensitive arg = false ∧ redactArg arg = arg) ∨ (isBare arg = true ∧ redactArg arg = arg) ∨
    (isSensitive arg = true ∧ ∃ before after, arg = before ++ ascii '=' :: after ∧ ascii '=' ∉ before ∧
      redactArg arg = before ++ ascii '=' :: mark) ∨
    (isSensitive arg = true ∧ ∃ before after, arg = before ++ ascii ':' :: after ∧ ascii ':' ∉ before ∧ ascii '=' ∉ arg ∧
      redactArg arg = before ++ ascii ':' :: ascii ' ' :: mark) ∨
    (isSensitive arg = true ∧ ascii '=' ∉ arg ∧ ascii ':' ∉ arg ∧ containsAny arg (utf8 " \t\n") = true ∧
      redactArg arg = mark) := by
  cases sensitive : isSensitive arg with
  | false => exact Or.inl ⟨rfl, redactArg_plain sensitive⟩
  | true =>
    refine Or.inr ?_
    by_cases assigned : ascii '=' ∈ arg
    · obtain ⟨before, after, rfl, first⟩ := List.eq_append_cons_of_mem assigned
      exact Or.inr (Or.inl ⟨rfl, before, after, rfl, first, redactArg_assigned first sensitive⟩)
    · by_cases named : ascii ':' ∈ arg
      · obtain ⟨before, after, rfl, first⟩ := List.eq_append_cons_of_mem named
        exact Or.inr (Or.inr (Or.inl ⟨rfl, before, after, rfl, first, assigned, redactArg_named assigned first sensitive⟩))
      · cases spaced : containsAny arg (utf8 " \t\n") with
        | true =>
          exact Or.inr (Or.inr (Or.inr ⟨rfl, assigned, named, rfl, redactArg_spaced assigned named spaced sensitive⟩))
        | false =>
          have bare : isBare arg = true := by
            simp only [isBare, sensitive, Bool.true_and, Bool.not_eq_true', ← Bool.not_eq_true, containsAny_separators]
            simp [assigned, named, spaced]
          exact Or.inl ⟨bare, redactArg_bare bare⟩

theorem redactFrom_false (arg : Bytes) (rest : List Bytes) :
    redactFrom false (arg :: rest) = redactArg arg :: redactFrom (isBare arg) rest := by
  simp only [redactFrom]
  cases sensitive : isSensitive arg with
  | false => simp [redactArg_plain sensitive, isBare, sensitive]
  | true =>
    have bare : isBare arg = !containsAny arg separators := by simp [isBare, sensitive]
    simp only [if_true]
    cases assigned : indexByte (ascii '=') arg with
    | some p =>
      have separated : containsAny arg separators = true := (containsAny_separators arg).mpr
        (Or.inl (not_not.mp fun absent => by simp [indexByte_eq_none.mpr absent] at assigned))
      simp [bare, separated, redactArg, sensitive, assigned]
    | none =>
      cases named : indexByte (ascii ':') arg with
      | some p =>
        have separated : containsAny arg separators = true := (containsAny_separators arg).mpr
          (Or.inr (Or.inl (not_not.mp fun absent => by simp [indexByte_eq_none.mpr absent] at named)))
        simp [bare, separated, redactArg, sensitive, assigned, named]
      | none =>
        have same : containsAny arg separators = containsAny arg (utf8 " \t\n") := by
          rw [Bool.eq_iff_iff, containsAny_separators]
          simp [indexByte_eq_none.mp assigned, indexByte_eq_none.mp named]
        rw [bare, same]
        cases spaced : containsAny arg (utf8 " \t\n") <;> simp [redactArg, sensitive, assigned, named, spaced]

def flagRun (before : List Bytes) : Nat := (before.reverse.takeWhile isBare).length

def awaitsValue (before : List Bytes) : Bool := flagRun before % 2 == 1

theorem awaitsValue_concat (before : List Bytes) (arg : Bytes) :
    awaitsValue (before ++ [arg]) = (!awaitsValue before && isBare arg) := by
  have run : flagRun (before ++ [arg]) = if isBare arg then flagRun before + 1 else 0 := by
    simp only [flagRun, List.reverse_append, List.reverse_singleton, List.singleton_append, List.takeWhile_cons]
    split <;> rfl
  rw [awaitsValue, awaitsValue, run]
  cases isBare arg with
  | false => simp
  | true =>
    simp only [if_true, Bool.and_true]
    rcases Nat.mod_two_eq_zero_or_one (flagRun before) with even | odd
    · simp [even, Nat.add_mod]
    · simp [odd, Nat.add_mod]

theorem redactFrom_cons (awaits : Bool) (arg : Bytes) (rest : List Bytes) : redactFrom awaits (arg :: rest) =
    (if awaits then mark else redactArg arg) :: redactFrom (!awaits && isBare arg) rest := by
  cases awaits with
  | false => exact redactFrom_false arg rest
  | true => rfl

theorem redact_append (before rest : List Bytes) :
    redact (before ++ rest) = redact before ++ redactFrom (awaitsValue before) rest := by
  induction before using List.reverseRecOn generalizing rest with
  | nil => rfl
  | append_singleton before arg ih =>
    rw [List.append_assoc, ih, ih [arg], List.append_assoc]
    refine congrArg (redact before ++ ·) ?_
    rw [awaitsValue_concat, List.singleton_append, redactFrom_cons, redactFrom_cons]
    rfl

/-- What becomes of the argument at a position depends on it and on the run of flags before it. -/
theorem redact_at (before after : List Bytes) (arg : Bytes) : (redact (before ++ arg :: after))[before.length]? =
    some (if awaitsValue before then mark else redactArg arg) := by
  rw [redact_append, redactFrom_cons, List.getElem?_append_right (by simp)]
  simp

theorem mark_plain : isSensitive mark = false := by decide +kernel

theorem not_bare {arg : Bytes} (separated : containsAny arg separators = true) : isBare arg = false := by
  simp [isBare, separated]

theorem separated_append {byte : UInt8} (separator : byte ∈ separators) (before after : Bytes) :
    containsAny (before ++ byte :: after) separators = true :=
  List.any_eq_true.mpr ⟨byte, by simp, by simpa using separator⟩

/-- An argument that has been redacted stays as it is and takes no value that it did not take before. -/
theorem redactArg_again (arg : Bytes) :
    redactArg (redactArg arg) = redactArg arg ∧ isBare (redactArg arg) = isBare arg := by
  rcases redactArg_cases arg with ⟨_, same⟩ | ⟨_, same⟩ | ⟨_, before, after, rfl, first, same⟩ |
    ⟨_, before, after, rfl, first, unassigned, same⟩ | ⟨_, _, _, spaced, same⟩
  · rw [same, same]
    exact ⟨rfl, rfl⟩
  · rw [same, same]
    exact ⟨rfl, rfl⟩
  · have separator : ascii '=' ∈ separators := by decide
    rw [same, not_bare (separated_append separator _ _), not_bare (separated_append separator _ _)]
    refine ⟨?_, rfl⟩
    cases sensitive : isSensitive (before ++ ascii '=' :: mark) with
    | false => exact redactArg_plain sensitive
    | true => exact redactArg_assigned first sensitive
  · have separator : ascii ':' ∈ separators := by decide
    rw [same, not_bare (separated_append separator _ _), not_bare (separated_append separator _ _)]
    refine ⟨?_, rfl⟩
    cases sensitive : isSensitive (before ++ ascii ':' :: ascii ' ' :: mark) with
    | false => exact redactArg_plain sensitive
    | true =>
      refine redactArg_named ?_ first sensitive
      have head : ascii '=' ∉ before := fun member => unassigned (List.mem_append_left _ member)
      have tail : ascii '=' ∉ ascii ':' :: ascii ' ' :: mark := by decide
      exact fun member => (List.mem_append.mp member).elim head tail
  · rw [same, redactArg_plain mark_plain, not_bare ((containsAny_separators arg).mpr (Or.inr (Or.inr spaced)))]
    exact ⟨rfl, by simp [isBare, mark_plain]⟩

theorem redactFrom_again (awaits : Bool) (args : List Bytes) :
    redactFrom awaits (redactFrom awaits args) = redactFrom awaits args := by
  induction args generalizing awaits with
  | nil => cases awaits <;> rfl
  | cons arg rest ih =>
    obtain ⟨same, bare⟩ := redactArg_again arg
    cases awaits with
    | true => rw [redactFrom_cons, redactFrom_cons]; simp [ih]
    | false => rw [redactFrom_false, redactFrom_false, same, bare, ih]

theorem toLowerFrom_append {next : UInt8} (small : next < 0x80) (pending : Nat) (before after : Bytes)
    (enough : pending ≤ before.length) :
    toLowerFrom pending (before ++ next :: after) = toLowerFrom pending before ++ toLower (next :: after) := by
  have other : ∀ byte : UInt8, 0x80 ≤ byte → (byte == next) = false := fun byte large =>
    beq_eq_false_iff_ne.mpr fun same => absurd small (UInt8.not_lt.mpr (same ▸ large))
  have one : ∀ rest, hasPrefix (rest ++ next :: after) [0xB0] = hasPrefix rest [0xB0] := by
    intro rest
    cases rest <;> simp [hasPrefix, List.isPrefixOf, other]
  have two : ∀ rest, hasPrefix (rest ++ next :: after) [0x84, 0xAA] = hasPrefix rest [0x84, 0xAA] := by
    intro rest
    rcases rest with _ | ⟨first, _ | ⟨second, rest⟩⟩ <;> simp [hasPrefix, List.isPrefixOf, other]
  induction before generalizing pending with
  | nil =>
    obtain rfl := Nat.le_zero.mp enough
    rfl
  | cons byte rest ih =>
    cases pending with
    | succ pending =>
      simp only [List.cons_append, toLowerFrom]
      exact ih pending (by simpa using enough)
    | zero =>
      have long : ∀ start : Bytes, hasPrefix rest start = true → start.length ≤ rest.length := fun start found =>
        (List.isPrefixOf_iff_prefix.mp found).length_le
      simp only [List.cons_append, toLowerFrom, one, two]
      split
      next dotted => rw [ih 1 (long [0xB0] (Bool.and_eq_true_iff.mp dotted).2), List.cons_append]
      · split
        next kelvin => rw [ih 2 (long [0x84, 0xAA] (Bool.and_eq_true_iff.mp kelvin).2), List.cons_append]
        · rw [ih 0 (Nat.zero_le _), List.cons_append]

theorem toLower_large {byte : UInt8} (large : 0x80 ≤ byte) {rest : Bytes} (dotless : (byte == 0xC4 && hasPrefix rest [0xB0]) = false)
    (celsius : (byte == 0xE2 && hasPrefix rest [0x84, 0xAA]) = false) : toLower (byte :: rest) = byte :: toLower rest := by
  have cased : isUpper byte = false := by
    simp only [isUpper, Bool.and_eq_false_iff, decide_eq_false_iff_not]
    exact Or.inr fun small => absurd (UInt8.le_trans large small) (by decide)
  simp [toLower, toLowerFrom, dotless, celsius, cased]

theorem toLower_tails {tails : Bytes} (inner : ∀ tail ∈ tails, isTail tail = true) (rest : Bytes) :
    toLower (tails ++ rest) = tails ++ toLower rest := by
  induction tails with
  | nil => rfl
  | cons tail tails ih =>
    have here := inner tail List.mem_cons_self
    have fourth : (tail == 0xC4) = false := beq_eq_false_iff_ne.mpr fun same => by subst same; cases here
    have second : (tail == 0xE2) = false := beq_eq_false_iff_ne.mpr fun same => by subst same; cases here
    rw [List.cons_append, toLower_large (isTail_large here) (by simp [fourth]) (by simp [second]),
      ih fun other member => inner other (List.mem_cons_of_mem _ member), List.cons_append]

/-- A character outside ASCII becomes one ASCII letter or stays. -/
theorem toLower_rune {byte : UInt8} {tails rest : Bytes} (large : 0x80 ≤ byte) (inner : ∀ tail ∈ tails, isTail tail = true)
    (found : runeTail byte (tails ++ rest) = some tails.length) : ∃ head,
      (∀ after, toLower (byte :: (tails ++ after)) = head ++ toLower after) ∧
      (head.length = 1 ∨ (head ≠ [] ∧ ∀ other ∈ head, 0x80 ≤ other)) := by
  by_cases dotted : byte = 0xC4 ∧ tails = [0xB0]
  · obtain ⟨rfl, rfl⟩ := dotted
    exact ⟨[ascii 'i'], fun after => rfl, Or.inl rfl⟩
  · by_cases kelvin : byte = 0xE2 ∧ tails = [0x84, 0xAA]
    · obtain ⟨rfl, rfl⟩ := kelvin
      exact ⟨[ascii 'k'], fun after => rfl, Or.inl rfl⟩
    · refine ⟨byte :: tails, fun after => ?_, Or.inr ⟨by simp, ?_⟩⟩
      · rw [toLower_large large, toLower_tails inner, List.cons_append]
        · refine Bool.eq_false_iff.mpr fun both => dotted ?_
          obtain ⟨first, starts⟩ := Bool.and_eq_true_iff.mp both
          obtain rfl := beq_iff_eq.mp first
          have one := runeTail_size large rfl found
          obtain ⟨tail, rfl⟩ := List.length_eq_one_iff.mp one
          obtain ⟨same, _⟩ := List.cons_prefix_cons.mp (List.isPrefixOf_iff_prefix.mp starts)
          exact ⟨rfl, by rw [same]⟩
        · refine Bool.eq_false_iff.mpr fun both => kelvin ?_
          obtain ⟨first, starts⟩ := Bool.and_eq_true_iff.mp both
          obtain rfl := beq_iff_eq.mp first
          have two := runeTail_size large rfl found
          obtain ⟨second, third, rfl⟩ := List.length_eq_two.mp two
          obtain ⟨same, starts⟩ := List.cons_prefix_cons.mp (List.isPrefixOf_iff_prefix.mp starts)
          obtain ⟨also, _⟩ := List.cons_prefix_cons.mp starts
          exact ⟨rfl, by rw [same, also]⟩
      · intro other member
        rcases List.mem_cons.mp member with rfl | tail
        · exact large
        · exact isTail_large (inner other tail)

/-- Lowering the case finds the same ASCII text before and after an encoder. -/
theorem toLower_coerce (text : Bytes) : AsciiAlike (toLower (coerce text)) (toLower text) := by
  induction text using runes_induction with
  | nil => exact .nil
  | stray byte rest large found ih =>
    have still : toLower (byte :: rest) = byte :: toLower rest := by
      refine toLower_large large ?_ ?_
      · refine Bool.eq_false_iff.mpr fun dotted => ?_
        obtain ⟨first, starts⟩ := Bool.and_eq_true_iff.mp dotted
        obtain ⟨after, rfl⟩ := List.isPrefixOf_iff_prefix.mp starts
        obtain rfl := beq_iff_eq.mp first
        simp [runeTail, lead] at found
      · refine Bool.eq_false_iff.mpr fun kelvin => ?_
        obtain ⟨first, starts⟩ := Bool.and_eq_true_iff.mp kelvin
        obtain ⟨after, rfl⟩ := List.isPrefixOf_iff_prefix.mp starts
        obtain rfl := beq_iff_eq.mp first
        simp [runeTail, lead, isTail] at found
    have replaced : toLower (replacement ++ coerce rest) = replacement ++ toLower (coerce rest) := by
      rfl
    rw [coerce_stray found, still, replaced]
    exact .other replacement [byte] _ _ (by simp [replacement]) (by simp) (by decide +kernel) (by simpa using large) ih
  | ascii byte rest small ih =>
    have lowered : ∀ after, toLower (byte :: after) = (if isUpper byte then byte + 32 else byte) :: toLower after := by
      intro after
      have fourth : (byte == 0xC4) = false := beq_eq_false_iff_ne.mpr fun same => by subst same; exact absurd small (by decide)
      have second : (byte == 0xE2) = false := beq_eq_false_iff_ne.mpr fun same => by subst same; exact absurd small (by decide)
      simp [toLower, toLowerFrom, fourth, second]
    rw [coerce_cons small, lowered, lowered]
    exact .ascii _ _ _ ih
  | rune byte tails rest large inner found ih =>
    obtain ⟨head, lowered, kind⟩ := toLower_rune large inner found
    rw [coerce_rune found, lowered, lowered]
    rcases kind with one | ⟨some, others⟩
    · obtain ⟨letter, rfl⟩ := List.length_eq_one_iff.mp one
      exact .ascii letter _ _ ih
    · exact .other head head _ _ some some others others ih

theorem isSensitive_coerce (arg : Bytes) : isSensitive (coerce arg) = isSensitive arg := by
  have keys : ∀ key ∈ sensitiveKeys, key ≠ [] ∧ IsAscii key := by
    have all : (sensitiveKeys.all fun key => !key.isEmpty && key.all fun byte => byte < 0x80) = true := rfl
    intro key member
    have both := List.all_eq_true.mp all key member
    simp only [Bool.and_eq_true, Bool.not_eq_true', List.isEmpty_eq_false_iff] at both
    exact ⟨both.1, isAscii_of_all both.2⟩
  simp only [isSensitive]
  rw [Bool.eq_iff_iff, List.any_eq_true, List.any_eq_true]
  refine exists_congr fun key => and_congr_right fun member => ?_
  rw [(toLower_coerce arg).contains (keys key member).1 (keys key member).2]

theorem mark_encoded : coerce mark = mark := coerce_ascii (isAscii_of_all rfl)

theorem containsAny_coerce {cutset : Bytes} (plain : IsAscii cutset) (arg : Bytes) :
    containsAny (coerce arg) cutset = containsAny arg cutset := by
  rw [Bool.eq_iff_iff, containsAny, containsAny, List.any_eq_true, List.any_eq_true]
  constructor
  · rintro ⟨byte, member, inside⟩
    have small := plain byte (by simpa using inside)
    exact ⟨byte, (mem_coerce small).mp member, inside⟩
  · rintro ⟨byte, member, inside⟩
    have small := plain byte (by simpa using inside)
    exact ⟨byte, (mem_coerce small).mpr member, inside⟩

/-- It does not matter whether an argument is redacted before or after it goes through an encoder. -/
theorem redactArg_coerce (arg : Bytes) :
    redactArg (coerce arg) = coerce (redactArg arg) ∧ isBare (coerce arg) = isBare arg := by
  have seps : IsAscii separators := isAscii_of_all rfl
  have spaces : IsAscii (utf8 " \t\n") := isAscii_of_all rfl
  have equals : ascii '=' < 0x80 := by decide
  have colon : ascii ':' < 0x80 := by decide
  have bare : isBare (coerce arg) = isBare arg := by rw [isBare, isSensitive_coerce, containsAny_coerce seps, isBare]
  refine ⟨?_, bare⟩
  rcases redactArg_cases arg with ⟨plain, same⟩ | ⟨flag, same⟩ | ⟨sensitive, before, after, rfl, first, same⟩ |
    ⟨sensitive, before, after, rfl, first, unassigned, same⟩ | ⟨sensitive, unassigned, unnamed, spaced, same⟩
  · rw [same, redactArg_plain (isSensitive_coerce arg ▸ plain)]
  · rw [same, redactArg_bare (bare ▸ flag)]
  · rw [← isSensitive_coerce, coerce_split equals] at sensitive
    rw [same, coerce_split equals, coerce_split equals, mark_encoded,
      redactArg_assigned (fun member => first ((mem_coerce equals).mp member)) sensitive]
  · have absent : ascii '=' ∉ coerce (before ++ ascii ':' :: after) := fun member => unassigned ((mem_coerce equals).mp member)
    rw [← isSensitive_coerce, coerce_split colon] at sensitive
    rw [coerce_split colon] at absent
    rw [same, coerce_split colon, coerce_split colon, coerce_cons (by decide), mark_encoded,
      redactArg_named absent (fun member => first ((mem_coerce colon).mp member)) sensitive]
  · rw [same, mark_encoded]
    exact redactArg_spaced (fun member => unassigned ((mem_coerce equals).mp member))
      (fun member => unnamed ((mem_coerce colon).mp member)) ((containsAny_coerce spaces arg).trans spaced)
      ((isSensitive_coerce arg).trans sensitive)

theorem redactFrom_coerce (awaits : Bool) (args : List Bytes) :
    redactFrom awaits (args.map coerce) = (redactFrom awaits args).map coerce := by
  induction args generalizing awaits with
  | nil => cases awaits <;> rfl
  | cons arg rest ih =>
    obtain ⟨same, bare⟩ := redactArg_coerce arg
    rw [List.map_cons, redactFrom_cons, redactFrom_cons, bare, ih, List.map_cons, same]
    cases awaits <;> simp [mark_encoded]

theorem redact_again (args : List Bytes) : redact (redact args) = redact args := redactFrom_again false args

theorem redact_coerce (args : List Bytes) : redact (args.map coerce) = (redact args).map coerce := redactFrom_coerce false args

/-- What becomes of arguments that are sent on as JSON and redacted where they arrive. -/
def hop (args : List Bytes) : List Bytes := redact (args.map coerce)

theorem hop_redacted (args : List Bytes) : hop ((redact args).map coerce) = (redact args).map coerce := by
  rw [hop, List.map_map, show coerce ∘ coerce = coerce from funext coerce_coerce, redact_coerce, redact_again]

/-- The arguments of an agent's event have been redacted. -/
theorem eventsFor_redacted {rows : List Record} {boot : Bytes} {lookup : Bytes → Bytes} {ev : Event}
    (made : ev ∈ eventsFor rows boot lookup) : ∃ args, ev.args = redact args := by
  cases rows with
  | nil => cases made
  | cons first rest =>
    rcases List.mem_append.mp made with ssh | exec
    · obtain ⟨r, _, found⟩ := List.mem_filterMap.mp ssh
      simp only [sshEvent] at found
      split at found
      · cases found
      · obtain ⟨kind, _, rfl⟩ := Option.map_eq_some_iff.mp found
        exact ⟨[], rfl⟩
    · have found := Option.mem_toList.mp exec
      simp only [execEvent] at found
      split at found
      · cases found
      · split at found
        · cases found
        · split at found
          · cases found
          · obtain rfl := Option.some.inj found
            exact ⟨_, rfl⟩

def EndsInKey (text : Bytes) : Prop :=
  (∃ key ∈ sensitiveKeys, key <:+ toLower text) ∧ ∀ key ∈ sensitiveKeys, ¬key <:+: (toLower text).dropLast

def redactedAt (before : List Bytes) (arg : Bytes) (after : List Bytes) : Option Bytes :=
  (redact (before ++ arg :: after))[before.length]?

theorem redactedAt_eq (before : List Bytes) (arg : Bytes) (after : List Bytes) :
    redactedAt before arg after = some (if awaitsValue before then mark else redactArg arg) := redact_at before after arg

theorem sensitive_through {text : Bytes} {separator : UInt8} (ends : EndsInKey text) (separates : separator ∈ separators)
    (value : Bytes) : isSensitive (text ++ separator :: value) = true := by
  obtain ⟨⟨key, listed, suffix⟩, -⟩ := ends
  have small : separator < 0x80 := (isAscii_of_all rfl : IsAscii separators) separator separates
  refine List.any_eq_true.mpr ⟨key, listed, contains_iff.mpr ?_⟩
  rw [toLower, toLowerFrom_append small 0 _ _ (Nat.zero_le _)]
  exact suffix.isInfix.trans (List.infix_append [] (toLower text) _)

/-- Nothing of what follows a keyword and a separator is left, whatever it is, exactly if that
separator is an equals sign or one stands before it. -/
theorem separated_value_hidden_iff {before after : List Bytes} {text : Bytes} {separator : UInt8}
    (free : flagRun before % 2 = 0) (ends : EndsInKey text) (separates : separator ∈ separators) :
    (∀ value other, redactedAt before (text ++ separator :: value) after =
      redactedAt before (text ++ separator :: other) after) ↔ separator = ascii '=' ∨ ascii '=' ∈ text := by
  have unmasked : awaitsValue before = false := by simp [awaitsValue, free]
  have sensitive := fun value => sensitive_through ends separates value
  simp only [redactedAt_eq, unmasked, Bool.false_eq_true, if_false, Option.some.injEq]
  constructor
  · intro hidden
    by_contra visible
    obtain ⟨differs, absent⟩ := not_or.mp visible
    -- Two values whose equals signs stand at different places leave different texts.
    have first : ascii '=' ∉ text ++ [separator] := by simp [absent, Ne.symm differs]
    have second : ascii '=' ∉ text ++ [separator, ascii 'a'] := by
      simp only [List.mem_append, List.mem_cons, List.not_mem_nil, or_false, not_or]
      exact ⟨absent, Ne.symm differs, by decide⟩
    have one : redactArg (text ++ separator :: [ascii '=']) = text ++ [separator] ++ ascii '=' :: mark := by
      have cut := @redactArg_assigned (text ++ [separator]) [] first
      simp only [List.append_assoc, List.singleton_append] at cut ⊢
      exact cut (sensitive _)
    have two : redactArg (text ++ separator :: [ascii 'a', ascii '=']) =
        text ++ [separator, ascii 'a'] ++ ascii '=' :: mark := by
      have cut := @redactArg_assigned (text ++ [separator, ascii 'a']) [] second
      simp only [List.append_assoc, List.cons_append, List.nil_append] at cut ⊢
      exact cut (sensitive _)
    have lengths := congrArg List.length (one.symm.trans ((hidden _ _).trans two))
    simp only [List.length_append, List.length_cons, List.length_nil] at lengths
    omega
  · rintro covered value other
    by_cases inside : ascii '=' ∈ text
    · obtain ⟨head, tail, rfl, first⟩ := List.eq_append_cons_of_mem inside
      have cut : ∀ value, redactArg (head ++ ascii '=' :: tail ++ separator :: value) = head ++ ascii '=' :: mark := by
        intro value
        have whole := sensitive value
        rw [List.append_assoc, List.cons_append] at whole ⊢
        exact redactArg_assigned first whole
      rw [cut, cut]
    · obtain rfl := covered.resolve_right inside
      rw [redactArg_assigned inside (sensitive value), redactArg_assigned inside (sensitive other)]

/-- The argument behind a bare flag is masked, whatever it is, exactly if an even number of bare
flags stands directly before that flag. -/
theorem flag_value_masked_iff {before after : List Bytes} {flag : Bytes} (bare : isBare flag = true) :
    ((∀ value, redactedAt (before ++ [flag]) value after = some mark) ↔ flagRun before % 2 = 0) ∧
    ((∀ value other, redactedAt (before ++ [flag]) value after = redactedAt (before ++ [flag]) other after) ↔
      flagRun before % 2 = 0) := by
  simp only [redactedAt_eq, awaitsValue_concat, bare, Bool.and_true, Option.some.injEq]
  rcases Nat.mod_two_eq_zero_or_one (flagRun before) with even | odd
  · simp [awaitsValue, even]
  · have plain : isSensitive [] = false ∧ isSensitive [ascii 'a'] = false := by decide +kernel
    have empty : redactArg [] = [] := redactArg_plain plain.1
    have letter : redactArg [ascii 'a'] = [ascii 'a'] := redactArg_plain plain.2
    simp only [awaitsValue, odd, beq_self_eq_true, Bool.not_true, Bool.false_eq_true, if_false]
    constructor
    · refine iff_of_false (fun masked => ?_) (by decide)
      have := empty.symm.trans (masked [])
      cases this
    · refine iff_of_false (fun same => ?_) (by decide)
      have := empty.symm.trans ((same [] [ascii 'a']).trans letter)
      cases this

/-- Redacting again changes nothing: neither at once, nor after any number of hops through JSON, nor
when the server checks an agent's event. -/
theorem redaction_idempotent (args : List Bytes) :
    redact (redact args) = redact args ∧ (∀ count, redact^[count + 1] args = redact args) ∧
    (∀ count, hop^[count] ((redact args).map coerce) = (redact args).map coerce) ∧
    (∀ rows boot lookup, ∀ ev ∈ eventsFor rows boot lookup, ∀ now out,
      checkEvent now ev.coerced = .ok out → out = ev.coerced) := by
  refine ⟨redact_again args, fun count => ?_, fun count => Function.iterate_fixed (hop_redacted args) count, ?_⟩
  · rw [Function.iterate_succ_apply]
    exact Function.iterate_fixed (redact_again args) count
  · intro rows boot lookup ev made now out accepted
    obtain ⟨raw, redacted⟩ := eventsFor_redacted made
    rw [(checkEvent_ok accepted).2.2]
    simp only [Event.redacted, Event.coerced, redacted, redact_coerce, redact_again]

theorem separated_value_hidden_password :
    (∀ value other, redactedAt [utf8 "curl"] (utf8 "--password" ++ ascii '=' :: value) [] =
      redactedAt [utf8 "curl"] (utf8 "--password" ++ ascii '=' :: other) []) ↔
      ascii '=' = ascii '=' ∨ ascii '=' ∈ utf8 "--password" := by
  have ends : EndsInKey (utf8 "--password") := by
    unfold EndsInKey
    decide +kernel
  exact separated_value_hidden_iff (by decide +kernel) ends (by decide)

/-- The padding of a token moves the cut behind it. -/
theorem authorization_value_visible : ∃ before after text separator, flagRun before % 2 = 0 ∧ EndsInKey text ∧
    separator ∈ separators ∧ ¬∀ value other, redactedAt before (text ++ separator :: value) after =
      redactedAt before (text ++ separator :: other) after := by
  refine ⟨[utf8 "curl", utf8 "-H"], [], utf8 "Authorization", ascii ':', by decide +kernel, ?_, by decide, fun hidden => ?_⟩
  · unfold EndsInKey
    decide +kernel
  · exact absurd (hidden (utf8 " Basic dTpwYXNz==") (utf8 " Basic dTpzZWNy==")) (by decide +kernel)

theorem flag_value_masked_token :
    ((∀ value, redactedAt ([utf8 "mysql"] ++ [utf8 "--password"]) value [] = some mark) ↔ flagRun [utf8 "mysql"] % 2 = 0) ∧
    ((∀ value other, redactedAt ([utf8 "mysql"] ++ [utf8 "--password"]) value [] =
      redactedAt ([utf8 "mysql"] ++ [utf8 "--password"]) other []) ↔ flagRun [utf8 "mysql"] % 2 = 0) :=
  flag_value_masked_iff (by decide +kernel)

/-- The flag behind another one is taken for its value, and its own value stays. -/
theorem second_flag_value_visible : ∃ before after flag, isBare flag = true ∧
    ¬∀ value other, redactedAt (before ++ [flag]) value after = redactedAt (before ++ [flag]) other after := by
  refine ⟨[utf8 "login", utf8 "--no-password"], [], utf8 "--token", by decide +kernel, fun same => ?_⟩
  exact absurd (same (utf8 "abc") (utf8 "xyz")) (by decide +kernel)

end SshLogger
