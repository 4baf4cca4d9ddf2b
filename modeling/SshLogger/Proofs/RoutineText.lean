import SshLogger.Activity
import SshLogger.Library.Search

/-! The store tells by two JSON texts whether the arguments of a command are those of
a rule: one that was stored and one it writes itself. They are equal exactly when
the arguments are. -/

namespace SshLogger
open Library Library.Bytes Library.Sqlite

/-- The characters a reader finds in a string; bytes that are not escaped stand for themselves. -/
def shownFrom : Nat × Bool → Bytes → List Char
  | _, [] => []
  | (pending + 1, copied), byte :: rest =>
    if copied then Char.ofNat byte.toNat :: shownFrom (pending, copied) rest else shownFrom (pending, copied) rest
  | (0, _), byte :: rest =>
    if byte < 0x80 then Char.ofNat byte.toNat :: shownFrom (0, true) rest
    else if byte == 0xE2 && hasPrefix rest [0x80, 0xA8] then '\u2028' :: shownFrom (2, false) rest
    else if byte == 0xE2 && hasPrefix rest [0x80, 0xA9] then '\u2029' :: shownFrom (2, false) rest
    else match runeTail byte rest with
      | none => '\ufffd' :: shownFrom (0, true) rest
      | some more => Char.ofNat byte.toNat :: shownFrom (more, true) rest

def Shows (text : List Char) (shown : List Char) : Prop :=
  ∀ rest, Json.readString none (text ++ rest) = (Json.readString none rest).map fun found => (shown ++ found.1, found.2)

theorem Shows.nil : Shows [] [] := by
  intro rest
  simp

theorem Shows.append {first second shown more : List Char} (one : Shows first shown) (other : Shows second more) :
    Shows (first ++ second) (shown ++ more) := by
  intro rest
  rw [List.append_assoc, one, other, Option.map_map]
  congr 1
  funext found
  simp

theorem Shows.escape (char : Char) : Shows (Json.escape char) [char] := fun rest => Json.readString_escape char rest

theorem escape_byte : ∀ value < 128, chars (escapeByte (UInt8.ofNat value)) = Json.escape (Char.ofNat value) := by
  decide +kernel

theorem escape_high : ∀ value < 256, 128 ≤ value → Json.escape (Char.ofNat value) = [Char.ofNat value] := by
  decide +kernel

theorem shows_replacement : Shows (chars (utf8 "\\ufffd")) ['\ufffd'] := by
  intro rest
  have text : chars (utf8 "\\ufffd") = ['\\', 'u', 'f', 'f', 'f', 'd'] := by decide +kernel
  have code : Json.hexCode 'f' 'f' 'f' 'd' = some 0xfffd := by decide
  rw [text]
  simp [Json.readString, code, Json.decode, Json.isHigh, Json.isLow]

/-- A byte that no reader takes for anything else. -/
theorem shows_byte {byte : UInt8} (large : ¬byte < 0x80) : Shows (chars [byte]) [Char.ofNat byte.toNat] := by
  have high : 128 ≤ byte.toNat := Nat.le_of_not_lt large
  have shown : chars [byte] = Json.escape (Char.ofNat byte.toNat) := (escape_high byte.toNat byte.toNat_lt high).symm
  rw [shown]
  exact .escape _

theorem shows_ascii {byte : UInt8} (small : byte < 0x80) : Shows (chars (escapeByte byte)) [Char.ofNat byte.toNat] := by
  have shown := escape_byte byte.toNat small
  rw [UInt8.ofNat_toNat] at shown
  rw [shown]
  exact .escape _

/-- The state counts bytes that have been dealt with, none of them ASCII. -/
theorem shows_quoteFrom (state : Nat × Bool) (text : Bytes) (high : ∀ byte ∈ text.take state.1, ¬byte < 0x80) :
    Shows (chars (quoteFrom state text)) (shownFrom state text) := by
  have rune : ∀ {byte : UInt8} {rest : Bytes} {more : Nat}, ¬byte < 0x80 → runeTail byte rest = some more →
      ∀ tail ∈ rest.take more, ¬tail < 0x80 := by
    intro byte rest more large found
    rcases runeTail_split found with ⟨-, small⟩ | ⟨-, tails⟩
    · exact absurd small large
    · exact fun tail member => UInt8.not_lt.mpr (isTail_large (tails tail member))
  have separator : ∀ {rest : Bytes} {last : UInt8}, ¬last < 0x80 → hasPrefix rest [0x80, last] = true →
      ∀ tail ∈ rest.take 2, ¬tail < 0x80 := by
    intro rest last large starts
    obtain ⟨after, rfl⟩ := List.isPrefixOf_iff_prefix.mp starts
    simpa using large
  fun_induction quoteFrom state text with
  | case1 => exact .nil
  | case2 pending byte rest ih =>
    simp only [List.take_succ_cons, List.forall_mem_cons] at high
    exact (shows_byte high.1).append (ih high.2)
  | case3 pending copied byte rest dropped ih =>
    simp only [List.take_succ_cons, List.forall_mem_cons] at high
    obtain rfl : copied = false := by simpa using dropped
    exact ih high.2
  | case4 copied byte rest small ih =>
    rw [chars_append, shownFrom, if_pos small]
    exact (shows_ascii small).append (ih (by simp))
  | case5 copied byte rest large starts ih =>
    have shown : chars (utf8 "\\u2028") = Json.escape '\u2028' := by decide +kernel
    rw [chars_append, shownFrom, if_neg large, if_pos starts, shown]
    exact (Shows.escape _).append (ih (separator (by decide) (Bool.and_eq_true_iff.mp starts).2))
  | case6 copied byte rest large other starts ih =>
    have shown : chars (utf8 "\\u2029") = Json.escape '\u2029' := by decide +kernel
    rw [chars_append, shownFrom, if_neg large, if_neg other, if_pos starts, shown]
    exact (Shows.escape _).append (ih (separator (by decide) (Bool.and_eq_true_iff.mp starts).2))
  | case7 copied byte rest large other another invalid ih =>
    rw [chars_append, shownFrom, if_neg large, if_neg other, if_neg another, invalid]
    exact shows_replacement.append (ih (by simp))
  | case8 copied byte rest large other another more found ih =>
    rw [shownFrom, if_neg large, if_neg other, if_neg another, found]
    exact (shows_byte large).append (ih (rune large found))

def shown (text : Bytes) : List Char := shownFrom (0, true) text

theorem read_quote (text : Bytes) (fuel : Nat) (rest : List Char) :
    Json.read (fuel + 1) (chars (quote text) ++ rest) = some (.str (String.ofList (shown text)), rest) := by
  have body := shows_quoteFrom (0, true) text (by simp)
  have mark : Char.ofNat (ascii '"').toNat = '"' := by decide
  have ends : Json.readString none ('"' :: rest) = some ([], rest) := by
    rw [Json.readString.eq_def]
    rfl
  rw [quote, List.cons_append, chars_cons, chars_append, chars_cons, chars_nil, mark, List.cons_append, List.append_assoc,
    Json.read, Json.skip_cons (by decide)]
  simp [body ('"' :: rest), ends, shown]

theorem isString_quote (text : Bytes) : IsString (quote text) where
  quoted := ⟨_, rfl⟩
  value := ⟨_, read_quote text⟩

theorem commaSeparated_intercalate (parts : List Bytes) : commaSeparated parts = [ascii ','].intercalate parts := by
  fun_induction commaSeparated parts with
  | case1 => rfl
  | case2 part => simp
  | case3 part rest several ih => rw [intercalate_cons (fun none => several none), ih]

theorem storedArgs_text (e : Event) : storedArgs e = arrayText (e.args.map quote) := by
  rw [storedArgs, commaSeparated_intercalate, arrayText]

theorem quotes_strings (args : List Bytes) : ∀ item ∈ args.map quote, IsString item := by
  intro item member
  obtain ⟨arg, -, rfl⟩ := List.mem_map.mp member
  exact isString_quote arg

/-- Only ASCII bytes are read as ASCII characters. -/
theorem shownFrom_ascii (state : Nat × Bool) (text : Bytes) (begins : state.1 = 0)
    (ascii : ∀ char ∈ shownFrom state text, char.toNat < 0x80) : shownFrom state text = chars text := by
  fun_induction shownFrom state text with
  | case1 => rfl
  | case2 => cases begins
  | case3 => cases begins
  | case4 copied byte rest small ih => rw [chars_cons, ih rfl (List.forall_mem_cons.mp ascii).2]
  | case5 => exact absurd (List.forall_mem_cons.mp ascii).1 (by decide)
  | case6 => exact absurd (List.forall_mem_cons.mp ascii).1 (by decide)
  | case7 => exact absurd (List.forall_mem_cons.mp ascii).1 (by decide)
  | case8 copied byte rest large =>
    have small := (List.forall_mem_cons.mp ascii).1
    rw [toNat_char] at small
    exact absurd small large

theorem shown_of_ascii {plain : Bytes} (ascii : IsAscii plain) : shown plain = chars plain := by
  unfold shown
  induction plain with
  | nil => rfl
  | cons byte rest ih =>
    rw [shownFrom, if_pos (ascii byte List.mem_cons_self), chars_cons,
      ih fun other member => ascii other (List.mem_cons_of_mem _ member)]

/-- A text that is written as an ASCII text is that text. -/
theorem quote_ascii {text plain : Bytes} (ascii : IsAscii plain) (same : quote text = quote plain) : text = plain := by
  have read := read_quote text 0 []
  rw [same, read_quote plain 0 []] at read
  have shown_same : shown plain = shown text := String.ofList_injective (by simpa using read)
  rw [shown_of_ascii ascii] at shown_same
  have small : ∀ char ∈ shownFrom (0, true) text, char.toNat < 0x80 := by
    intro char member
    rw [show shownFrom (0, true) text = chars plain from shown_same.symm] at member
    obtain ⟨byte, listed, rfl⟩ := List.mem_map.mp member
    rw [toNat_char]
    exact ascii byte listed
  have own : shown text = chars text := shownFrom_ascii _ text rfl small
  exact chars_injective (own.symm.trans shown_same.symm)

/-- A rule's arguments are written alike by the program and by the store. -/
theorem rules_alike {rule : RoutineRule} (listed : rule ∈ routineRules) {arg : String} (member : arg ∈ rule.args) :
    jsonString (utf8 arg) = quote (utf8 arg) ∧ IsAscii (utf8 arg) := by
  have every : (routineRules.all fun rule => rule.args.all fun arg =>
      jsonString (utf8 arg) == quote (utf8 arg) && (utf8 arg).all fun byte => byte < 0x80) = true := by decide +kernel
  have one := List.all_eq_true.mp (List.all_eq_true.mp every rule listed) arg member
  simp only [Bool.and_eq_true, beq_iff_eq] at one
  exact ⟨one.1, isAscii_of_all one.2⟩

theorem rules_ascii {rule : RoutineRule} (listed : rule ∈ routineRules) : ∀ plain ∈ rule.args.map utf8, IsAscii plain := by
  intro plain member
  obtain ⟨arg, there, rfl⟩ := List.mem_map.mp member
  exact (rules_alike listed there).2

theorem jsonArray_rule {rule : RoutineRule} (listed : rule ∈ routineRules) :
    jsonArray (rule.args.map utf8) = arrayText ((rule.args.map utf8).map quote) := by
  rw [jsonArray]
  congr 1
  simp only [List.map_map]
  exact List.map_congr_left fun arg member => (rules_alike listed member).1

theorem quotes_ascii {args plains : List Bytes} (ascii : ∀ plain ∈ plains, IsAscii plain)
    (same : args.map quote = plains.map quote) : args = plains := by
  induction args generalizing plains with
  | nil => exact (List.map_eq_nil_iff.mp same.symm).symm
  | cons first rest ih =>
    cases plains with
    | nil => cases same
    | cons plain plains =>
      obtain ⟨head, tail⟩ := List.cons.inj same
      obtain ⟨one, others⟩ := List.forall_mem_cons.mp ascii
      rw [quote_ascii one head, ih others tail]

theorem arrayText_rule {args : List Bytes} {rule : RoutineRule} (listed : rule ∈ routineRules)
    (same : arrayText (args.map quote) = arrayText ((rule.args.map utf8).map quote)) : args = rule.args.map utf8 := by
  have items := congrArg arrayItems same
  rw [arrayItems_text (quotes_strings _), arrayItems_text (quotes_strings _), Option.some.injEq] at items
  exact quotes_ascii (rules_ascii listed) items

/-- The store's comparison tells exactly whether the arguments after the first are the rule's. -/
theorem hasTail_iff {rule : RoutineRule} (listed : rule ∈ routineRules) (e : Event) :
    hasTail rule.args (storedArgs e) = true ↔ e.args.tail = rule.args.map utf8 := by
  have removed : jsonRemoveFirst (storedArgs e) = arrayText (e.args.tail.map quote) := by
    rw [storedArgs_text]
    cases args : e.args with
    | nil => rfl
    | cons first rest => exact jsonRemoveFirst_text (quotes_strings (first :: rest))
  rw [hasTail, beq_iff_eq, removed, jsonArray_rule listed]
  exact ⟨arrayText_rule listed, fun same => by rw [same]⟩

/-- Who ran the command, and that it succeeded, was reported: a command of a rule,
by its program and by its decoded arguments after the first. -/
structure IsRoutine (e : Event) (rule : RoutineRule) : Prop where
  kind : e.kind = .exec
  outcome : e.outcome = utf8 "yes"
  known : e.user ≠ []
  unchanged : e.user = e.effectiveUser
  program : ∃ path ∈ programPaths rule.program, e.program = utf8 path
  args : (e.args.map coerce).tail = rule.args.map utf8

/-- The expression of the store says what the rules say. -/
theorem routineReasonSQL_eq (e : Event) : routineReasonSQL e = routineReason e := by
  have strings := quotes_strings e.args
  have valid : jsonValid (storedArgs e) = true := by
    rw [storedArgs_text]
    exact jsonValid_text strings
  have array : jsonType (storedArgs e) = "array" := by
    rw [storedArgs_text]
    exact jsonType_text strings
  have judged : (e.kind != .exec || e.outcome != utf8 "yes" || e.user == [] || e.effectiveUser == [] ||
      e.user != e.effectiveUser) = !isJudged e := by
    simp [isJudged, bne, Bool.not_and]
  have found : (routineRules.find? fun rule => isProgram rule.program e.program && hasTail rule.args (storedArgs e)) =
      routineRules.find? fun rule =>
        (programPaths rule.program).any (fun path => e.program == utf8 path) && e.args.tail == rule.args.map utf8 := by
    rw [← List.head?_filter, ← List.head?_filter]
    congr 1
    apply List.filter_congr
    intro rule listed
    rw [isProgram, Bool.eq_iff_iff.mpr ((hasTail_iff listed e).trans beq_iff_eq.symm)]
  rw [routineReasonSQL, routineReason, judged, valid, array, found]
  simp

theorem rules_reasoned {rule : RoutineRule} (listed : rule ∈ routineRules) : rule.reason ≠ "" := by
  have every : (routineRules.all fun rule => rule.reason != "") = true := by decide +kernel
  simpa using List.all_eq_true.mp every rule listed

/-- A text that is decoded to an ASCII text is that text. -/
theorem coerceFrom_plain (pending : Nat) (text : Bytes) (ascii : IsAscii (coerceFrom pending text)) :
    coerceFrom pending text = text := by
  fun_induction coerceFrom pending text with
  | case1 => rfl
  | case2 pending byte rest ih => rw [ih (List.forall_mem_cons.mp ascii).2]
  | case3 byte rest invalid ih => exact absurd (ascii 0xEF (by simp [replacement])) (by decide)
  | case4 byte rest more found ih => rw [ih (List.forall_mem_cons.mp ascii).2]

theorem coerced_args {args plains : List Bytes} (ascii : ∀ plain ∈ plains, IsAscii plain) :
    args.map coerce = plains ↔ args = plains := by
  constructor
  · rintro rfl
    refine (List.map_congr_left fun arg member => ?_).trans (List.map_id _) |>.symm
    exact coerceFrom_plain 0 arg (ascii _ (List.mem_map_of_mem member))
  · rintro rfl
    exact (List.map_congr_left fun arg member => coerce_ascii (ascii arg member)).trans (List.map_id _)

theorem isRoutine_iff {e : Event} {rule : RoutineRule} (listed : rule ∈ routineRules) : IsRoutine e rule ↔
    isJudged e = true ∧ ((programPaths rule.program).any (fun path => e.program == utf8 path) &&
      e.args.tail == rule.args.map utf8) = true := by
  have decoded : (e.args.map coerce).tail = rule.args.map utf8 ↔ e.args.tail = rule.args.map utf8 := by
    rw [← List.map_tail]
    exact coerced_args (rules_ascii listed)
  simp only [isJudged, Bool.and_eq_true, beq_iff_eq, bne_iff_ne, List.any_eq_true]
  constructor
  · rintro ⟨kind, outcome, known, unchanged, program, args⟩
    exact ⟨⟨⟨⟨⟨kind, outcome⟩, known⟩, unchanged ▸ known⟩, unchanged⟩, program, decoded.mp args⟩
  · rintro ⟨⟨⟨⟨⟨kind, outcome⟩, known⟩, -⟩, unchanged⟩, program, args⟩
    exact ⟨kind, outcome, known, unchanged, program, decoded.mpr args⟩

/-- A command is routine exactly when it is one of a rule. -/
theorem routineReason_iff (e : Event) : routineReason e ≠ "" ↔ ∃ rule ∈ routineRules, IsRoutine e rule := by
  rw [routineReason]
  cases judged : isJudged e with
  | false =>
    simp only [Bool.not_false, if_true, ne_eq, not_true_eq_false, false_iff, not_exists, not_and]
    intro rule listed routine
    rw [((isRoutine_iff listed).mp routine).1] at judged
    cases judged
  | true =>
    simp only [Bool.not_true, Bool.false_eq_true, if_false]
    split
    next rule found =>
      have listed := List.mem_of_find?_eq_some found
      have follows := List.find?_some found
      exact iff_of_true (rules_reasoned listed) ⟨rule, listed, (isRoutine_iff listed).mpr ⟨judged, follows⟩⟩
    next absent =>
      refine iff_of_false (fun nonempty => nonempty rfl) ?_
      rintro ⟨rule, listed, routine⟩
      exact List.find?_eq_none.mp absent rule listed ((isRoutine_iff listed).mp routine).2

end SshLogger
