import SshLogger.Library.Bytes
import Mathlib.Data.List.Infix

/-! Searching byte strings. A search for an ASCII text cannot tell two strings
apart that differ outside ASCII only, so it finds the same in a string and in
what a text encoder makes of it. -/

namespace Library
namespace Bytes

theorem indexByte_eq_none {byte : UInt8} {text : Bytes} : indexByte byte text = none ↔ byte ∉ text := by
  simp only [indexByte, List.findIdx?_eq_none_iff, beq_eq_false_iff_ne]
  exact ⟨fun none_same member => none_same byte member rfl, fun absent other member same => absent (same ▸ member)⟩

theorem indexByte_first {byte : UInt8} {before : Bytes} (absent : byte ∉ before) (after : Bytes) :
    indexByte byte (before ++ byte :: after) = some before.length := by
  induction before with
  | nil => simp [indexByte, List.findIdx?_cons]
  | cons first rest ih =>
    simp only [List.mem_cons, not_or] at absent
    have later := ih absent.2
    simp only [indexByte] at later
    simp [indexByte, List.findIdx?_cons, Ne.symm absent.1, later]

theorem contains_iff {text part : Bytes} : contains text part = true ↔ part <:+: text := by
  simp only [contains, List.any_eq_true, List.mem_tails, List.isPrefixOf_iff_prefix]
  rw [List.infix_iff_prefix_suffix]
  exact exists_congr fun _ => and_comm

theorem contains_cons {byte : UInt8} {text part : Bytes} :
    contains (byte :: text) part = true ↔ part <+: byte :: text ∨ contains text part = true := by
  rw [contains_iff, contains_iff, List.infix_cons_iff]

theorem lead_bounds {byte low high : UInt8} {size : Nat} (shape : lead byte = some (low, high, size)) :
    2 ≤ size ∧ 0x80 ≤ low ∧ high ≤ 0xBF := by
  unfold lead at shape
  split_ifs at shape <;> cases shape <;> exact ⟨by decide, by decide, by decide⟩

theorem isTail_large {byte : UInt8} (tail : isTail byte = true) : 0x80 ≤ byte := by
  simp only [isTail, Bool.and_eq_true, decide_eq_true_eq] at tail
  exact tail.1

/-- A byte outside ASCII that begins a character is followed by such bytes only. -/
theorem runeTail_split {byte : UInt8} {rest : Bytes} {more : Nat} (found : runeTail byte rest = some more) :
    (more = 0 ∧ byte < 0x80) ∨ (0x80 ≤ byte ∧ ∀ other ∈ rest.take more, isTail other = true) := by
  unfold runeTail at found
  split at found
  next small => exact Or.inl ⟨(Option.some.inj found).symm, small⟩
  next large =>
    refine Or.inr ⟨UInt8.not_lt.mp large, ?_⟩
    split at found
    · cases found
    next low high size shape =>
      split at found
      · cases found
      next second others =>
        split at found
        next fits =>
          simp only [Bool.and_eq_true, decide_eq_true_eq] at fits
          obtain ⟨⟨⟨below, above⟩, _⟩, tails⟩ := fits
          obtain rfl := Option.some.inj found
          obtain ⟨wide, high_enough, low_enough⟩ := lead_bounds shape
          obtain ⟨extra, rfl⟩ : ∃ extra, size = extra + 2 := ⟨size - 2, by omega⟩
          intro other member
          simp only [show extra + 2 - 1 = extra + 1 by omega, List.take_succ_cons, List.mem_cons] at member
          rcases member with rfl | later
          · simp only [isTail, Bool.and_eq_true, decide_eq_true_eq]
            exact ⟨UInt8.le_trans high_enough below, UInt8.le_trans above low_enough⟩
          · exact List.all_eq_true.mp tails other (by simpa using later)
        · cases found

/-- What lies behind the next ASCII byte has no part in a character before it. -/
theorem runeTail_append {byte next : UInt8} (small : next < 0x80) (rest after : Bytes) :
    runeTail byte (rest ++ next :: after) = runeTail byte rest := by
  cases found : runeTail byte rest with
  | some more =>
    have enough := runeTail_le found
    exact runeTail_congr found (by rw [List.take_append_of_le_length enough])
  | none =>
    cases longer : runeTail byte (rest ++ next :: after) with
    | none => rfl
    | some more =>
      have short : more ≤ rest.length := by
        rcases runeTail_split longer with ⟨rfl, _⟩ | ⟨_, large⟩
        · exact Nat.zero_le _
        · refine Nat.not_lt.mp fun past => ?_
          have member : next ∈ (rest ++ next :: after).take more := by
            rw [List.take_append]
            refine List.mem_append_right _ ?_
            obtain ⟨extra, same⟩ := Nat.exists_eq_succ_of_ne_zero (Nat.sub_ne_zero_of_lt past)
            rw [same]
            simp
          exact absurd small (UInt8.not_lt.mpr (isTail_large (large next member)))
      rw [runeTail_congr longer (by rw [List.take_append_of_le_length short])] at found
      cases found

theorem runeTail_size {byte low high : UInt8} {size more : Nat} {rest : Bytes} (large : 0x80 ≤ byte)
    (shape : lead byte = some (low, high, size)) (found : runeTail byte rest = some more) : more = size - 1 := by
  simp only [runeTail, shape, if_neg (UInt8.not_lt.mpr large)] at found
  split at found
  · cases found
  · split at found
    · exact (Option.some.inj found).symm
    · cases found

/-- Induction over the characters of a text and the bytes that belong to none. -/
theorem runes_induction {holds : Bytes → Prop} (nil : holds [])
    (stray : ∀ byte rest, 0x80 ≤ byte → runeTail byte rest = none → holds rest → holds (byte :: rest))
    (ascii : ∀ byte rest, byte < 0x80 → holds rest → holds (byte :: rest))
    (rune : ∀ byte tails rest, 0x80 ≤ byte → (∀ tail ∈ tails, isTail tail = true) →
      runeTail byte (tails ++ rest) = some tails.length → holds rest → holds (byte :: (tails ++ rest)))
    (text : Bytes) : holds text := by
  induction size : text.length using Nat.strong_induction_on generalizing text with
  | _ size ih =>
    cases text with
    | nil => exact nil
    | cons byte rest =>
      simp only [List.length_cons] at size
      cases found : runeTail byte rest with
      | none =>
        refine stray byte rest (UInt8.not_lt.mp fun small => ?_) found (ih _ (by omega) rest rfl)
        simp [runeTail, small] at found
      | some more =>
        rcases runeTail_split found with ⟨_, small⟩ | ⟨large, tails⟩
        · exact ascii byte rest small (ih _ (by omega) rest rfl)
        · have whole := rune byte (rest.take more) (rest.drop more) large tails
          rw [List.take_append_drop, List.length_take_of_le (runeTail_le found)] at whole
          exact whole found (ih _ (by simp; omega) _ rfl)

theorem coerce_stray {byte : UInt8} {rest : Bytes} (stray : runeTail byte rest = none) :
    coerce (byte :: rest) = replacement ++ coerce rest := by
  simp [coerce, coerceFrom, stray]

theorem coerce_cons {byte : UInt8} (small : byte < 0x80) (rest : Bytes) : coerce (byte :: rest) = byte :: coerce rest := by
  simp [coerce, coerceFrom, runeTail, small]

theorem coerceFrom_append (tails rest : Bytes) : coerceFrom tails.length (tails ++ rest) = tails ++ coerceFrom 0 rest := by
  induction tails with
  | nil => rfl
  | cons tail tails ih => simp [coerceFrom, ih]

theorem coerce_rune {byte : UInt8} {tails rest : Bytes} (found : runeTail byte (tails ++ rest) = some tails.length) :
    coerce (byte :: (tails ++ rest)) = byte :: (tails ++ coerce rest) := by
  simp [coerce, coerceFrom, found, coerceFrom_append]

/-- An ASCII byte splits a text for the encoder. -/
theorem coerce_split {next : UInt8} (small : next < 0x80) (before after : Bytes) :
    coerce (before ++ next :: after) = coerce before ++ next :: coerce after := by
  induction before using runes_induction with
  | nil => exact coerce_cons small after
  | stray byte rest _ found ih =>
    rw [List.cons_append, coerce_stray ((runeTail_append small rest after).trans found), coerce_stray found, ih,
      List.append_assoc]
  | ascii byte rest other ih => rw [List.cons_append, coerce_cons other, coerce_cons other, ih, List.cons_append]
  | rune byte tails rest _ _ found ih =>
    have longer : runeTail byte (tails ++ (rest ++ next :: after)) = some tails.length := by
      rw [← List.append_assoc, runeTail_append small, found]
    rw [coerce_rune found, List.cons_append, List.append_assoc, coerce_rune longer, ih, List.cons_append, List.append_assoc]

theorem mem_coerce {next : UInt8} (small : next < 0x80) {text : Bytes} : next ∈ coerce text ↔ next ∈ text := by
  induction text using runes_induction with
  | nil => rfl
  | stray byte rest large found ih =>
    have other : next ≠ byte := fun same => absurd small (UInt8.not_lt.mpr (same ▸ large))
    have fresh : next ∉ replacement := by
      intro member
      simp only [replacement, List.mem_cons, List.not_mem_nil, or_false] at member
      rcases member with rfl | rfl | rfl <;> exact absurd small (by decide)
    rw [coerce_stray found, List.mem_append, List.mem_cons, ih]
    simp [other, fresh]
  | ascii byte rest _ ih => rw [coerce_cons ‹_›, List.mem_cons, List.mem_cons, ih]
  | rune byte tails rest _ _ found ih => rw [coerce_rune found]; simp [ih]

/-- Two strings that differ in runs of bytes outside ASCII only. -/
inductive AsciiAlike : Bytes → Bytes → Prop
  | nil : AsciiAlike [] []
  | ascii (byte first second) : AsciiAlike first second → AsciiAlike (byte :: first) (byte :: second)
  | other (run run' first second) : run ≠ [] → run' ≠ [] → (∀ byte ∈ run, 0x80 ≤ byte) → (∀ byte ∈ run', 0x80 ≤ byte) →
      AsciiAlike first second → AsciiAlike (run ++ first) (run' ++ second)

theorem not_prefix_of_large {byte : UInt8} {part rest : Bytes} (nonempty : part ≠ []) (plain : IsAscii part)
    (large : 0x80 ≤ byte) : ¬part <+: byte :: rest := by
  cases part with
  | nil => exact absurd rfl nonempty
  | cons first part =>
    intro starts
    obtain ⟨rfl, _⟩ := List.cons_prefix_cons.mp starts
    exact absurd (plain first List.mem_cons_self) (UInt8.not_lt.mpr large)

theorem AsciiAlike.prefix_iff {first second part : Bytes} (alike : AsciiAlike first second) (plain : IsAscii part) :
    part <+: first ↔ part <+: second := by
  induction alike generalizing part with
  | nil => rfl
  | ascii byte first second _ ih =>
    cases part with
    | nil => simp
    | cons head part =>
      rw [List.cons_prefix_cons, List.cons_prefix_cons, ih fun other member => plain other (List.mem_cons_of_mem _ member)]
  | other run run' first second some some' large large' _ _ =>
    by_cases empty : part = []
    · simp [empty]
    · cases run with
      | nil => exact absurd rfl some
      | cons byte run =>
        cases run' with
        | nil => exact absurd rfl some'
        | cons byte' run' =>
          have left := @not_prefix_of_large byte part (run ++ first) empty plain (large byte List.mem_cons_self)
          have right := @not_prefix_of_large byte' part (run' ++ second) empty plain (large' byte' List.mem_cons_self)
          exact iff_of_false left right

theorem contains_run {run text part : Bytes} (nonempty : part ≠ []) (plain : IsAscii part)
    (large : ∀ byte ∈ run, 0x80 ≤ byte) : contains (run ++ text) part = true ↔ contains text part = true := by
  induction run with
  | nil => rfl
  | cons byte run ih =>
    rw [List.cons_append, contains_cons, ih fun other member => large other (List.mem_cons_of_mem _ member)]
    exact or_iff_right (not_prefix_of_large nonempty plain (large byte List.mem_cons_self))

/-- An ASCII text occurs in both or in neither. -/
theorem AsciiAlike.contains {first second part : Bytes} (alike : AsciiAlike first second) (nonempty : part ≠ [])
    (plain : IsAscii part) : Bytes.contains first part = Bytes.contains second part := by
  rw [Bool.eq_iff_iff]
  induction alike with
  | nil => rfl
  | ascii byte first second inner ih =>
    rw [contains_cons, contains_cons, ih, (inner.ascii byte).prefix_iff plain]
  | other run run' first second _ _ large large' _ ih =>
    rw [contains_run nonempty plain large, contains_run nonempty plain large', ih]

end Bytes
end Library
