import SshLogger.Library.Bytes

/-! Newline-terminated lines of a growing text. A reader sees the complete lines
only; an unterminated tail is not a line until its newline has been written. -/

namespace Library.Lines
open Library

def newline : UInt8 := 10

/-- The complete lines of a text, each with its newline. -/
def completeLines : Bytes → List Bytes
  | [] => []
  | byte :: rest =>
    if byte = newline then [byte] :: completeLines rest
    else match completeLines rest with
      | [] => []
      | line :: lines => (byte :: line) :: lines

/-- What follows the last newline. -/
def unterminated : Bytes → Bytes
  | [] => []
  | byte :: rest =>
    if byte ≠ newline ∧ completeLines rest = [] then byte :: rest else unterminated rest

theorem completeLines_append_unterminated (text : Bytes) :
    (completeLines text).flatten ++ unterminated text = text := by
  induction text with
  | nil => rfl
  | cons byte rest ih =>
    by_cases terminator : byte = newline
    · simp [completeLines, unterminated, terminator, ih]
    · cases lines : completeLines rest with
      | nil => simp [completeLines, unterminated, terminator, lines]
      | cons line others =>
        simpa [completeLines, unterminated, terminator, lines] using ih

def IsLine (line : Bytes) : Prop := ∃ body, line = body ++ [newline] ∧ newline ∉ body

theorem completeLines_line_append {line : Bytes} (shape : IsLine line) (text : Bytes) :
    completeLines (line ++ text) = line :: completeLines text := by
  obtain ⟨body, rfl, absent⟩ := shape
  induction body with
  | nil => simp [completeLines]
  | cons byte body ih =>
    simp only [List.mem_cons, not_or] at absent
    have later := ih absent.2
    simp only [List.append_assoc, List.singleton_append] at later
    simp [completeLines, Ne.symm absent.1, later]

theorem completeLines_flatten_append {lines : List Bytes} (shapes : ∀ line ∈ lines, IsLine line) (text : Bytes) :
    completeLines (lines.flatten ++ text) = lines ++ completeLines text := by
  induction lines with
  | nil => rfl
  | cons line lines ih =>
    simp only [List.flatten_cons, List.append_assoc, List.cons_append]
    rw [completeLines_line_append (shapes line (by simp)), ih (fun other member => shapes other (by simp [member]))]

theorem isLine_of_mem {text line : Bytes} (member : line ∈ completeLines text) : IsLine line := by
  induction text generalizing line with
  | nil => simp [completeLines] at member
  | cons byte rest ih =>
    by_cases terminator : byte = newline
    · simp only [completeLines, terminator, if_true, List.mem_cons] at member
      rcases member with rfl | member
      · exact ⟨[], rfl, by simp⟩
      · exact ih member
    · cases lines : completeLines rest with
      | nil => simp [completeLines, terminator, lines] at member
      | cons first others =>
        simp only [completeLines, terminator, if_false, lines, List.mem_cons] at member
        rcases member with rfl | member
        · obtain ⟨body, rfl, absent⟩ := @ih first (by simp [lines])
          exact ⟨byte :: body, rfl, by simp [absent, Ne.symm terminator]⟩
        · exact ih (by simp [lines, member])

theorem completeLines_ne_nil {text line : Bytes} (member : line ∈ completeLines text) : line ≠ [] := by
  obtain ⟨body, rfl, -⟩ := isLine_of_mem member
  exact List.append_ne_nil_of_right_ne_nil _ (List.cons_ne_nil _ _)

/-- The complete lines of a text do not depend on what is written after it. -/
theorem completeLines_append (text more : Bytes) :
    completeLines (text ++ more) = completeLines text ++ completeLines (unterminated text ++ more) := by
  have whole := completeLines_append_unterminated text
  calc completeLines (text ++ more)
      = completeLines ((completeLines text).flatten ++ (unterminated text ++ more)) := by
        rw [← List.append_assoc, whole]
    _ = completeLines text ++ completeLines (unterminated text ++ more) :=
        completeLines_flatten_append (fun _ => isLine_of_mem) _

theorem completeLines_unterminated (text : Bytes) : completeLines (unterminated text) = [] := by
  simpa using completeLines_append text []

private theorem drop_of_append {whole first rest : Bytes} (split : whole = first ++ rest) :
    whole.drop first.length = rest := by
  subst split
  exact List.drop_left

/-- Seeking past the first lines leaves the other ones to read. -/
theorem completeLines_drop (text : Bytes) (count : Nat) :
    completeLines (text.drop ((completeLines text).take count).flatten.length) = (completeLines text).drop count := by
  have split : text = ((completeLines text).take count).flatten ++
      (((completeLines text).drop count).flatten ++ unterminated text) := by
    rw [← List.append_assoc, ← List.flatten_append, List.take_append_drop, completeLines_append_unterminated]
  have rest : text.drop ((completeLines text).take count).flatten.length =
      ((completeLines text).drop count).flatten ++ unterminated text :=
    drop_of_append split
  rw [rest, completeLines_flatten_append (fun line member => isLine_of_mem (List.mem_of_mem_drop member)),
    completeLines_unterminated, List.append_nil]

theorem flatten_length_le (text : Bytes) (count : Nat) :
    ((completeLines text).take count).flatten.length ≤ text.length := by
  have whole := congrArg List.length (completeLines_append_unterminated text)
  have split := congrArg List.length (congrArg List.flatten (List.take_append_drop count (completeLines text)))
  simp only [List.flatten_append, List.length_append] at whole split
  omega

/-- Reading from the middle of a text meets no longer and no more lines. -/
theorem completeLines_drop_le (text : Bytes) (count : Nat) :
    (completeLines (text.drop count)).length ≤ (completeLines text).length ∧
      ∀ line ∈ completeLines (text.drop count), ∃ whole ∈ completeLines text, line.length ≤ whole.length := by
  induction text generalizing count with
  | nil => simp [completeLines]
  | cons byte rest ih =>
    cases count with
    | zero => exact ⟨Nat.le_refl _, fun line member => ⟨line, member, Nat.le_refl _⟩⟩
    | succ count =>
      obtain ⟨fewer, shorter⟩ := ih count
      simp only [List.drop_succ_cons, completeLines]
      split
      · refine ⟨by simp only [List.length_cons]; omega, fun line member => ?_⟩
        obtain ⟨whole, inside, le⟩ := shorter line member
        exact ⟨whole, by simp [inside], le⟩
      · cases lines : completeLines rest with
        | nil => simp_all
        | cons first others =>
          rw [lines] at fewer shorter
          refine ⟨by simpa using fewer, fun line member => ?_⟩
          obtain ⟨whole, inside, le⟩ := shorter line member
          rcases List.mem_cons.mp inside with rfl | inside
          · exact ⟨byte :: whole, by simp, by simp only [List.length_cons]; omega⟩
          · exact ⟨whole, by simp [inside], le⟩

end Library.Lines
