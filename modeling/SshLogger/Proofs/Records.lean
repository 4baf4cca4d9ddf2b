import SshLogger.Parser

/-! What the events of a group depend on: the id and the time its records share,
each record for the SSH events, and the system call and argument records for the
command event. -/

namespace SshLogger
open Library Library.Bytes

theorem digitsThen_digits {stop : Char} {text run rest : Bytes} (matched : digitsThen stop text = some (run, rest)) :
    run ≠ [] ∧ ∀ byte ∈ run, isDigit byte = true := by
  simp only [digitsThen] at matched
  split at matched
  · split at matched
    next shape =>
      obtain ⟨rfl, -⟩ := Prod.mk.inj (Option.some.inj matched)
      simp only [Bool.and_eq_true, Bool.not_eq_true', List.isEmpty_eq_false_iff] at shape
      exact ⟨shape.1, fun byte member => List.all_eq_true.mp List.all_takeWhile byte member⟩
    next => cases matched
  · cases matched

def IsStamp (stamp : Bytes × Bytes × Bytes) : Prop :=
  ∀ part ∈ [stamp.1, stamp.2.1, stamp.2.2], part ≠ [] ∧ ∀ byte ∈ part, isDigit byte = true

theorem matchStamp_digits {text : Bytes} {stamp : Bytes × Bytes × Bytes} (matched : matchStamp text = some stamp) :
    IsStamp stamp := by
  simp only [matchStamp] at matched
  split at matched
  · simp only [Option.bind_eq_bind, Option.bind_eq_some_iff, Option.pure_def, Option.some.injEq] at matched
    obtain ⟨⟨sec, _⟩, first, ⟨ms, _⟩, second, ⟨serial, _⟩, third, rfl⟩ := matched
    simpa [IsStamp] using ⟨digitsThen_digits first, digitsThen_digits second, digitsThen_digits third⟩
  · cases matched

theorem findStamp_digits {text : Bytes} {stamp : Bytes × Bytes × Bytes} (matched : findStamp text = some stamp) :
    IsStamp stamp := by
  induction text with
  | nil => cases matched
  | cons byte rest ih =>
    simp only [findStamp] at matched
    split at matched
    next here =>
      obtain rfl := Option.some.inj matched
      exact matchStamp_digits here
    · split at matched
      · cases matched
      · exact ih matched

theorem matchKind_digits {length : Nat} {text kind : Bytes} {stamp : Bytes × Bytes × Bytes}
    (matched : matchKind length text = some (kind, stamp)) : IsStamp stamp := by
  induction length with
  | zero => cases matched
  | succ length ih =>
    simp only [matchKind] at matched
    split at matched
    next here =>
      obtain ⟨-, rfl⟩ := Prod.mk.inj (Option.some.inj matched)
      exact findStamp_digits here
    · exact ih matched

theorem matchHeader_digits {text kind : Bytes} {stamp : Bytes × Bytes × Bytes}
    (matched : matchHeader text = some (kind, stamp)) : IsStamp stamp := by
  induction text with
  | nil => cases matched
  | cons byte rest ih =>
    simp only [matchHeader] at matched
    split at matched
    next here =>
      obtain rfl := Option.some.inj matched
      split at here
      · exact matchKind_digits here
      · cases here
    · exact ih matched

theorem takeWhile_digits {run rest : Bytes} {stop : UInt8} (digits : ∀ byte ∈ run, isDigit byte = true)
    (other : isDigit stop = false) :
    (run ++ stop :: rest).takeWhile isDigit = run ∧ (run ++ stop :: rest).dropWhile isDigit = stop :: rest := by
  rw [List.takeWhile_append_of_pos digits, List.dropWhile_append_of_pos digits]
  simp [other]

def stampTime (id : Bytes) : Int :=
  let sec := id.takeWhile isDigit
  let ms := ((id.dropWhile isDigit).drop 1).takeWhile isDigit
  Int.bmod (parseIntSaturating sec * 1000 + parseIntSaturating ((ms ++ utf8 "000").take 3)) (2 ^ 64)

/-- A record's time is part of its id. -/
theorem parseRecord_time {line : Bytes} {r : Record} (parsed : parseRecord line = some r) : r.time = stampTime r.id := by
  simp only [parseRecord] at parsed
  split at parsed
  · cases parsed
  next kind sec ms serial header =>
    obtain rfl := Option.some.inj parsed
    have digits := matchHeader_digits header
    have first := @takeWhile_digits _ (ms ++ ascii ':' :: serial) _ (digits sec (by simp)).2
      (show isDigit (ascii '.') = false by decide)
    have second := @takeWhile_digits _ serial _ (digits ms (by simp)).2
      (show isDigit (ascii ':') = false by decide)
    simp only [stampTime, List.append_assoc, List.cons_append, first, List.drop_succ_cons, List.drop_zero, second]

def Alike (rows : List Record) : Prop := ∀ a ∈ rows, ∀ b ∈ rows, a.id = b.id ∧ a.time = b.time

theorem sshEvent_alike {first second : Record} (id : first.id = second.id) (time : first.time = second.time)
    (boot : Bytes) (lookup : Bytes → Bytes) (r : Record) :
    sshEvent first boot lookup r = sshEvent second boot lookup r := by
  simp only [sshEvent, baseEvent, id, time]

/-- The records the command event is made of. -/
def isExecRecord (r : Record) : Bool := isKind "SYSCALL" r || isKind "EXECVE" r

def hasExec (rows : List Record) : Bool := rows.any (isKind "SYSCALL") && rows.any (isKind "EXECVE")

theorem execEvent_eq_none {first : Record} {boot : Bytes} {lookup : Bytes → Bytes} {rows : List Record}
    (lacking : hasExec rows = false) : execEvent first boot lookup rows = none := by
  simp only [hasExec, Bool.and_eq_false_iff] at lacking
  simp only [execEvent]
  rcases lacking with noCall | noArgs
  · have empty : rows.filter (isKind "SYSCALL") = [] := by simpa [List.filter_eq_nil_iff] using noCall
    rw [empty]
    split <;> rfl
  · simp [noArgs]

private theorem filter_isExecRecord {kind : String} (part : ∀ r, isKind kind r = true → isExecRecord r = true)
    (rows : List Record) : (rows.filter isExecRecord).filter (isKind kind) = rows.filter (isKind kind) := by
  rw [List.filter_filter]
  apply List.filter_congr
  intro r _
  cases chosen : isKind kind r with
  | false => rfl
  | true => simp [part r chosen]

private theorem any_of_filter {α : Type} {p : α → Bool} {first second : List α} (same : first.filter p = second.filter p) :
    first.any p = second.any p := by
  rw [Bool.eq_iff_iff]
  simp only [List.any_eq_true]
  constructor
  · rintro ⟨x, member, chosen⟩
    exact ⟨x, List.mem_of_mem_filter (same ▸ List.mem_filter.mpr ⟨member, chosen⟩), chosen⟩
  · rintro ⟨x, member, chosen⟩
    exact ⟨x, List.mem_of_mem_filter (same ▸ List.mem_filter.mpr ⟨member, chosen⟩), chosen⟩

theorem execEvent_congr {first second : Record} {boot : Bytes} {lookup : Bytes → Bytes} {rows others : List Record}
    (id : first.id = second.id) (time : first.time = second.time)
    (same : rows.filter isExecRecord = others.filter isExecRecord) :
    execEvent first boot lookup rows = execEvent second boot lookup others := by
  have calls : rows.filter (isKind "SYSCALL") = others.filter (isKind "SYSCALL") := by
    rw [← filter_isExecRecord (fun r chosen => by simp [isExecRecord, chosen]), same,
      filter_isExecRecord (fun r chosen => by simp [isExecRecord, chosen])]
  have arguments : rows.filter (isKind "EXECVE") = others.filter (isKind "EXECVE") := by
    rw [← filter_isExecRecord (fun r chosen => by simp [isExecRecord, chosen]), same,
      filter_isExecRecord (fun r chosen => by simp [isExecRecord, chosen])]
  simp only [execEvent, execArgs, baseEvent, calls, arguments, any_of_filter arguments, id, time]

/-- The events of a group: those of its records, and its command. -/
theorem mem_eventsFor {rows : List Record} {boot : Bytes} {lookup : Bytes → Bytes} {ev : Event} (alike : Alike rows) :
    ev ∈ eventsFor rows boot lookup ↔ (∃ r ∈ rows, sshEvent r boot lookup r = some ev) ∨
      ∃ r ∈ rows, execEvent r boot lookup rows = some ev := by
  cases rows with
  | nil => simp [eventsFor]
  | cons first rest =>
    have same : ∀ r ∈ first :: rest, first.id = r.id ∧ first.time = r.time := fun r member => alike first (by simp) r member
    simp only [eventsFor, List.mem_append, List.mem_filterMap, Option.mem_toList]
    constructor
    · rintro (⟨r, member, made⟩ | made)
      · exact Or.inl ⟨r, member, (sshEvent_alike (same r member).1 (same r member).2 boot lookup r) ▸ made⟩
      · exact Or.inr ⟨first, by simp, made⟩
    · rintro (⟨r, member, made⟩ | ⟨r, member, made⟩)
      · exact Or.inl ⟨r, member, (sshEvent_alike (same r member).1 (same r member).2 boot lookup r).trans made⟩
      · exact Or.inr ((execEvent_congr (same r member).1 (same r member).2 rfl).trans made)

end SshLogger
