import SshLogger.Proofs.AuditText
import SshLogger.Proofs.Reassembly

/-! The event of a command from the lines that record it. The argument records
may carry the parts of the arguments in any order; the identity of the process
comes from the system call record alone. -/

namespace SshLogger
open Library Library.Bytes

theorem lookup_fieldMap (entries : List (Bytes × Bytes)) (key : Bytes) :
    (fieldMap entries).lookup key = entries.reverse.lookup key := by
  induction entries using List.reverseRecOn with
  | nil => rfl
  | append_singleton entries entry ih =>
    rw [fieldMap, List.foldl_append, List.foldl_cons, List.foldl_nil, lookup_assign, List.reverse_append,
      List.reverse_singleton, List.singleton_append, lookup_entry, ← ih, fieldMap]

theorem distinct_fieldMap (entries : List (Bytes × Bytes)) : Distinct (fieldMap entries) :=
  Distinct.foldl_assign (show Distinct [] from List.nodup_nil) id entries

theorem mem_of_fieldMap {entries : List (Bytes × Bytes)} {key value : Bytes}
    (held : (key, value) ∈ fieldMap entries) : (key, value) ∈ entries := by
  rw [(distinct_fieldMap entries).mem_iff, lookup_fieldMap] at held
  exact List.mem_reverse.mp (mem_of_lookup held)

theorem key_mem_fieldMap {entries : List (Bytes × Bytes)} {key value : Bytes} (written : (key, value) ∈ entries) :
    ∃ last, (key, last) ∈ fieldMap entries := by
  have found : (entries.reverse.lookup key).isSome :=
    List.lookup_isSome_iff.mpr ⟨_, List.mem_reverse.mpr written, by simp⟩
  obtain ⟨last, held⟩ := Option.isSome_iff_exists.mp found
  exact ⟨last, (distinct_fieldMap entries).mem_iff.mpr (by rw [lookup_fieldMap, held])⟩

/-- How a part is written. Its numbers fit in an `int`. -/
inductive Writes : Part → Field → Prop
  | whole {number : Nat} {value field} : number < 2 ^ 63 → field.key = ascii 'a' :: numeral number →
      Spells value field.word → field.tail = [] → Writes (.whole number value) field
  | chunk {number place : Nat} {value field} : number < 2 ^ 63 → place < 2 ^ 63 →
      field.key = ascii 'a' :: (numeral number ++ ascii '[' :: (numeral place ++ [ascii ']'])) →
      Spells value field.word → field.tail = [] → Writes (.chunk number place value) field

theorem parseIntSaturating_numeral {value : Nat} (small : value < 2 ^ 63) :
    parseIntSaturating (numeral value) = value := by
  have digits := numeral_digits value
  simp only [parseIntSaturating, digits.1, digits.2, List.isEmpty_eq_false_iff.mpr (numeral_ne_nil value), Bool.not_true,
    Bool.or_self, Bool.false_eq_true, if_false]
  omega

theorem partOf_writes {part : Part} {field : Field} (writes : Writes part field) : partOf field.entry = some part := by
  cases writes with
  | @whole number value field small key spells _ =>
    have index : argIndex field.key = some (number : Int) := by
      rw [key, argIndex]
      simp only [beq_self_eq_true, List.isEmpty_eq_false_iff.mpr (numeral_ne_nil number), (numeral_digits number).1,
        parseIntSaturating_numeral small, Bool.not_false, Bool.and_self, if_true]
    simp only [partOf, Field.entry, index, auditString_of_spells spells]
  | @chunk number place value field small little key spells _ =>
    have index : argIndex field.key = none := by
      rw [key, argIndex]
      refine if_neg fun matched => ?_
      simp only [Bool.and_eq_true, List.all_eq_true] at matched
      exact absurd (matched.2 (ascii '[') (by simp)) (by decide)
    have chunk : chunkIndex field.key = some ((number : Int), (place : Int)) := by
      have first := digitsThen_run ⟨numeral_ne_nil number, fun _ => isDigit_numeral⟩
        (by decide : isDigit (ascii '[') = false) (numeral place ++ [ascii ']'])
      have second := digitsThen_run ⟨numeral_ne_nil place, fun _ => isDigit_numeral⟩
        (by decide : isDigit (ascii ']') = false) []
      rw [key, chunkIndex]
      simp only [beq_self_eq_true, if_true, first, second, Option.bind_eq_bind, Option.bind_some, List.isEmpty_nil,
        parseIntSaturating_numeral small, parseIntSaturating_numeral little]
    simp only [partOf, Field.entry, index, chunk, auditString_of_spells spells, Option.map_some]

theorem read_writes {parts : List Part} {written : List Field} (writes : List.Forall₂ Writes parts written) :
    written.filterMap (fun field => partOf field.entry) = parts := by
  induction writes with
  | nil => rfl
  | cons first _ ih => simp only [List.filterMap_cons, partOf_writes first, ih]

/-- Between them the argument records have the fields of the arguments, and
otherwise only fields that number no argument, such as `argc` and `a3_len`. -/
def Carries (execs : List (List Field)) (pieces : List Piece) : Prop :=
  ∃ written extras, List.Forall₂ Writes (partsOf pieces) written ∧ execs.flatten.Perm (written ++ extras) ∧
    ∀ field ∈ extras, argIndex field.key = none ∧ chunkIndex field.key = none

def syscallLine (fields : List Field) : Line := ⟨utf8 "SYSCALL", fields, run_of_all rfl⟩

def execveLine (fields : List Field) : Line := ⟨utf8 "EXECVE", fields, run_of_all rfl⟩

/-- The parts of all argument fields are those of the arguments. -/
theorem Carries.mem_partsOf {execs : List (List Field)} {pieces : List Piece} (carries : Carries execs pieces)
    {part : Part} : part ∈ partsOf pieces ↔ ∃ fields ∈ execs, ∃ field ∈ fields, partOf field.entry = some part := by
  obtain ⟨written, extras, writes, all, unnumbered⟩ := carries
  have dropped : extras.filterMap (fun field => partOf field.entry) = [] := by
    refine List.filterMap_eq_nil_iff.mpr fun field member => ?_
    simp [partOf, Field.entry, unnumbered field member]
  have permuted := all.filterMap fun field => partOf field.entry
  rw [List.filterMap_append, read_writes writes, dropped, List.append_nil] at permuted
  rw [← permuted.mem_iff, List.mem_filterMap]
  simp only [List.mem_flatten]
  constructor
  · rintro ⟨field, ⟨fields, among, member⟩, numbered⟩
    exact ⟨fields, among, field, member, numbered⟩
  · rintro ⟨fields, among, field, member, numbered⟩
    exact ⟨field, ⟨fields, among, member⟩, numbered⟩

theorem Carries.exists_mem {execs : List (List Field)} {pieces : List Piece} (carries : Carries execs pieces)
    (nonempty : pieces ≠ []) : ∃ fields, fields ∈ execs := by
  obtain ⟨piece, others, rfl⟩ := List.exists_cons_of_ne_nil nonempty
  have some : ∃ part, part ∈ partsOf (piece :: others) := by
    cases piece with
    | whole argument => exact ⟨_, whole_mem_partsOf.mpr ⟨0, rfl, rfl⟩⟩
    | chunked first rest => exact ⟨_, chunk_mem_partsOf.mpr ⟨0, first, rest, rfl, rfl, mem_numbered.mpr ⟨0, rfl, rfl⟩⟩⟩
  obtain ⟨part, listed⟩ := some
  obtain ⟨fields, member, -⟩ := carries.mem_partsOf.mp listed
  exact ⟨fields, member⟩

/-- A later value of the same key is a part with the same numbers. -/
theorem partOf_key {key first : Bytes} (second : Bytes) {part : Part} (numbered : partOf (key, first) = some part) :
    ∃ other, partOf (key, second) = some other ∧
      ∀ {parts}, Coherent parts → part ∈ parts → other ∈ parts → other = part := by
  simp only [partOf] at numbered ⊢
  cases index : argIndex key with
  | some number =>
    simp only [index, Option.some.injEq] at numbered
    subst numbered
    refine ⟨_, rfl, fun coherent one two => ?_⟩
    rw [coherent.whole number _ _ two one]
  | none =>
    simp only [index, Option.map_eq_some_iff] at numbered
    obtain ⟨place, chunked, rfl⟩ := numbered
    refine ⟨_, by rw [chunked, Option.map_some], fun coherent one two => ?_⟩
    rw [coherent.chunk place.1 place.2 _ _ two one]

def execveEntries (stamp : Stamp) (fields : List Field) : List (Bytes × Bytes) := ((execveLine fields).record stamp).fields

/-- Only the record's own fields number an argument, not those of its header. -/
theorem field_of_execveEntries {stamp : Stamp} {fields : List Field} {entry : Bytes × Bytes} {part : Part}
    (held : entry ∈ execveEntries stamp fields) (numbered : partOf entry = some part) :
    ∃ field ∈ fields, field.entry = entry := by
  obtain ⟨key, value⟩ := entry
  have written := mem_of_fieldMap held
  simp only [Line.entries, List.mem_cons, Prod.mk.injEq] at written
  obtain ⟨rfl, rfl⟩ | ⟨rfl, rfl⟩ | member := written
  · cases numbered
  · cases numbered
  · exact List.mem_map.mp member

theorem Carries.of_entry {execs : List (List Field)} {pieces : List Piece} (carries : Carries execs pieces)
    {stamp : Stamp} {part : Part} {fields : List Field} (among : fields ∈ execs) {entry : Bytes × Bytes}
    (held : entry ∈ execveEntries stamp fields) (numbered : partOf entry = some part) : part ∈ partsOf pieces := by
  obtain ⟨field, member, rfl⟩ := field_of_execveEntries held numbered
  exact carries.mem_partsOf.mpr ⟨fields, among, field, member, numbered⟩

/-- The field map of a record loses no part: what overwrites one says the same. -/
theorem Carries.mem_entries {execs : List (List Field)} {pieces : List Piece} (carries : Carries execs pieces)
    (stamp : Stamp) {part : Part} :
    part ∈ partsOf pieces ↔ ∃ fields ∈ execs, ∃ entry ∈ execveEntries stamp fields, partOf entry = some part := by
  constructor
  · intro listed
    obtain ⟨fields, among, field, member, numbered⟩ := carries.mem_partsOf.mp listed
    obtain ⟨last, held⟩ := key_mem_fieldMap (Line.mem_entries (show field ∈ (execveLine fields).fields from member) stamp)
    obtain ⟨other, reread, same⟩ := partOf_key last numbered
    have also := carries.of_entry among held reread
    rw [same (coherent_partsOf pieces) listed also] at reread
    exact ⟨fields, among, _, held, reread⟩
  · rintro ⟨fields, among, entry, held, numbered⟩
    exact carries.of_entry among held numbered

/-- The arguments of the records, in whatever order their fields came. -/
theorem execArgs_carries {execs : List (List Field)} {pieces : List Piece} (carries : Carries execs pieces)
    (stamp : Stamp) {records : List Record}
    (among : ∀ r, r ∈ records.filter (isKind "EXECVE") ↔ ∃ fields ∈ execs, r = (execveLine fields).record stamp) :
    execArgs records = pieces.map Piece.argument := by
  have folded : ∀ (entries : List (Bytes × Bytes)) maps,
      entries.foldl addArg maps = (entries.filterMap partOf).foldl Part.add maps := by
    intro entries maps
    rw [List.foldl_filterMap]
    congr
    funext maps entry
    rw [addArg_eq]
    cases partOf entry <;> rfl
  have values : execArgs records =
      ((((records.filter (isKind "EXECVE")).flatMap Record.fields).filterMap partOf).foldl Part.add ⟨[], []⟩).values := by
    rw [← folded]
    rfl
  rw [values]
  refine values_parts fun part => ?_
  rw [carries.mem_entries stamp, List.mem_filterMap]
  simp only [List.mem_flatMap, among]
  constructor
  · rintro ⟨entry, ⟨_, ⟨fields, member, rfl⟩, held⟩, numbered⟩
    exact ⟨fields, member, entry, held, numbered⟩
  · rintro ⟨fields, member, entry, held, numbered⟩
    exact ⟨entry, ⟨_, ⟨fields, member, rfl⟩, held⟩, numbered⟩

structure Caller where
  pid : Nat
  auid : Nat
  ses : Nat
  exe : Bytes
  process : 0 < pid ∧ pid < 2 ^ 31
  login : auid ≠ 4294967295 ∧ ses ≠ 4294967295

structure Describes (fields : List Field) (caller : Caller) : Prop where
  once : (fields.map Field.key).Nodup
  pid : ∃ field ∈ fields, field.key = utf8 "pid" ∧ field.word = numeral caller.pid
  auid : ∃ field ∈ fields, field.key = utf8 "auid" ∧ field.word = numeral caller.auid
  ses : ∃ field ∈ fields, field.key = utf8 "ses" ∧ field.word = numeral caller.ses
  exe : ∃ field ∈ fields, field.key = utf8 "exe" ∧ Spells caller.exe field.word

theorem Line.record_field {line : Line} (once : (line.fields.map Field.key).Nodup) {field : Field}
    (member : field ∈ line.fields) {name : String} (named : field.key = utf8 name)
    (body : utf8 name ≠ utf8 "type" ∧ utf8 name ≠ utf8 "msg") (stamp : Stamp) :
    (line.record stamp).field name = field.word := by
  obtain ⟨last, held⟩ := key_mem_fieldMap (Line.mem_entries member stamp)
  have written := mem_of_fieldMap held
  rw [named] at held written
  have found := (distinct_fieldMap _).mem_iff.mp held
  simp only [Line.entries, List.mem_cons, Prod.mk.injEq, body.1, body.2, false_and, false_or] at written
  obtain ⟨other, also, same⟩ := List.mem_map.mp written
  obtain ⟨key, rfl⟩ := Prod.mk.inj same
  obtain rfl := List.inj_on_of_nodup_map once also member (key.trans named.symm)
  rw [Record.field]
  exact congrArg (Option.getD · []) found

theorem val_numeral (value : Nat) : val (numeral value) = numeral value := by
  refine trim_kept fun byte member => ?_
  have digit := isDigit_numeral member
  simp only [List.mem_singleton]
  rintro rfl
  exact absurd digit (by decide)

theorem processID_numeral {pid : Nat} (process : 0 < pid ∧ pid < 2 ^ 31) : processID (numeral pid) 1 = some pid := by
  have read : parseInt (numeral pid) 32 = some (pid : Int) := parseInt_numeral (by omega)
  simp only [processID, val_numeral, read]
  exact if_neg (by omega)

theorem numeral_set {value : Nat} (set : value ≠ 4294967295) :
    numeral value ≠ utf8 "4294967295" ∧ numeral value ≠ utf8 "-1" := by
  refine ⟨fun same => set (numeral_injective (same.trans rfl)), fun same => ?_⟩
  have digit : isDigit (ascii '-') = true := isDigit_numeral (show ascii '-' ∈ numeral value by rw [same]; decide)
  exact absurd digit (by decide)

theorem sessionID_numeral {ses : Nat} (set : ses ≠ 4294967295) (boot : Bytes) :
    sessionID boot (numeral ses) = boot ++ ascii ':' :: numeral ses := by
  have proper := numeral_set set
  refine if_neg ?_
  simp [numeral_ne_nil, proper.1, proper.2]

def loginKinds : List Bytes := [utf8 "USER_START", utf8 "USER_END", utf8 "USER_AUTH", utf8 "USER_LOGIN"]

theorem sshEvent_other {first r : Record} {boot : Bytes} {lookup : Bytes → Bytes} (other : r.kind ∉ loginKinds) :
    sshEvent first boot lookup r = none := by
  simp only [loginKinds, List.mem_cons, List.not_mem_nil, or_false, not_or] at other
  have silent : ∀ outcome, sshKind r outcome = none := by
    intro outcome
    simp [sshKind, other]
  simp [sshEvent, silent]

/-- The lines of one command: a system call record, argument records, and
records of other types, such as the working directory and the paths. -/
def Recorded (caller : Caller) (pieces : List Piece) (lines : List Line) : Prop :=
  ∃ call execs others, lines.Perm (syscallLine call :: (execs.map execveLine ++ others)) ∧ Describes call caller ∧
    Carries execs pieces ∧ ∀ line ∈ others, line.kind ∉ utf8 "SYSCALL" :: utf8 "EXECVE" :: loginKinds

/-- What one command's event says. -/
structure IsCommand (caller : Caller) (arguments : List Bytes) (boot : Bytes) (lookup : Bytes → Bytes) (event : Event) :
    Prop where
  kind : event.kind = .exec
  args : event.args = redact arguments
  pid : event.pid = some (caller.pid : Int)
  loginUid : event.loginUid = numeral caller.auid
  user : event.user = lookup (numeral caller.auid)
  session : event.sessionId = boot ++ ascii ':' :: numeral caller.ses
  program : event.program = caller.exe

theorem execEvent_command {records : List Record} {first : Record} {boot : Bytes} {lookup : Bytes → Bytes}
    {caller : Caller} {pieces : List Piece} {call : List Field} {stamp : Stamp} (describes : Describes call caller)
    (recorded : records.any (isKind "EXECVE") = true)
    (called : records.filter (isKind "SYSCALL") = [(syscallLine call).record stamp])
    (arguments : execArgs records = pieces.map Piece.argument) :
    ∃ event, execEvent first boot lookup records = some event ∧
      IsCommand caller (pieces.map Piece.argument) boot lookup event := by
  have read : ∀ {field name}, field ∈ call → field.key = utf8 name → utf8 name ≠ utf8 "type" ∧ utf8 name ≠ utf8 "msg" →
      ((syscallLine call).record stamp).field name = field.word :=
    fun member named body => Line.record_field describes.once member named body stamp
  obtain ⟨_, pid, named, word⟩ := describes.pid
  have pid := (read pid named (by decide)).trans word
  obtain ⟨_, auid, named, word⟩ := describes.auid
  have auid := (read auid named (by decide)).trans word
  obtain ⟨_, ses, named, word⟩ := describes.ses
  have ses := (read ses named (by decide)).trans word
  obtain ⟨_, exe, named, spells⟩ := describes.exe
  have exe := read exe named (by decide)
  have login := numeral_set caller.login.1
  have session : boot ++ ascii ':' :: numeral caller.ses ≠ [] := by simp
  simp only [execEvent, recorded, called, List.getLast?_singleton, auid, ses, val_numeral,
    sessionID_numeral caller.login.2, Bool.not_true, Bool.false_eq_true, if_false]
  rw [if_neg (by simp [login.1, login.2])]
  refine ⟨_, rfl, rfl, by rw [arguments], ?_, rfl, rfl, rfl, ?_⟩
  · rw [pid]
    exact processID_numeral caller.process
  · rw [exe]
    exact auditString_of_spells spells

/-- However the arguments are split, spelled and spread over the records, and in
whatever order the lines come, they make one event with the command's arguments. -/
theorem one_command_event {caller : Caller} {pieces : List Piece} {lines : List Line} (nonempty : pieces ≠ [])
    (recorded : Recorded caller pieces lines) (stamp : Stamp) (boot : Bytes) (lookup : Bytes → Bytes) :
    ∃ event, eventsFor ((lines.map (Line.text stamp)).filterMap parseRecord) boot lookup = [event] ∧
      IsCommand caller (pieces.map Piece.argument) boot lookup event := by
  obtain ⟨call, execs, others, permuted, describes, carries, unrelated⟩ := recorded
  have parsed : (lines.map (Line.text stamp)).filterMap parseRecord = lines.map (Line.record stamp) := by
    have each : parseRecord ∘ Line.text stamp = some ∘ Line.record stamp := funext fun line => parseRecord_line stamp line
    rw [List.filterMap_map, each, List.filterMap_eq_map]
  have records := permuted.map (Line.record stamp)
  simp only [List.map_cons, List.map_append, List.map_map] at records
  generalize lines.map (Line.record stamp) = rows at parsed records
  have odd : ∀ r ∈ others.map (Line.record stamp), r.kind ∉ utf8 "SYSCALL" :: utf8 "EXECVE" :: loginKinds := by
    intro r member
    obtain ⟨line, listed, rfl⟩ := List.mem_map.mp member
    exact unrelated line listed
  have called : rows.filter (isKind "SYSCALL") = [(syscallLine call).record stamp] := by
    have rest : ((execs.map (Line.record stamp ∘ execveLine)) ++ others.map (Line.record stamp)).filter
        (isKind "SYSCALL") = [] := by
      refine List.filter_eq_nil_iff.mpr fun r member => ?_
      rcases List.mem_append.mp member with exec | other
      · obtain ⟨fields, _, rfl⟩ := List.mem_map.mp exec
        exact Bool.false_ne_true
      · exact fun same => odd r other (by rw [beq_iff_eq.mp same]; decide)
    have filtered := records.filter (isKind "SYSCALL")
    have own : isKind "SYSCALL" ((syscallLine call).record stamp) = true := rfl
    rw [List.filter_cons_of_pos own, rest] at filtered
    exact List.perm_singleton.mp filtered
  have among : ∀ r, r ∈ rows.filter (isKind "EXECVE") ↔ ∃ fields ∈ execs, r = (execveLine fields).record stamp := by
    intro r
    rw [List.mem_filter, records.mem_iff, List.mem_cons, List.mem_append]
    constructor
    · rintro ⟨rfl | exec | other, same⟩
      · cases same
      · obtain ⟨fields, member, rfl⟩ := List.mem_map.mp exec
        exact ⟨fields, member, rfl⟩
      · exact absurd (by rw [beq_iff_eq.mp same]; decide) (odd r other)
    · rintro ⟨fields, member, rfl⟩
      exact ⟨Or.inr (Or.inl (List.mem_map.mpr ⟨fields, member, rfl⟩)), rfl⟩
  have begun : rows.any (isKind "EXECVE") = true := by
    obtain ⟨fields, member⟩ := carries.exists_mem nonempty
    obtain ⟨listed, exec⟩ := List.mem_filter.mp ((among _).mpr ⟨fields, member, rfl⟩)
    exact List.any_eq_true.mpr ⟨_, listed, exec⟩
  rw [parsed]
  cases rows with
  | nil => cases begun
  | cons first rest =>
    obtain ⟨event, made, command⟩ := execEvent_command describes begun called (execArgs_carries carries stamp among)
    refine ⟨event, ?_, command⟩
    have silent : (first :: rest).filterMap (sshEvent first boot lookup) = [] := by
      refine List.filterMap_eq_nil_iff.mpr fun r member => sshEvent_other ?_
      rcases List.mem_cons.mp (records.mem_iff.mp member) with rfl | member
      · exact (by decide : utf8 "SYSCALL" ∉ loginKinds)
      rcases List.mem_append.mp member with exec | other
      · obtain ⟨fields, _, rfl⟩ := List.mem_map.mp exec
        exact (by decide : utf8 "EXECVE" ∉ loginKinds)
      · exact fun listed => odd r other (List.mem_cons_of_mem _ (List.mem_cons_of_mem _ listed))
    rw [eventsFor, silent, made]
    rfl

def echoStamp : Stamp where
  sec := utf8 "1700000000"
  ms := utf8 "123"
  serial := utf8 "42"
  numbers part member := run_of_all (List.all_eq_true.mp
    (rfl : [utf8 "1700000000", utf8 "123", utf8 "42"].all (fun part => !part.isEmpty && part.all isDigit) = true)
    part member)

def echoCaller : Caller := ⟨4242, 1000, 7, utf8 "/usr/bin/echo", by decide, by decide⟩

def echoPieces : List Piece := [.whole (utf8 "echo"), .chunked (utf8 "ses=9 a0=\"x\"") [utf8 "(pid=1)"]]

def echoCall : List Field :=
  [numberField (utf8 "pid") (run_of_all rfl) 4242, numberField (utf8 "auid") (run_of_all rfl) 1000,
    numberField (utf8 "ses") (run_of_all rfl) 7, valueField (utf8 "exe") (run_of_all rfl) (utf8 "/usr/bin/echo")]

def echoExecs : List (List Field) :=
  [[valueField (utf8 "a1[0]") (run_of_all rfl) (utf8 "ses=9 a0=\"x\""), numberField (utf8 "argc") (run_of_all rfl) 2],
    [valueField (utf8 "a0") (run_of_all rfl) (utf8 "echo"), valueField (utf8 "a1[1]") (run_of_all rfl) (utf8 "(pid=1)")]]

theorem echoCall_describes : Describes echoCall echoCaller where
  once := by decide
  pid := ⟨_, List.mem_cons_self, rfl, rfl⟩
  auid := ⟨_, List.mem_cons_of_mem _ List.mem_cons_self, rfl, rfl⟩
  ses := ⟨_, List.mem_cons_of_mem _ (List.mem_cons_of_mem _ List.mem_cons_self), rfl, rfl⟩
  exe := ⟨_, List.getLast_mem (List.cons_ne_nil _ _), rfl, spells_spell _⟩

theorem echoExecs_carries : Carries echoExecs echoPieces := by
  refine ⟨[valueField (utf8 "a0") (run_of_all rfl) (utf8 "echo"),
    valueField (utf8 "a1[0]") (run_of_all rfl) (utf8 "ses=9 a0=\"x\""),
    valueField (utf8 "a1[1]") (run_of_all rfl) (utf8 "(pid=1)")],
    [numberField (utf8 "argc") (run_of_all rfl) 2], ?_, ?_, ?_⟩
  · refine .cons ?_ (.cons ?_ (.cons ?_ .nil))
    · exact @Writes.whole 0 _ _ (by decide) rfl (spells_spell _) rfl
    · exact @Writes.chunk 1 0 _ _ (by decide) (by decide) rfl (spells_spell _) rfl
    · exact @Writes.chunk 1 1 _ _ (by decide) (by decide) rfl (spells_spell _) rfl
  · exact (@List.perm_middle _ _ [_, _] [_]).trans (.cons _ (.cons _ (.swap _ _ _)))
  · rintro field (_ | ⟨_, ⟨⟩⟩)
    decide

theorem one_command_event_echo : ∃ event,
    eventsFor (([execveLine echoExecs[0], syscallLine echoCall, execveLine echoExecs[1]].map
      (Line.text echoStamp)).filterMap parseRecord) (utf8 "boot") id = [event] ∧
    IsCommand echoCaller [utf8 "echo", utf8 "ses=9 a0=\"x\"(pid=1)"] (utf8 "boot") id event :=
  one_command_event (List.cons_ne_nil _ _) ⟨echoCall, echoExecs, [], List.Perm.swap _ _ _, echoCall_describes,
    echoExecs_carries, by simp⟩ echoStamp (utf8 "boot") id

end SshLogger
