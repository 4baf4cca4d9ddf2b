import SshLogger.Proofs.Wire
import SshLogger.Proofs.Responses
import SshLogger.Library.MatchedRows

/-! What the server's decoder lets through. A batch that was decoded, from whatever
body, holds UTF-8 texts and machine integers only, and its body was one JSON value
of at most 2 MiB without unknown members. -/

namespace SshLogger
open Library Library.Bytes Library.Json

section
variable {α : Type} {valid : α → Prop}

/-- What every field keeps is kept by the struct. -/
theorem decodeStruct_keeps {fields : Fields α} {strict : Bool} {target result : α} {value : Value}
    (each : ∀ field ∈ fields, ∀ target value result, valid target → field.2 target value = some result → valid result)
    (holds : valid target) (decoded : decodeStruct strict fields target value = some result) : valid result := by
  cases value with
  | null =>
    obtain rfl := Option.some.inj decoded
    exact holds
  | obj members =>
    rw [decodeStruct] at decoded
    induction members generalizing target with
    | nil =>
      obtain rfl := Option.some.inj decoded
      exact holds
    | cons member members ih =>
      rw [List.foldlM_cons, Option.bind_eq_bind] at decoded
      obtain ⟨next, first, others⟩ := Option.bind_eq_some_iff.mp decoded
      refine ih ?_ others
      rw [decodeMember] at first
      split at first
      next field found => exact each field (List.mem_of_find?_eq_some found) _ _ _ holds first
      next =>
        split at first
        · cases first
        · obtain rfl := Option.some.inj first
          exact holds
  | bool | num | str | arr => cases decoded

/-- Every member of an object that was decoded strictly is a field, and was decoded as one. -/
theorem decodeStruct_known {fields : Fields α} {target result : α} {members : List (String × Value)}
    (decoded : decodeStruct true fields target (.obj members) = some result) : ∀ member ∈ members,
      ∃ field ∈ fields, isField member.1 field.1 = true ∧ ∃ before after, field.2 before member.2 = some after := by
  rw [decodeStruct] at decoded
  induction members generalizing target with
  | nil => simp
  | cons first members ih =>
    rw [List.foldlM_cons, Option.bind_eq_bind] at decoded
    obtain ⟨next, here, others⟩ := Option.bind_eq_some_iff.mp decoded
    refine List.forall_mem_cons.mpr ⟨?_, ih others⟩
    rw [decodeMember] at here
    split at here
    next field found =>
      have matched : isField first.1 field.1 = true := by simpa using List.find?_some found
      exact ⟨field, List.mem_of_find?_eq_some found, matched, _, _, here⟩
    next => cases here

theorem decodeItems_keeps {item : α → Value → Option α} {zero : α} {array : List α} {values : List Value} {slice : Slice α}
    (fresh : valid zero) (each : ∀ target value result, valid target → item target value = some result → valid result)
    (holds : ∀ element ∈ array, valid element) (decoded : decodeItems item zero array values = some slice) :
    ∀ element ∈ slice.items ++ slice.spare, valid element := by
  induction values generalizing array slice with
  | nil =>
    obtain rfl := Option.some.inj decoded
    exact holds
  | cons value values ih =>
    simp only [decodeItems, Option.bind_eq_bind, Option.pure_def] at decoded
    obtain ⟨first, here, decoded⟩ := Option.bind_eq_some_iff.mp decoded
    obtain ⟨others, later, decoded⟩ := Option.bind_eq_some_iff.mp decoded
    obtain rfl := Option.some.inj decoded
    have old : valid (array.head?.getD zero) := by
      cases array with
      | nil => exact fresh
      | cons element array => exact holds element List.mem_cons_self
    have rest := ih (fun element member => holds element (List.mem_of_mem_tail member)) later
    exact List.forall_mem_cons.mpr ⟨each _ _ _ old here, rest⟩

theorem decodeSlice_keeps {item : α → Value → Option α} {zero : α} {old slice : Slice α} {value : Value}
    (fresh : valid zero) (each : ∀ target value result, valid target → item target value = some result → valid result)
    (holds : ∀ element ∈ old.items ++ old.spare, valid element) (decoded : decodeSlice item zero old value = some slice) :
    ∀ element ∈ slice.items ++ slice.spare, valid element := by
  cases value with
  | null =>
    obtain rfl := Option.some.inj decoded
    simp
  | arr values =>
    cases values with
    | nil =>
      obtain rfl := Option.some.inj decoded
      simp
    | cons first values => exact decodeItems_keeps fresh each holds decoded
  | bool | num | str | obj => cases decoded

end

theorem isText_utf8 (text : String) : IsText (utf8 text) := ⟨text, rfl⟩

theorem isText_nil : IsText [] := ⟨"", rfl⟩

theorem IsText.coerce {text : Bytes} (plain : IsText text) : Bytes.coerce text = text := by
  obtain ⟨value, rfl⟩ := plain
  exact coerce_utf8 value

theorem decodeBytes_text {old text : Bytes} {value : Value} (plain : IsText old) (decoded : decodeBytes old value = some text) :
    IsText text := by
  cases value with
  | str value =>
    obtain rfl := Option.some.inj decoded
    exact isText_utf8 value
  | null =>
    obtain rfl := Option.some.inj decoded
    exact plain
  | bool | num | arr | obj => cases decoded

def InInt64 (value : Int) : Prop := -2 ^ 63 ≤ value ∧ value < 2 ^ 63

theorem decodeInt_range {old number : Int} {value : Value} (held : InInt64 old) (decoded : decodeInt old value = some number) :
    InInt64 number := by
  cases value with
  | num value =>
    have inside := (Option.filter_eq_some_iff.mp decoded).2
    simpa [InInt64] using inside
  | null =>
    obtain rfl := Option.some.inj decoded
    exact held
  | bool | str | arr | obj => cases decoded

theorem decodePointer_range {old pointer : Option Int} {value : Value} (held : ∀ number ∈ old, InInt64 number)
    (decoded : decodePointer old value = some pointer) : ∀ number ∈ pointer, InInt64 number := by
  rw [decodePointer.eq_def] at decoded
  split at decoded
  · obtain rfl := Option.some.inj decoded
    simp
  · obtain ⟨number, read, rfl⟩ := Option.map_eq_some_iff.mp decoded
    have base : InInt64 (old.getD 0) := by
      cases old with
      | none => exact ⟨by decide, by decide⟩
      | some number => exact held number rfl
    intro other same
    obtain rfl := Option.some.inj same
    exact decodeInt_range base read

theorem ofText_text (text : Bytes) : (Kind.ofText text).text = text := by
  rw [Kind.ofText]
  cases found : ([.loginSuccess, .loginFailure, .sessionStart, .sessionEnd, .exec] : List Kind).find? fun kind => kind.text == text with
  | none => rfl
  | some kind =>
    have matched : (kind.text == text) = true := by simpa using List.find?_some found
    exact eq_of_beq matched

theorem ofText_canonical (text : Bytes) : Kind.ofText (Kind.ofText text).text = Kind.ofText text := by rw [ofText_text]

structure Event.Wellformed (e : Event) : Prop where
  id : IsText e.id
  time : InInt64 e.time
  kind : IsText e.kind.text
  canonical : Kind.ofText e.kind.text = e.kind
  sessionId : IsText e.sessionId
  user : IsText e.user
  loginUid : IsText e.loginUid
  effectiveUser : IsText e.effectiveUser
  ip : IsText e.ip
  program : IsText e.program
  args : ∀ arg ∈ e.args, IsText arg
  outcome : IsText e.outcome
  pid : ∀ pid ∈ e.pid, InInt64 pid
  ppid : ∀ ppid ∈ e.ppid, InInt64 ppid

def EventSlot.Wellformed (s : EventSlot) : Prop := s.event.Wellformed ∧ ∀ arg ∈ s.spare, IsText arg

theorem zeroEvent_wellformed : zeroEvent.Wellformed := by
  refine ⟨⟨isText_nil, ⟨by decide, by decide⟩, isText_nil, by decide, isText_nil, isText_nil, isText_nil, isText_nil,
    isText_nil, isText_nil, ?_, isText_nil, ?_, ?_⟩, ?_⟩ <;> simp [zeroEvent]

theorem eventFields_keep : ∀ field ∈ eventFields, ∀ slot value result, EventSlot.Wellformed slot →
    field.2 slot value = some result → result.Wellformed := by
  simp only [eventFields, List.forall_mem_cons, List.not_mem_nil, false_implies, implies_true, and_true]
  refine ⟨?_, ?_, ?_, ?_, ?_, ?_, ?_, ?_, ?_, ?_, ?_, ?_, ?_⟩
  · intro slot value result valid decoded
    obtain ⟨text, read, rfl⟩ := Option.map_eq_some_iff.mp decoded
    exact ⟨{ valid.1 with id := decodeBytes_text valid.1.id read }, valid.2⟩
  · intro slot value result valid decoded
    obtain ⟨time, read, rfl⟩ := Option.map_eq_some_iff.mp decoded
    exact ⟨{ valid.1 with time := decodeInt_range valid.1.time read }, valid.2⟩
  · intro slot value result valid decoded
    obtain ⟨text, read, rfl⟩ := Option.map_eq_some_iff.mp decoded
    have plain : IsText (Kind.ofText text).text := by
      rw [ofText_text]
      exact decodeBytes_text valid.1.kind read
    exact ⟨{ valid.1 with kind := plain, canonical := ofText_canonical text }, valid.2⟩
  · intro slot value result valid decoded
    obtain ⟨text, read, rfl⟩ := Option.map_eq_some_iff.mp decoded
    exact ⟨{ valid.1 with sessionId := decodeBytes_text valid.1.sessionId read }, valid.2⟩
  · intro slot value result valid decoded
    obtain ⟨text, read, rfl⟩ := Option.map_eq_some_iff.mp decoded
    exact ⟨{ valid.1 with user := decodeBytes_text valid.1.user read }, valid.2⟩
  · intro slot value result valid decoded
    obtain ⟨text, read, rfl⟩ := Option.map_eq_some_iff.mp decoded
    exact ⟨{ valid.1 with loginUid := decodeBytes_text valid.1.loginUid read }, valid.2⟩
  · intro slot value result valid decoded
    obtain ⟨text, read, rfl⟩ := Option.map_eq_some_iff.mp decoded
    exact ⟨{ valid.1 with effectiveUser := decodeBytes_text valid.1.effectiveUser read }, valid.2⟩
  · intro slot value result valid decoded
    obtain ⟨text, read, rfl⟩ := Option.map_eq_some_iff.mp decoded
    exact ⟨{ valid.1 with ip := decodeBytes_text valid.1.ip read }, valid.2⟩
  · intro slot value result valid decoded
    obtain ⟨text, read, rfl⟩ := Option.map_eq_some_iff.mp decoded
    exact ⟨{ valid.1 with program := decodeBytes_text valid.1.program read }, valid.2⟩
  · intro slot value result valid decoded
    obtain ⟨slice, read, rfl⟩ := Option.map_eq_some_iff.mp decoded
    have plain := decodeSlice_keeps isText_nil (fun _ _ _ => decodeBytes_text)
      (List.forall_mem_append.mpr ⟨valid.1.args, valid.2⟩) read
    obtain ⟨args, spare⟩ := List.forall_mem_append.mp plain
    exact ⟨{ valid.1 with args }, spare⟩
  · intro slot value result valid decoded
    obtain ⟨text, read, rfl⟩ := Option.map_eq_some_iff.mp decoded
    exact ⟨{ valid.1 with outcome := decodeBytes_text valid.1.outcome read }, valid.2⟩
  · intro slot value result valid decoded
    obtain ⟨pointer, read, rfl⟩ := Option.map_eq_some_iff.mp decoded
    exact ⟨{ valid.1 with pid := decodePointer_range valid.1.pid read }, valid.2⟩
  · intro slot value result valid decoded
    obtain ⟨pointer, read, rfl⟩ := Option.map_eq_some_iff.mp decoded
    exact ⟨{ valid.1 with ppid := decodePointer_range valid.1.ppid read }, valid.2⟩

/-- A decoded event is the same once it is coerced, and can be encoded again. -/
theorem Event.Wellformed.coerced {e : Event} (valid : e.Wellformed) : e.coerced = e := by
  have args : e.args.map Bytes.coerce = e.args :=
    (List.map_congr_left fun arg member => (valid.args arg member).coerce).trans (List.map_id _)
  have kind : coerceKind e.kind = e.kind := by
    cases shape : e.kind with
    | unknown text =>
      have plain := valid.kind
      rw [shape] at plain
      exact congrArg Kind.unknown plain.coerce
    | _ => rfl
  simp only [Event.coerced, valid.id.coerce, kind, valid.sessionId.coerce, valid.user.coerce, valid.loginUid.coerce,
    valid.effectiveUser.coerce, valid.ip.coerce, valid.program.coerce, args, valid.outcome.coerce]

theorem Event.Wellformed.encodable {e : Event} (valid : e.Wellformed) : e.Encodable where
  time := valid.time
  kind := by
    have same := congrArg Event.kind valid.coerced
    have kept : coerceKind e.kind = e.kind := same
    rw [valid.kind.coerce, valid.canonical, kept]
  pid := valid.pid
  ppid := valid.ppid

structure Batch.Wellformed (b : Batch) : Prop where
  firewallResult : ∀ result ∈ b.firewallResult, IsText result.error
  terminationResults : ∀ result ∈ b.terminationResults, IsText result.error
  events : ∀ e ∈ b.events, e.Wellformed
  health : IsText b.health
  backlog : InInt64 b.backlog
  dropped : InInt64 b.dropped
  activeSessions : ∀ id ∈ b.activeSessions, IsText id

structure BatchSlot.Wellformed (s : BatchSlot) : Prop where
  firewallResult : ∀ result ∈ s.firewallResult, IsText result.error
  terminationResults : ∀ result ∈ s.terminationResults.items ++ s.terminationResults.spare, IsText result.error
  events : ∀ slot ∈ s.events.items ++ s.events.spare, slot.Wellformed
  health : IsText s.health
  backlog : InInt64 s.backlog
  dropped : InInt64 s.dropped
  activeSessions : ∀ id ∈ s.activeSessions.items ++ s.activeSessions.spare, IsText id

theorem zeroBatch_wellformed : zeroBatch.Wellformed := by
  refine ⟨?_, ?_, ?_, isText_nil, ⟨by decide, by decide⟩, ⟨by decide, by decide⟩, ?_⟩ <;> simp [zeroBatch]

theorem decodeFirewallResult_keeps {old result : Option FirewallResult} {value : Value}
    (held : ∀ report ∈ old, IsText report.error) (decoded : decodeFirewallResult old value = some result) :
    ∀ report ∈ result, IsText report.error := by
  rw [decodeFirewallResult.eq_def] at decoded
  split at decoded
  · obtain rfl := Option.some.inj decoded
    simp
  · obtain ⟨report, read, rfl⟩ := Option.map_eq_some_iff.mp decoded
    have base : IsText (old.getD ⟨"", []⟩).error := by
      cases old with
      | none => exact isText_nil
      | some report => exact held report rfl
    intro other same
    obtain rfl := Option.some.inj same
    refine @decodeStruct_keeps _ (fun report : FirewallResult => IsText report.error) _ _ _ _ _ ?_ base read
    simp only [firewallResultFields, List.forall_mem_cons, List.not_mem_nil, false_implies, implies_true, and_true]
    constructor
    · intro report value result plain decoded
      obtain ⟨revision, -, rfl⟩ := Option.map_eq_some_iff.mp decoded
      exact plain
    · intro report value result plain decoded
      obtain ⟨error, text, rfl⟩ := Option.map_eq_some_iff.mp decoded
      exact decodeBytes_text plain text

theorem terminationResult_keeps {target result : TerminationResult} {value : Value} (plain : IsText target.error)
    (decoded : decodeStruct true terminationResultFields target value = some result) : IsText result.error := by
  refine @decodeStruct_keeps _ (fun report : TerminationResult => IsText report.error) _ _ _ _ _ ?_ plain decoded
  simp only [terminationResultFields, List.forall_mem_cons, List.not_mem_nil, false_implies, implies_true, and_true]
  constructor
  · intro report value result plain decoded
    obtain ⟨id, -, rfl⟩ := Option.map_eq_some_iff.mp decoded
    exact plain
  · intro report value result plain decoded
    obtain ⟨error, text, rfl⟩ := Option.map_eq_some_iff.mp decoded
    exact decodeBytes_text plain text

theorem decodeEvent_keeps {target result : EventSlot} {value : Value} {strict : Bool} (valid : target.Wellformed)
    (decoded : decodeEvent strict target value = some result) : result.Wellformed :=
  decodeStruct_keeps eventFields_keep valid decoded

theorem batchFields_keep : ∀ field ∈ batchFields, ∀ slot value result, BatchSlot.Wellformed slot →
    field.2 slot value = some result → result.Wellformed := by
  simp only [batchFields, List.forall_mem_cons, List.not_mem_nil, false_implies, implies_true, and_true]
  refine ⟨?_, ?_, ?_, ?_, ?_, ?_, ?_, ?_, ?_, ?_⟩
  · intro slot value result valid decoded
    obtain ⟨flag, -, rfl⟩ := Option.map_eq_some_iff.mp decoded
    exact { valid with }
  · intro slot value result valid decoded
    obtain ⟨flag, -, rfl⟩ := Option.map_eq_some_iff.mp decoded
    exact { valid with }
  · intro slot value result valid decoded
    obtain ⟨report, read, rfl⟩ := Option.map_eq_some_iff.mp decoded
    exact { valid with firewallResult := decodeFirewallResult_keeps valid.firewallResult read }
  · intro slot value result valid decoded
    obtain ⟨flag, -, rfl⟩ := Option.map_eq_some_iff.mp decoded
    exact { valid with }
  · intro slot value result valid decoded
    obtain ⟨slice, read, rfl⟩ := Option.map_eq_some_iff.mp decoded
    have kept := @decodeSlice_keeps TerminationResult (fun report => IsText report.error) _ _ _ _ _ isText_nil
      (fun _ _ _ => terminationResult_keeps) valid.terminationResults read
    exact { valid with terminationResults := kept }
  · intro slot value result valid decoded
    obtain ⟨slice, read, rfl⟩ := Option.map_eq_some_iff.mp decoded
    exact { valid with events := decodeSlice_keeps zeroEvent_wellformed (fun _ _ _ => decodeEvent_keeps) valid.events read }
  · intro slot value result valid decoded
    obtain ⟨text, read, rfl⟩ := Option.map_eq_some_iff.mp decoded
    exact { valid with health := decodeBytes_text valid.health read }
  · intro slot value result valid decoded
    obtain ⟨number, read, rfl⟩ := Option.map_eq_some_iff.mp decoded
    exact { valid with backlog := decodeInt_range valid.backlog read }
  · intro slot value result valid decoded
    obtain ⟨number, read, rfl⟩ := Option.map_eq_some_iff.mp decoded
    exact { valid with dropped := decodeInt_range valid.dropped read }
  · intro slot value result valid decoded
    obtain ⟨slice, read, rfl⟩ := Option.map_eq_some_iff.mp decoded
    exact { valid with activeSessions := decodeSlice_keeps isText_nil (fun _ _ _ => decodeBytes_text) valid.activeSessions read }

theorem BatchSlot.Wellformed.batch {s : BatchSlot} (valid : s.Wellformed) : s.batch.Wellformed where
  firewallResult := valid.firewallResult
  terminationResults := (List.forall_mem_append.mp valid.terminationResults).1
  events := by
    have slots := (List.forall_mem_append.mp valid.events).1
    intro e member
    obtain ⟨slot, listed, rfl⟩ := List.mem_map.mp member
    exact (slots slot listed).1
  health := valid.health
  backlog := valid.backlog
  dropped := valid.dropped
  activeSessions := (List.forall_mem_append.mp valid.activeSessions).1

theorem Batch.Wellformed.coerced {b : Batch} (valid : b.Wellformed) : b.coerced = b := by
  have kept : ∀ {α : Type} {items : List α} {change : α → α}, (∀ item ∈ items, change item = item) → items.map change = items :=
    fun each => (List.map_congr_left each).trans (List.map_id _)
  have firewall : (b.firewallResult.map fun result => { result with error := Bytes.coerce result.error }) = b.firewallResult := by
    cases found : b.firewallResult with
    | none => rfl
    | some result =>
      have plain := (valid.firewallResult result found).coerce
      simp only [Option.map_some, plain]
  have results : (b.terminationResults.map fun result => { result with error := Bytes.coerce result.error }) =
      b.terminationResults := kept fun result member => by simp only [(valid.terminationResults result member).coerce]
  have events : b.events.map Event.coerced = b.events := kept fun e member => (valid.events e member).coerced
  have sessions : b.activeSessions.map Bytes.coerce = b.activeSessions :=
    kept fun id member => (valid.activeSessions id member).coerce
  simp only [Batch.coerced, firewall, results, events, valid.health.coerce, sessions]

theorem Batch.Wellformed.encodable {b : Batch} (valid : b.Wellformed) : b.Encodable where
  events e listed := (valid.events e listed).encodable
  backlog := valid.backlog
  dropped := valid.dropped

def IsFlag (value : Value) : Prop := value = .null ∨ ∃ flag, value = .bool flag

def IsString (value : Value) : Prop := value = .null ∨ ∃ text, value = .str text

/-- A number without fraction or exponent that an `int64` holds. -/
def IsInteger (value : Value) : Prop :=
  value = .null ∨ ∃ numeral number, value = .num numeral ∧ readInt numeral.val = some number ∧ InInt64 number

def Elements (valid : Value → Prop) (value : Value) : Prop :=
  value = .null ∨ ∃ values, value = .arr values ∧ ∀ element ∈ values, valid element

/-- An object without other members than these, each with what it may hold. -/
def IsObject (shapes : List (String × (Value → Prop))) (value : Value) : Prop :=
  value = .null ∨ ∃ members, value = .obj members ∧
    ∀ member ∈ members, ∃ shape ∈ shapes, isField member.1 shape.1 = true ∧ shape.2 member.2

def IsEvent : Value → Prop := IsObject
  [("id", IsString), ("time", IsInteger), ("kind", IsString), ("session_id", IsString), ("user", IsString),
    ("login_uid", IsString), ("effective_user", IsString), ("ip", IsString), ("program", IsString),
    ("args", Elements IsString), ("outcome", IsString), ("pid", IsInteger), ("ppid", IsInteger)]

def IsBatch : Value → Prop := IsObject
  [("can_firewall", IsFlag), ("can_allowlist", IsFlag),
    ("firewall_result", IsObject [("revision", IsString), ("error", IsString)]), ("can_terminate", IsFlag),
    ("termination_results", Elements (IsObject [("id", IsString), ("error", IsString)])), ("events", Elements IsEvent),
    ("health", IsString), ("backlog", IsInteger), ("dropped", IsInteger), ("active_sessions", Elements IsString)]

section
variable {α β : Type}

/-- What a decoder takes has the shape. -/
def Takes (decoder : α → Value → Option α) (shape : Value → Prop) : Prop :=
  ∀ before value after, decoder before value = some after → shape value

theorem Takes.within {decoder : β → Value → Option β} {shape : Value → Prop} (takes : Takes decoder shape) (get : α → β)
    (set : α → β → α) : Takes (fun target value => (decoder (get target) value).map (set target)) shape := by
  intro target value after decoded
  obtain ⟨inner, read, -⟩ := Option.map_eq_some_iff.mp decoded
  exact takes _ _ _ read

theorem decodeBool_takes : Takes decodeBool IsFlag := by
  intro before value after decoded
  cases value with
  | null => exact .inl rfl
  | bool flag => exact .inr ⟨flag, rfl⟩
  | num | str | arr | obj => cases decoded

theorem decodeString_takes : Takes decodeString IsString := by
  intro before value after decoded
  cases value with
  | null => exact .inl rfl
  | str text => exact .inr ⟨text, rfl⟩
  | bool | num | arr | obj => cases decoded

theorem decodeBytes_takes : Takes decodeBytes IsString := by
  intro before value after decoded
  cases value with
  | null => exact .inl rfl
  | str text => exact .inr ⟨text, rfl⟩
  | bool | num | arr | obj => cases decoded

theorem decodeInt_takes : Takes decodeInt IsInteger := by
  intro before value after decoded
  cases value with
  | null => exact .inl rfl
  | num numeral =>
    obtain ⟨read, inside⟩ := Option.filter_eq_some_iff.mp decoded
    exact .inr ⟨numeral, after, rfl, read, by simpa [InInt64] using inside⟩
  | bool | str | arr | obj => cases decoded

theorem decodePointer_takes : Takes decodePointer IsInteger := by
  intro before value after decoded
  rw [decodePointer.eq_def] at decoded
  split at decoded
  · exact .inl rfl
  · obtain ⟨number, read, -⟩ := Option.map_eq_some_iff.mp decoded
    exact decodeInt_takes _ _ _ read

theorem decodeItems_elements {item : α → Value → Option α} {zero : α} {array : List α} {values : List Value}
    {slice : Slice α} (decoded : decodeItems item zero array values = some slice) :
    ∀ element ∈ values, ∃ before after, item before element = some after := by
  induction values generalizing array slice with
  | nil => simp
  | cons value values ih =>
    simp only [decodeItems, Option.bind_eq_bind, Option.pure_def] at decoded
    obtain ⟨first, here, decoded⟩ := Option.bind_eq_some_iff.mp decoded
    obtain ⟨others, later, -⟩ := Option.bind_eq_some_iff.mp decoded
    exact List.forall_mem_cons.mpr ⟨⟨_, _, here⟩, ih later⟩

theorem decodeSlice_elements {item : α → Value → Option α} {zero : α} {old slice : Slice α} {value : Value}
    (decoded : decodeSlice item zero old value = some slice) :
    Elements (fun element => ∃ before after, item before element = some after) value := by
  cases value with
  | null => exact .inl rfl
  | arr values =>
    refine .inr ⟨values, rfl, ?_⟩
    cases values with
    | nil => simp
    | cons first values => exact decodeItems_elements decoded
  | bool | num | str | obj => cases decoded

theorem decodeSlice_takes {item : α → Value → Option α} {shape : Value → Prop} (takes : Takes item shape) (zero : α) :
    Takes (decodeSlice item zero) (Elements shape) := by
  intro before value after decoded
  rcases decodeSlice_elements decoded with nothing | ⟨values, same, each⟩
  · exact .inl nothing
  · refine .inr ⟨values, same, fun element member => ?_⟩
    obtain ⟨old, new, read⟩ := each element member
    exact takes _ _ _ read

/-- A struct is decoded from an object whose members have the shapes of its fields. -/
theorem decodeStruct_takes {fields : Fields α} {shapes : List (String × (Value → Prop))}
    (shaped : List.Forall₂ (fun field shape => field.1 = shape.1 ∧ Takes field.2 shape.2) fields shapes) :
    Takes (decodeStruct true fields) (IsObject shapes) := by
  intro before value after decoded
  cases value with
  | null => exact .inl rfl
  | obj members =>
    refine .inr ⟨members, rfl, fun member listed => ?_⟩
    obtain ⟨field, inside, matched, old, new, read⟩ := decodeStruct_known decoded member listed
    obtain ⟨shape, there, same, takes⟩ := Rows.Matched.other shaped inside
    exact ⟨shape, there, same ▸ matched, takes _ _ _ read⟩
  | bool | num | str | arr => cases decoded

/-- What `decode` accepts is one value of at most 2 MiB. -/
theorem decode_ok {target : Value → Option α} {body : Bytes} {result : α} (accepted : decode target body = .ok result) :
    body.length ≤ 2 <<< 20 ∧ ∃ value, Json.parse (runes body) = some value ∧ target value = some result := by
  simp only [decode] at accepted
  split at accepted
  · cases accepted
  next value rest found =>
    split at accepted
    · cases accepted
    next decoded =>
      split at accepted
      next fits =>
        obtain rfl := Except.ok.inj accepted
        simp only [Bool.and_eq_true, decide_eq_true_eq] at fits
        obtain ⟨nothing, short⟩ := fits
        rw [List.take_of_length_le short] at found
        refine ⟨short, value, ?_, decoded⟩
        rw [Json.parse, found]
        exact if_pos nothing
      next => cases accepted

end

theorem decodeEvent_takes : Takes (decodeEvent true) IsEvent := by
  have text := decodeBytes_takes
  have number := decodePointer_takes
  exact decodeStruct_takes (.cons ⟨rfl, text.within _ _⟩ (.cons ⟨rfl, decodeInt_takes.within _ _⟩ (.cons ⟨rfl, text.within _ _⟩
    (.cons ⟨rfl, text.within _ _⟩ (.cons ⟨rfl, text.within _ _⟩ (.cons ⟨rfl, text.within _ _⟩ (.cons ⟨rfl, text.within _ _⟩
    (.cons ⟨rfl, text.within _ _⟩ (.cons ⟨rfl, text.within _ _⟩ (.cons ⟨rfl, (decodeSlice_takes text _).within _ _⟩
    (.cons ⟨rfl, text.within _ _⟩ (.cons ⟨rfl, number.within _ _⟩ (.cons ⟨rfl, number.within _ _⟩ .nil)))))))))))))

theorem decodeFirewallResult_takes :
    Takes decodeFirewallResult (IsObject [("revision", IsString), ("error", IsString)]) := by
  intro before value after decoded
  rw [decodeFirewallResult.eq_def] at decoded
  split at decoded
  · exact .inl rfl
  · obtain ⟨report, read, -⟩ := Option.map_eq_some_iff.mp decoded
    exact decodeStruct_takes (.cons ⟨rfl, decodeString_takes.within _ _⟩ (.cons ⟨rfl, decodeBytes_takes.within _ _⟩ .nil))
      _ _ _ read

theorem decodeBatch_takes : Takes (decodeStruct true batchFields) IsBatch := by
  have result : Takes (decodeStruct true terminationResultFields) (IsObject [("id", IsString), ("error", IsString)]) :=
    decodeStruct_takes (.cons ⟨rfl, decodeString_takes.within _ _⟩ (.cons ⟨rfl, decodeBytes_takes.within _ _⟩ .nil))
  have flag := decodeBool_takes
  have number := decodeInt_takes
  exact decodeStruct_takes (.cons ⟨rfl, flag.within _ _⟩ (.cons ⟨rfl, flag.within _ _⟩
    (.cons ⟨rfl, decodeFirewallResult_takes.within _ _⟩ (.cons ⟨rfl, flag.within _ _⟩
    (.cons ⟨rfl, (decodeSlice_takes result _).within _ _⟩ (.cons ⟨rfl, (decodeSlice_takes decodeEvent_takes _).within _ _⟩
    (.cons ⟨rfl, decodeBytes_takes.within _ _⟩ (.cons ⟨rfl, number.within _ _⟩ (.cons ⟨rfl, number.within _ _⟩
    (.cons ⟨rfl, (decodeSlice_takes decodeBytes_takes _).within _ _⟩ .nil))))))))))

theorem decodeBatch_wellformed {body : Bytes} {b : Batch} (accepted : decodeBatch body = .ok b) : b.Wellformed := by
  rw [decodeBatch] at accepted
  cases outcome : decode (decodeStruct true batchFields zeroBatch) body with
  | error problem =>
    rw [outcome] at accepted
    cases accepted
  | ok slot =>
    rw [outcome] at accepted
    obtain rfl := Except.ok.inj accepted
    obtain ⟨-, value, -, decoded⟩ := decode_ok outcome
    exact BatchSlot.Wellformed.batch (decodeStruct_keeps batchFields_keep zeroBatch_wellformed decoded)

/-- Whatever a body is, a batch is only made of one JSON value in which every member
is known and of its shape. Written again, the batch is read as it is, unless the
escapes of its texts make it longer than what the server reads. -/
theorem decodeBatch_strict {body : Bytes} {b : Batch} (accepted : decodeBatch body = .ok b) :
    body.length ≤ 2 <<< 20 ∧ (∃ value, Json.parse (runes body) = some value ∧ IsBatch value) ∧ b.Wellformed ∧
      ((b.json (some b.activeSessions)).length ≤ 2 <<< 20 → decodeBatch (b.json (some b.activeSessions)) = .ok b) := by
  have valid := decodeBatch_wellformed accepted
  rw [decodeBatch] at accepted
  cases outcome : decode (decodeStruct true batchFields zeroBatch) body with
  | error problem =>
    rw [outcome] at accepted
    cases accepted
  | ok slot =>
    obtain ⟨short, value, parsed, decoded⟩ := decode_ok outcome
    refine ⟨short, ⟨value, parsed, decodeBatch_takes _ _ _ decoded⟩, valid, fun fits => ?_⟩
    rw [decodeBatch_json valid.encodable rfl fits, valid.coerced]

/-- An event written by hand, with a member in capitals and one that is given twice. -/
def handmade : Bytes :=
  utf8 "\x7b\"EVENTS\":[\x7b\"id\":\"1:1:1\",\"kind\":\"exec\",\"args\":[\"ls\",\"-l\"]\x7d]," ++
    utf8 "\"events\":[\x7b\"args\":[\"id\"]\x7d],\"health\":\"ok\"\x7d "

def handmadeBatch : Batch where
  canFirewall := false
  canAllowlist := false
  firewallResult := none
  canTerminate := false
  terminationResults := []
  events := [⟨utf8 "1:1:1", 0, .exec, [], [], [], [], [], [], [utf8 "id"], [], none, none⟩]
  health := utf8 "ok"
  backlog := 0
  dropped := 0
  activeSessions := []

theorem decodeBatch_strict_handmade : ∃ value, Json.parse (runes handmade) = some value ∧ IsBatch value :=
  (@decodeBatch_strict handmade handmadeBatch (by decide +kernel)).2.1

end SshLogger
