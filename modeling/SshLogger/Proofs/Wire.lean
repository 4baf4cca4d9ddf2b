import SshLogger.Proofs.WireText
import SshLogger.Proofs.PolicyCache

/-! The records of a request survive the way through JSON: what the server decodes
from the body of a batch is the batch with its strings coerced. -/

namespace SshLogger
open Library Library.Bytes Library.Json

def NamesApart (names : List String) : Prop :=
  names.Pairwise (fun earlier name => isField name earlier = false) ∧ ∀ name ∈ names, isField name name = true

instance (names : List String) : Decidable (NamesApart names) := inferInstanceAs (Decidable (_ ∧ _))

section
variable {α : Type} {fields : Fields α} {strict : Bool}

theorem find_field (apart : NamesApart (fields.map Prod.fst)) {field : String × (α → Value → Option α)}
    (member : field ∈ fields) : (fields.find? fun other => isField field.1 other.1) = some field := by
  obtain ⟨distinct, own⟩ := apart
  induction fields with
  | nil => cases member
  | cons first rest ih =>
    rw [List.map_cons, List.pairwise_cons] at distinct
    rw [List.map_cons, List.forall_mem_cons] at own
    rcases List.mem_cons.mp member with rfl | later
    · rw [List.find?_cons, own.1]
    · rw [List.find?_cons, distinct.1 field.1 (List.mem_map_of_mem later)]
      exact ih later distinct.2 own.2

/-- Members that are fields are decoded one after the other. -/
theorem decode_fields (apart : NamesApart (fields.map Prod.fst)) (chosen : List ((String × (α → Value → Option α)) × Value))
    (known : ∀ entry ∈ chosen, entry.1 ∈ fields) (target : α) :
    decodeStruct strict fields target (.obj (chosen.map fun entry => (entry.1.1, entry.2))) =
      chosen.foldlM (fun target entry => entry.1.2 target entry.2) target := by
  rw [decodeStruct]
  induction chosen generalizing target with
  | nil => rfl
  | cons entry rest ih =>
    obtain ⟨first, others⟩ := List.forall_mem_cons.mp known
    have step : decodeMember strict fields target (entry.1.1, entry.2) = entry.1.2 target entry.2 := by
      rw [decodeMember, find_field apart first]
    rw [List.map_cons, List.foldlM_cons, List.foldlM_cons, step]
    congr 1
    funext next
    exact ih others next

end

theorem decodeItems_fresh {α : Type} {item : α → Value → Option α} {zero : α} {values : List Value} {items : List α}
    (each : List.Forall₂ (fun value read => item zero value = some read) values items) :
    decodeItems item zero [] values = some ⟨items, []⟩ := by
  induction each with
  | nil => rfl
  | cons first _ ih =>
    rw [decodeItems, List.head?_nil, Option.getD_none, first, List.tail_nil, ih]
    rfl

theorem decodeSlice_fresh {α : Type} {item : α → Value → Option α} {zero : α} {values : List Value} {items : List α}
    (each : List.Forall₂ (fun value read => item zero value = some read) values items) :
    decodeSlice item zero ⟨[], []⟩ (.arr values) = some ⟨items, []⟩ := by
  have inner := decodeItems_fresh each
  cases each with
  | nil => rfl
  | cons first rest => exact inner

theorem strings_read (texts : List Bytes) :
    List.Forall₂ (fun value read => decodeBytes [] value = some read) (texts.map fun text => .str (readBack text))
      (texts.map coerce) := by
  rw [List.forall₂_map_left_iff, List.forall₂_map_right_iff, List.forall₂_same]
  intro text member
  rw [decodeBytes, utf8_readBack]

/-- The numbers are machine integers, and no kind is the text of another one. -/
structure Event.Encodable (e : Event) : Prop where
  time : -2 ^ 63 ≤ e.time ∧ e.time < 2 ^ 63
  kind : Kind.ofText (coerce e.kind.text) = coerceKind e.kind
  pid : ∀ pid ∈ e.pid, -2 ^ 63 ≤ pid ∧ pid < 2 ^ 63
  ppid : ∀ ppid ∈ e.ppid, -2 ^ 63 ≤ ppid ∧ ppid < 2 ^ 63

def Event.values (e : Event) : List Value :=
  [.str (readBack e.id), .int e.time, .str (readBack e.kind.text), .str (readBack e.sessionId), .str (readBack e.user),
    .str (readBack e.loginUid), .str (readBack e.effectiveUser), .str (readBack e.ip), .str (readBack e.program),
    .arr (e.args.map fun arg => .str (readBack arg)), .str (readBack e.outcome)]

def Event.chosen (e : Event) : List ((String × (EventSlot → Value → Option EventSlot)) × Value) :=
  (eventFields.take 11).zip e.values ++ (e.pid.map fun pid => (eventFields[11], .int pid)).toList ++
    (e.ppid.map fun ppid => (eventFields[12], .int ppid)).toList

def Event.value (e : Event) : Value := .obj (e.chosen.map fun entry => (entry.1.1, entry.2))

theorem eventFields_apart : NamesApart (eventFields.map Prod.fst) := by decide +kernel

theorem forall₂_append {α β : Type} {related : α → β → Prop} {first more : List α} {second others : List β}
    (one : List.Forall₂ related first second) (other : List.Forall₂ related more others) :
    List.Forall₂ related (first ++ more) (second ++ others) := List.rel_append one other

theorem forall₂_optional {α β γ : Type} {related : α → β → Prop} {item : Option γ} {first : γ → α} {second : γ → β}
    (each : ∀ value ∈ item, related (first value) (second value)) :
    List.Forall₂ related (item.map first).toList (item.map second).toList := by
  cases item with
  | none => exact .nil
  | some value => exact .cons (each value rfl) .nil

theorem renders_strings (texts : List Bytes) :
    Renders (runes (jsonArray (texts.map quote))) (.arr (texts.map fun text => .str (readBack text))) := by
  apply renders_array
  rw [List.forall₂_map_left_iff, List.forall₂_map_right_iff, List.forall₂_same]
  exact fun text _ => (renders_quote text).renders

theorem renders_event (e : Event) : Renders (runes e.json) e.value := by
  have parts : e.chosen.map (fun entry => (entry.1.1, entry.2)) =
      ["id", "time", "kind", "session_id", "user", "login_uid", "effective_user", "ip", "program", "args", "outcome"].zip
        e.values ++ (e.pid.map fun pid => ("pid", Value.int pid)).toList ++
        (e.ppid.map fun ppid => ("ppid", Value.int ppid)).toList := by
    have named : ∀ (name : String) (field : String × (EventSlot → Value → Option EventSlot)) (item : Option Int),
        field.1 = name → ((item.map fun value => (field, Value.int value)).toList.map fun entry => (entry.1.1, entry.2)) =
          (item.map fun value => (name, Value.int value)).toList := by
      rintro name field item rfl
      cases item <;> rfl
    rw [Event.chosen, List.map_append, List.map_append, named "pid" _ _ rfl, named "ppid" _ _ rfl]
    rfl
  have string : ∀ {name : String} (text : Bytes), RendersMember (runes (jsonMember name (quote text))) (name, .str (readBack text)) :=
    fun text => renders_member (renders_quote text).renders
  have number : ∀ {name : String} (value : Int), RendersMember (runes (jsonMember name (decimal value))) (name, .int value) :=
    fun value => renders_member (renders_decimal value)
  rw [Event.value, parts]
  refine renders_object (forall₂_append (forall₂_append ?_ ?_) ?_)
  · refine .cons (string _) (.cons (number _) (.cons (string _) (.cons (string _) (.cons (string _) (.cons (string _)
      (.cons (string _) (.cons (string _) (.cons (string _) (.cons ?_ (.cons (string _) .nil))))))))))
    exact renders_member (renders_strings e.args)
  · exact forall₂_optional fun pid _ => number pid
  · exact forall₂_optional fun ppid _ => number ppid

theorem decodePointer_int {old : Option Int} {value : Int} (low : -2 ^ 63 ≤ value) (high : value < 2 ^ 63) :
    decodePointer old (.int value) = some (some value) := by
  have read : decodeInt (old.getD 0) (.int value) = some value := decodeInt_int low high
  rw [decodePointer, read]
  · rfl
  · intro same
    cases same

/-- A pointer is written only where there is something to point to. -/
theorem decode_optionalField {α : Type} {field : String × (α → Value → Option α)} {item : Option Int} {before after : α}
    (absent : item = none → before = after) (present : ∀ value ∈ item, field.2 before (.int value) = some after) :
    ((item.map fun value => (field, Value.int value)).toList.foldlM (fun target entry => entry.1.2 target entry.2) before) =
      some after := by
  cases item with
  | none => exact congrArg some (absent rfl)
  | some value => simp [present value rfl]

/-- What is decoded from the text of an event. -/
theorem decodeEvent_value {e : Event} (encodable : e.Encodable) (strict : Bool) :
    decodeEvent strict zeroEvent e.value = some ⟨e.coerced, []⟩ := by
  have known : ∀ entry ∈ e.chosen, entry.1 ∈ eventFields := by
    intro entry member
    simp only [Event.chosen, List.mem_append] at member
    rcases member with (listed | listed) | listed
    · exact List.mem_of_mem_take (List.of_mem_zip listed).1
    · obtain ⟨pid, -, rfl⟩ := Option.map_eq_some_iff.mp (Option.mem_toList.mp listed)
      exact List.getElem_mem _
    · obtain ⟨ppid, -, rfl⟩ := Option.map_eq_some_iff.mp (Option.mem_toList.mp listed)
      exact List.getElem_mem _
  have time : ∀ old, decodeInt old (.int e.time) = some e.time := fun old => decodeInt_int encodable.time.1 encodable.time.2
  have args := decodeSlice_fresh (strings_read e.args)
  have always : ((eventFields.take 11).zip e.values).foldlM (fun target entry => entry.1.2 target entry.2) zeroEvent =
      some ⟨{ e.coerced with pid := none, ppid := none }, []⟩ := by
    simp only [eventFields, Event.values, List.take_succ_cons, List.take_zero, List.zip_cons_cons, List.zip_nil_left,
      List.foldlM_cons, List.foldlM_nil, zeroEvent, decodeBytes, utf8_readBack, time, args, encodable.kind,
      Option.map_some, Option.bind_eq_bind, Option.bind_some, Option.pure_def]
    rfl
  rw [decodeEvent, Event.value, decode_fields eventFields_apart e.chosen known, Event.chosen, List.foldlM_append,
    List.foldlM_append, always]
  have same : e.coerced.pid = e.pid ∧ e.coerced.ppid = e.ppid := ⟨rfl, rfl⟩
  have pids := encodable.pid
  have ppids := encodable.ppid
  rw [← same.1] at pids ⊢
  rw [← same.2] at ppids ⊢
  generalize e.coerced = read at pids ppids
  obtain ⟨id, time, kind, sessionId, user, loginUid, effectiveUser, ip, program, args, outcome, pid, ppid⟩ := read
  have first := @decode_optionalField _ eventFields[11] pid
    ⟨⟨id, time, kind, sessionId, user, loginUid, effectiveUser, ip, program, args, outcome, none, none⟩, []⟩
    ⟨⟨id, time, kind, sessionId, user, loginUid, effectiveUser, ip, program, args, outcome, pid, none⟩, []⟩
    (fun absent => by rw [absent]) fun value found => by
      obtain rfl := Option.mem_def.mp found
      simp [eventFields, @decodePointer_int none value (pids value rfl).1 (pids value rfl).2]
  have second := @decode_optionalField _ eventFields[12] ppid
    ⟨⟨id, time, kind, sessionId, user, loginUid, effectiveUser, ip, program, args, outcome, pid, none⟩, []⟩
    ⟨⟨id, time, kind, sessionId, user, loginUid, effectiveUser, ip, program, args, outcome, pid, ppid⟩, []⟩
    (fun absent => by rw [absent]) fun value found => by
      obtain rfl := Option.mem_def.mp found
      simp [eventFields, @decodePointer_int none value (ppids value rfl).1 (ppids value rfl).2]
  rw [Option.bind_eq_bind, Option.bind_some, first, Option.bind_some, second]

def reportValue (key name : String) (error : Bytes) : Value := .obj [(key, .str name), ("error", .str (readBack error))]

theorem renders_report (key name : String) (error : Bytes) :
    Renders (runes (reportJson key name error)) (reportValue key name error) := by
  have named := renders_quote (utf8 name)
  rw [readBack_utf8] at named
  exact renders_object (.cons (renders_member named.renders) (.cons (renders_member (renders_quote error).renders) .nil))

def FirewallResult.value (result : FirewallResult) : Value := reportValue "revision" result.revision result.error

def TerminationResult.value (result : TerminationResult) : Value := reportValue "id" result.id result.error

theorem decodeFirewallResult_value (result : FirewallResult) :
    decodeFirewallResult none result.value = some (some { result with error := coerce result.error }) := by
  have read := @decode_fields _ firewallResultFields true (by decide +kernel)
    (firewallResultFields.zip [.str result.revision, .str (readBack result.error)])
    (fun entry member => (List.of_mem_zip member).1) ⟨"", []⟩
  simp only [firewallResultFields, List.zip_cons_cons, List.zip_nil_left, List.map_cons, List.map_nil, List.foldlM_cons,
    List.foldlM_nil, decodeString, decodeBytes, utf8_readBack, Option.map_some, Option.bind_eq_bind, Option.bind_some,
    Option.pure_def] at read
  exact congrArg (Option.map some) read

theorem decodeTerminationResult_value (result : TerminationResult) :
    decodeStruct true terminationResultFields ⟨"", []⟩ result.value = some { result with error := coerce result.error } := by
  have read := @decode_fields _ terminationResultFields true (by decide +kernel)
    (terminationResultFields.zip [.str result.id, .str (readBack result.error)])
    (fun entry member => (List.of_mem_zip member).1) ⟨"", []⟩
  simp only [terminationResultFields, List.zip_cons_cons, List.zip_nil_left, List.map_cons, List.map_nil, List.foldlM_cons,
    List.foldlM_nil, decodeString, decodeBytes, utf8_readBack, Option.map_some, Option.bind_eq_bind, Option.bind_some,
    Option.pure_def] at read
  exact read

structure Batch.Encodable (b : Batch) : Prop where
  events : ∀ e ∈ b.events, e.Encodable
  backlog : -2 ^ 63 ≤ b.backlog ∧ b.backlog < 2 ^ 63
  dropped : -2 ^ 63 ≤ b.dropped ∧ b.dropped < 2 ^ 63

def sessionsValue : Option (List Bytes) → Value
  | none => .null
  | some ids => .arr (ids.map fun id => .str (readBack id))

theorem renders_sessions (active : Option (List Bytes)) : Renders (runes (sessionsJson active)) (sessionsValue active) := by
  cases active with
  | none => exact renders_null
  | some ids => exact renders_strings ids

theorem batchFields_apart : NamesApart (batchFields.map Prod.fst) := by decide +kernel

def Batch.optional (b : Batch) : List ((String × (BatchSlot → Value → Option BatchSlot)) × Value) :=
  (if b.canFirewall then [(batchFields[0], .bool true)] else []) ++
  (if b.canAllowlist then [(batchFields[1], .bool true)] else []) ++
  (b.firewallResult.map fun result => (batchFields[2], result.value)).toList ++
  (if b.canTerminate then [(batchFields[3], .bool true)] else []) ++
  (if b.terminationResults.isEmpty then []
    else [(batchFields[4], .arr (b.terminationResults.map TerminationResult.value))])

def Batch.chosen (b : Batch) (active : Option (List Bytes)) :
    List ((String × (BatchSlot → Value → Option BatchSlot)) × Value) :=
  b.optional ++ (batchFields.drop 5).zip
    [.arr (b.events.map Event.value), .str (readBack b.health), .int b.backlog, .int b.dropped, sessionsValue active]

def Batch.value (b : Batch) (active : Option (List Bytes)) : Value :=
  .obj ((b.chosen active).map fun entry => (entry.1.1, entry.2))

theorem renders_batch (b : Batch) (active : Option (List Bytes)) : Renders (runes (b.json active)) (b.value active) := by
  have flag : ∀ {name : String} (value : Bool) {field : String × (BatchSlot → Value → Option BatchSlot)}, field.1 = name →
      List.Forall₂ (fun text entry => RendersMember (runes text) (entry.1.1, entry.2)) (omitFalse name value)
        (if value then [(field, .bool true)] else []) := by
    rintro _ value field rfl
    cases value with
    | true => exact .cons (renders_member renders_true) .nil
    | false => exact .nil
  have events : Renders (runes (jsonArray (b.events.map Event.json))) (.arr (b.events.map Event.value)) := by
    apply renders_array
    rw [List.forall₂_map_left_iff, List.forall₂_map_right_iff, List.forall₂_same]
    exact fun e _ => renders_event e
  have results : Renders (runes (jsonArray (b.terminationResults.map TerminationResult.json)))
      (.arr (b.terminationResults.map TerminationResult.value)) := by
    apply renders_array
    rw [List.forall₂_map_left_iff, List.forall₂_map_right_iff, List.forall₂_same]
    exact fun result _ => renders_report _ _ _
  apply renders_object
  rw [List.forall₂_map_right_iff]
  refine forall₂_append (forall₂_append (forall₂_append (forall₂_append (forall₂_append (flag _ rfl) (flag _ rfl)) ?_)
    (flag _ rfl)) ?_) ?_
  · exact forall₂_optional fun result _ => renders_member (renders_report _ _ _)
  · split
    · exact .nil
    · exact .cons (renders_member results) .nil
  · exact .cons (renders_member events) (.cons (renders_member (renders_quote _).renders) (.cons (renders_member (renders_decimal _))
      (.cons (renders_member (renders_decimal _)) (.cons (renders_member (renders_sessions active)) .nil))))

theorem chosen_known (b : Batch) (active : Option (List Bytes)) : ∀ entry ∈ b.chosen active, entry.1 ∈ batchFields := by
  have at_index : ∀ {index : Nat} (small : index < 10), batchFields[index] ∈ batchFields := fun _ => List.getElem_mem _
  intro entry member
  rcases List.mem_append.mp member with optional | always
  · simp only [Batch.optional, List.mem_append] at optional
    rcases optional with (((chosen | chosen) | chosen) | chosen) | chosen
    · split at chosen
      · exact List.mem_singleton.mp chosen ▸ at_index (by decide)
      · cases chosen
    · split at chosen
      · exact List.mem_singleton.mp chosen ▸ at_index (by decide)
      · cases chosen
    · obtain ⟨result, -, rfl⟩ := Option.map_eq_some_iff.mp (Option.mem_toList.mp chosen)
      exact at_index (by decide)
    · split at chosen
      · exact List.mem_singleton.mp chosen ▸ at_index (by decide)
      · cases chosen
    · split at chosen
      · cases chosen
      · exact List.mem_singleton.mp chosen ▸ at_index (by decide)
  · exact List.mem_of_mem_drop (List.of_mem_zip always).1

def Batch.slot (b : Batch) : BatchSlot where
  canFirewall := b.canFirewall
  canAllowlist := b.canAllowlist
  firewallResult := b.firewallResult
  canTerminate := b.canTerminate
  terminationResults := ⟨b.terminationResults, []⟩
  events := ⟨b.events.map fun e => ⟨e, []⟩, []⟩
  health := b.health
  backlog := b.backlog
  dropped := b.dropped
  activeSessions := ⟨b.activeSessions, []⟩

theorem slot_batch (b : Batch) : b.slot.batch = b := by
  simp [Batch.slot, BatchSlot.batch, Function.comp_def]

theorem decode_optionalMembers (b : Batch) :
    b.optional.foldlM (fun target entry => entry.1.2 target entry.2) zeroBatch =
      some { zeroBatch with
        canFirewall := b.canFirewall, canAllowlist := b.canAllowlist, firewallResult := b.coerced.firewallResult,
        canTerminate := b.canTerminate, terminationResults := ⟨b.coerced.terminationResults, []⟩ } := by
  have results : (if b.terminationResults.isEmpty then []
      else [(batchFields[4], Value.arr (b.terminationResults.map TerminationResult.value))]).foldlM
        (fun target entry => entry.1.2 target entry.2)
        { zeroBatch with
          canFirewall := b.canFirewall, canAllowlist := b.canAllowlist, firewallResult := b.coerced.firewallResult,
          canTerminate := b.canTerminate } =
      some { zeroBatch with
        canFirewall := b.canFirewall, canAllowlist := b.canAllowlist, firewallResult := b.coerced.firewallResult,
        canTerminate := b.canTerminate, terminationResults := ⟨b.coerced.terminationResults, []⟩ } := by
    split
    next empty =>
      have none : b.coerced.terminationResults = [] := by simp [Batch.coerced, List.isEmpty_iff.mp empty]
      rw [none]
      rfl
    · have each : List.Forall₂ (fun value read => decodeStruct true terminationResultFields ⟨"", []⟩ value = some read)
          (b.terminationResults.map TerminationResult.value) b.coerced.terminationResults := by
        rw [Batch.coerced, List.forall₂_map_left_iff, List.forall₂_map_right_iff, List.forall₂_same]
        exact fun result _ => decodeTerminationResult_value result
      have read := decodeSlice_fresh each
      simp only [batchFields, List.getElem_cons_succ, List.getElem_cons_zero, List.foldlM_cons, List.foldlM_nil, zeroBatch, read,
        Option.map_some, Option.bind_eq_bind, Option.bind_some, Option.pure_def]
  have firewall : (b.firewallResult.map fun result => (batchFields[2], result.value)).toList.foldlM
      (fun target entry => entry.1.2 target entry.2)
      { zeroBatch with canFirewall := b.canFirewall, canAllowlist := b.canAllowlist } =
      some { zeroBatch with
        canFirewall := b.canFirewall, canAllowlist := b.canAllowlist, firewallResult := b.coerced.firewallResult } := by
    cases found : b.firewallResult with
    | none =>
      have none : b.coerced.firewallResult = none := by simp [Batch.coerced, found]
      rw [none]
      rfl
    | some result =>
      have some_result : b.coerced.firewallResult = some { result with error := coerce result.error } := by
        simp [Batch.coerced, found]
      have read := decodeFirewallResult_value result
      simp only [batchFields, List.getElem_cons_succ, List.getElem_cons_zero, Option.map_some, Option.toList_some,
        List.foldlM_cons, List.foldlM_nil, zeroBatch, read, some_result, Option.bind_eq_bind, Option.bind_some, Option.pure_def]
  have first : (if b.canFirewall then [(batchFields[0], Value.bool true)] else []).foldlM
      (fun target entry => entry.1.2 target entry.2) zeroBatch = some { zeroBatch with canFirewall := b.canFirewall } := by
    cases b.canFirewall <;> rfl
  have second : (if b.canAllowlist then [(batchFields[1], Value.bool true)] else []).foldlM
      (fun target entry => entry.1.2 target entry.2) { zeroBatch with canFirewall := b.canFirewall } =
      some { zeroBatch with canFirewall := b.canFirewall, canAllowlist := b.canAllowlist } := by
    cases b.canAllowlist <;> rfl
  have fourth : (if b.canTerminate then [(batchFields[3], Value.bool true)] else []).foldlM
      (fun target entry => entry.1.2 target entry.2)
      { zeroBatch with
        canFirewall := b.canFirewall, canAllowlist := b.canAllowlist, firewallResult := b.coerced.firewallResult } =
      some { zeroBatch with
        canFirewall := b.canFirewall, canAllowlist := b.canAllowlist, firewallResult := b.coerced.firewallResult,
        canTerminate := b.canTerminate } := by
    cases b.canTerminate <;> rfl
  simp only [Batch.optional, List.foldlM_append, first, second, firewall, fourth, results, Option.bind_eq_bind,
    Option.bind_some]

theorem decodeBatch_value {b : Batch} (encodable : b.Encodable) {active : Option (List Bytes)}
    (reported : b.activeSessions = active.getD []) :
    decodeStruct true batchFields zeroBatch (b.value active) = some b.coerced.slot := by
  have events : List.Forall₂ (fun value read => decodeEvent true zeroEvent value = some read) (b.events.map Event.value)
      (b.coerced.events.map fun e => ⟨e, []⟩) := by
    rw [Batch.coerced, List.map_map, List.forall₂_map_left_iff, List.forall₂_map_right_iff, List.forall₂_same]
    exact fun e listed => decodeEvent_value (encodable.events e listed) true
  have read_events := decodeSlice_fresh events
  have backlog : decodeInt 0 (.int b.backlog) = some b.backlog := decodeInt_int encodable.backlog.1 encodable.backlog.2
  have dropped : decodeInt 0 (.int b.dropped) = some b.dropped := decodeInt_int encodable.dropped.1 encodable.dropped.2
  have sessions : decodeSlice decodeBytes [] ⟨[], []⟩ (sessionsValue active) = some ⟨b.coerced.activeSessions, []⟩ := by
    have same : b.coerced.activeSessions = (active.getD []).map coerce := by rw [Batch.coerced, reported]
    rw [same]
    cases active with
    | none => rfl
    | some ids => exact decodeSlice_fresh (strings_read ids)
  rw [Batch.value, decode_fields batchFields_apart _ (chosen_known b active), Batch.chosen, List.foldlM_append,
    decode_optionalMembers]
  simp only [batchFields, List.drop_succ_cons, List.drop_zero, List.zip_cons_cons, List.zip_nil_left, List.foldlM_cons,
    List.foldlM_nil, zeroBatch, read_events, backlog, dropped, sessions, decodeBytes, utf8_readBack, Option.map_some,
    Option.bind_eq_bind, Option.bind_some, Option.pure_def]
  rfl

/-- A text that renders a value and is short enough is decoded as the value. -/
theorem decode_rendered {α : Type} {target : Value → Option α} {body : Bytes} {value : Value} {result : α}
    (rendered : Renders (runes body) value) (short : body.length ≤ 2 <<< 20) (decoded : target value = some result) :
    decode target body = .ok result := by
  have whole := rendered.reads ((runes body).length + 1) [] (Nat.le_succ _) (by simp)
  rw [List.append_nil] at whole
  have fits : ((skip []).isEmpty && decide (body.length ≤ 2 <<< 20)) = true := by
    rw [decide_eq_true short]
    rfl
  rw [decode, List.take_of_length_le short]
  simp only [whole, decoded]
  rw [if_pos fits]

/-- The server decodes what an agent writes, with every string coerced. -/
theorem decodeBatch_json {b : Batch} (encodable : b.Encodable) {active : Option (List Bytes)}
    (reported : b.activeSessions = active.getD []) (short : (b.json active).length ≤ 2 <<< 20) :
    decodeBatch (b.json active) = .ok b.coerced := by
  rw [decodeBatch, decode_rendered (renders_batch b active) short (decodeBatch_value encodable reported)]
  exact congrArg Except.ok (slot_batch _)

end SshLogger
