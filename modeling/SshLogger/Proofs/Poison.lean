import SshLogger.Ingest
import SshLogger.Spool
import SshLogger.Proofs.Records

/-! Which queued events the server accepts. Agent and server check the same four
texts against the same limits, but the agent measures them before the JSON round
trip and the server after it, where each invalid byte has become three. -/

namespace SshLogger
open Library Library.Bytes

/-- At most `width` digits; an absent field has none. -/
def IsNumeral (width : Nat) (text : Bytes) : Prop := text.length ≤ width ∧ ∀ byte ∈ text, isDigit byte = true

def IsNumber (text : Bytes) : Prop := text = utf8 "-1" ∨ IsNumeral 10 text

/-- `audit(%llu.%03lu:%u)` and 32-bit numbers; every other field is arbitrary. -/
structure KernelFormat (r : Record) : Prop where
  header : ∃ sec ms serial, r.id = sec ++ ascii '.' :: (ms ++ ascii ':' :: serial) ∧
    IsNumeral 20 sec ∧ IsNumeral 3 ms ∧ IsNumeral 10 serial
  numbers : ∀ name ∈ ["pid", "ppid", "auid", "uid", "ses"], IsNumber (r.field name)

def IsBootID (boot : Bytes) : Prop := boot.length = 36 ∧ IsAscii boot

def Dated (now : Int) (r : Record) : Prop := 0 < r.time ∧ r.time ≤ now + 300000

/-- A text no longer than `width` that JSON leaves alone. -/
structure Plain (width : Nat) (text : Bytes) : Prop where
  short : text.length ≤ width
  valid : IsAscii text

theorem Plain.coerced {width : Nat} {text : Bytes} (plain : Plain width text) : (coerce text).length ≤ width := by
  rw [coerce_ascii plain.valid]
  exact plain.short

theorem Plain.mono {width wider : Nat} {text : Bytes} (plain : Plain width text) (room : width ≤ wider) :
    Plain wider text := ⟨Nat.le_trans plain.short room, plain.valid⟩

theorem Plain.append {width other : Nat} {first second : Bytes} (plain : Plain width first)
    (more : Plain other second) : Plain (width + other) (first ++ second) where
  short := by
    have := plain.short
    have := more.short
    simp only [List.length_append]
    omega
  valid := by
    intro byte member
    rcases List.mem_append.mp member with there | there
    · exact plain.valid byte there
    · exact more.valid byte there

theorem Plain.cons {width : Nat} {byte : UInt8} {text : Bytes} (small : byte < 0x80) (plain : Plain width text) :
    Plain (width + 1) (byte :: text) where
  short := by simpa using plain.short
  valid := by
    intro other member
    rcases List.mem_cons.mp member with rfl | there
    · exact small
    · exact plain.valid other there

theorem IsNumeral.plain {width : Nat} {text : Bytes} (numeral : IsNumeral width text) : Plain width text where
  short := numeral.1
  valid := by
    intro byte member
    have digit := numeral.2 byte member
    simp only [isDigit, Bool.and_eq_true, decide_eq_true_eq] at digit
    exact Nat.lt_of_le_of_lt (UInt8.le_iff_toNat_le.mp digit.2) (by decide)

theorem IsNumber.plain {text : Bytes} (number : IsNumber text) : Plain 10 text := by
  rcases number with rfl | numeral
  · exact ⟨by decide, isAscii_of_all rfl⟩
  · exact numeral.plain

private theorem dropWhile_length_le {α : Type} (p : α → Bool) (text : List α) : (text.dropWhile p).length ≤ text.length :=
  (List.dropWhile_sublist p).length_le

/-- Trimming quotes keeps a text plain. -/
theorem Plain.trimmed {width : Nat} {text : Bytes} (plain : Plain width text) : Plain width (val text) where
  short := by
    have outer := dropWhile_length_le (List.contains [ascii '"']) (text.dropWhile (List.contains [ascii '"'])).reverse
    have inner := dropWhile_length_le (List.contains [ascii '"']) text
    have := plain.short
    simp only [List.length_reverse] at outer
    simp only [val, trim, List.length_reverse]
    omega
  valid := by
    intro byte member
    simp only [val, trim, List.mem_reverse] at member
    exact plain.valid byte ((List.dropWhile_sublist _).subset (List.mem_reverse.mp ((List.dropWhile_sublist _).subset member)))

theorem parseInt_range {text : Bytes} {bits : Nat} {value : Int} (parsed : parseInt text bits = some value) :
    -(2 ^ (bits - 1)) ≤ value ∧ value < 2 ^ (bits - 1) := by
  unfold parseInt at parsed
  split at parsed
  next negative rest _ =>
    split at parsed
    · cases parsed
    · generalize (if negative = true then -(digits rest : Int) else digits rest) = read at parsed
      simp only at parsed
      split at parsed
      next inRange =>
        obtain rfl := Option.some.inj parsed
        simpa using inRange
      · cases parsed

theorem processID_range {raw : Bytes} {minimum pid : Int} (found : processID raw minimum = some pid) :
    minimum ≤ pid ∧ pid ≤ 2147483647 := by
  simp only [processID] at found
  split at found
  next n parsed =>
    split at found
    · cases found
    · obtain rfl := Option.some.inj found
      have := parseInt_range parsed
      omega
  · cases found

structure Traced (records : List Record) (boot : Bytes) (ev : Event) : Prop where
  named : ∃ r ∈ records, ev.id = boot ++ ascii ':' :: r.id ++ ascii ':' :: ev.kind.text ∧ ev.time = r.time
  kind : isKnownKind ev.kind = true
  session : ev.sessionId = [] ∨ ∃ r ∈ records, ev.sessionId = boot ++ ascii ':' :: val (r.field "ses")
  login : ∃ r ∈ records, ev.loginUid = val (r.field "auid")
  pid : ∀ pid, ev.pid = some pid → 1 ≤ pid ∧ pid ≤ 2147483647
  ppid : ∀ ppid, ev.ppid = some ppid → 0 ≤ ppid ∧ ppid ≤ 2147483647

theorem sessionID_shape (boot text : Bytes) : sessionID boot text = [] ∨ sessionID boot text = boot ++ ascii ':' :: text := by
  unfold sessionID
  split
  · exact Or.inl rfl
  · exact Or.inr rfl

theorem sshKind_known {r : Record} {outcome : Bytes} {kind : Kind} (found : sshKind r outcome = some kind) :
    isKnownKind kind = true := by
  unfold sshKind at found
  split_ifs at found <;> cases found <;> rfl

theorem sshEvent_traced {records : List Record} {first r : Record} {boot : Bytes} {lookup : Bytes → Bytes} {ev : Event}
    (head : first ∈ records) (member : r ∈ records) (made : sshEvent first boot lookup r = some ev) :
    Traced records boot ev := by
  simp only [sshEvent] at made
  split at made
  · cases made
  · obtain ⟨kind, found, rfl⟩ := Option.map_eq_some_iff.mp made
    exact {
      named := ⟨first, head, rfl, rfl⟩
      kind := sshKind_known found
      session := (sessionID_shape boot _).imp id fun shape => ⟨r, member, shape⟩
      login := ⟨r, member, rfl⟩
      pid := fun pid found => processID_range found
      ppid := fun ppid found => processID_range found }

theorem execEvent_traced {records : List Record} {first : Record} {boot : Bytes} {lookup : Bytes → Bytes} {ev : Event}
    (head : first ∈ records) (made : execEvent first boot lookup records = some ev) : Traced records boot ev := by
  simp only [execEvent] at made
  split at made
  · cases made
  · split at made
    · cases made
    next f last =>
      have member : f ∈ records := List.mem_of_mem_filter (List.mem_of_getLast? last)
      split at made
      · cases made
      · obtain rfl := Option.some.inj made
        exact {
          named := ⟨first, head, rfl, rfl⟩
          kind := rfl
          session := (sessionID_shape boot _).imp id fun shape => ⟨f, member, shape⟩
          login := ⟨f, member, rfl⟩
          pid := fun pid found => processID_range found
          ppid := fun ppid found => processID_range found }

theorem eventsFor_traced {records : List Record} {boot : Bytes} {lookup : Bytes → Bytes} {ev : Event}
    (produced : ev ∈ eventsFor records boot lookup) : Traced records boot ev := by
  cases records with
  | nil => cases produced
  | cons first rest =>
    simp only [eventsFor, List.mem_append, List.mem_filterMap, Option.mem_toList] at produced
    rcases produced with ⟨r, member, made⟩ | made
    · exact sshEvent_traced (by simp) member made
    · exact execEvent_traced (by simp) made

/-- The limits hold for the texts as JSON carries them, with three bytes for
each invalid one. -/
structure FitsExpanded (ev : Event) : Prop where
  user : (coerce ev.user).length ≤ 256
  effectiveUser : (coerce ev.effectiveUser).length ≤ 256
  ip : (coerce ev.ip).length ≤ 100
  program : (coerce ev.program).length ≤ 4096

theorem KernelFormat.id_plain {r : Record} (format : KernelFormat r) : Plain 35 r.id := by
  obtain ⟨sec, ms, serial, same, secs, millis, serials⟩ := format.header
  rw [same]
  exact secs.plain.append (.cons (by decide) (millis.plain.append (.cons (by decide) serials.plain)))

theorem KernelFormat.val_plain {r : Record} (format : KernelFormat r) {name : String}
    (numeric : name ∈ ["pid", "ppid", "auid", "uid", "ses"]) : Plain 10 (val (r.field name)) :=
  (format.numbers name numeric).plain.trimmed

theorem isKnownKind_text {kind : Kind} (known : isKnownKind kind = true) : Plain 13 kind.text := by
  cases kind with
  | unknown text => cases known
  | _ => exact ⟨by decide, isAscii_of_all rfl⟩

theorem coerceKind_known {kind : Kind} (known : isKnownKind kind = true) : Event.coerceKind kind = kind := by
  cases kind with
  | unknown text => cases known
  | _ => rfl

variable {records : List Record} {boot : Bytes} {now : Int} {ev : Event}

theorem Traced.id_plain (traced : Traced records boot ev) (booted : IsBootID boot)
    (kernel : ∀ r ∈ records, KernelFormat r) : Plain 200 ev.id ∧ ev.id ≠ [] := by
  obtain ⟨r, member, same, -⟩ := traced.named
  have plain : Plain (36 + (35 + 1) + (13 + 1)) ev.id := by
    rw [same]
    exact (Plain.append ⟨booted.1.le, booted.2⟩ (.cons (by decide) (kernel r member).id_plain)).append
      (.cons (by decide) (isKnownKind_text traced.kind))
  refine ⟨plain.mono (by decide), ?_⟩
  rw [same]
  simp

theorem Traced.session_plain (traced : Traced records boot ev) (booted : IsBootID boot)
    (kernel : ∀ r ∈ records, KernelFormat r) : Plain 200 ev.sessionId := by
  rcases traced.session with none | ⟨r, member, same⟩
  · rw [none]
    exact ⟨by simp, by simp [IsAscii]⟩
  · rw [same]
    exact (Plain.append ⟨booted.1.le, booted.2⟩ (.cons (by decide) ((kernel r member).val_plain (by simp)))).mono (by decide)

theorem Traced.login_plain (traced : Traced records boot ev) (kernel : ∀ r ∈ records, KernelFormat r) :
    Plain 64 ev.loginUid := by
  obtain ⟨r, member, same⟩ := traced.login
  rw [same]
  exact ((kernel r member).val_plain (by simp)).mono (by decide)

/-- The server refuses an event the agent keeps for one reason only. -/
theorem Traced.isMalformed_iff (traced : Traced records boot ev) (booted : IsBootID boot)
    (kernel : ∀ r ∈ records, KernelFormat r) (dated : ∀ r ∈ records, Dated now r)
    (kept : exceedsLimits (marshal ev) ev = false) :
    isMalformed now ev.coerced = false ↔ FitsExpanded ev := by
  obtain ⟨idPlain, idNonempty⟩ := traced.id_plain booted kernel
  have id := idPlain.coerced
  have nonempty := coerce_ne_nil idNonempty
  have session := (traced.session_plain booted kernel).coerced
  have login := (traced.login_plain kernel).coerced
  have time : 0 < ev.time ∧ ev.time ≤ now + 300000 := by
    obtain ⟨r, member, -, same⟩ := traced.named
    exact same ▸ dated r member
  have args : ev.args.length ≤ 4096 := by
    simp only [exceedsLimits, Bool.or_eq_false_iff, decide_eq_false_iff_not, Nat.not_lt] at kept
    omega
  have pid : ev.pid.any (fun pid => decide (pid < 1) || decide (pid > 2147483647)) = false := by
    cases known : ev.pid with
    | none => rfl
    | some pid =>
      have := traced.pid pid known
      simp only [Option.any_some, Bool.or_eq_false_iff, decide_eq_false_iff_not]
      omega
  have ppid : ev.ppid.any (fun ppid => decide (ppid < 0) || decide (ppid > 2147483647)) = false := by
    cases known : ev.ppid with
    | none => rfl
    | some ppid =>
      have := traced.ppid ppid known
      simp only [Option.any_some, Bool.or_eq_false_iff, decide_eq_false_iff_not]
      omega
  simp only [isMalformed, Event.coerced, pid, ppid, List.length_map, Bool.or_false, Bool.or_eq_false_iff,
    decide_eq_false_iff_not, beq_eq_false_iff_ne, ne_eq, Nat.not_lt, Int.not_lt, gt_iff_lt]
  constructor
  · rintro ⟨⟨⟨⟨⟨⟨⟨⟨⟨⟨-, -⟩, -⟩, -⟩, -⟩, user⟩, -⟩, effectiveUser⟩, ip⟩, program⟩, -⟩
    exact ⟨user, effectiveUser, ip, program⟩
  · intro fits
    exact ⟨⟨⟨⟨⟨⟨⟨⟨⟨⟨nonempty, id⟩, decide_eq_false (Int.not_le.mpr time.1)⟩, time.2⟩, session⟩, fits.user⟩, login⟩,
      fits.effectiveUser⟩, fits.ip⟩, fits.program⟩, args⟩

def Accepts (now : Int) (e : Event) : Prop := ∃ stored, checkEvent now e = .ok stored

theorem accepts_iff {e : Event} (known : isKnownKind e.kind = true) : Accepts now e ↔ isMalformed now e = false := by
  cases bad : isMalformed now e <;> simp [Accepts, checkEvent, bad, known]

theorem not_accepts {e : Event} (refused : ¬Accepts now e) : ∃ problem, checkEvent now e = .error problem := by
  cases outcome : checkEvent now e with
  | error problem => exact ⟨problem, rfl⟩
  | ok stored => exact absurd ⟨stored, outcome⟩ refused

/-- This transaction put the event itself into the queue. -/
def Admitted (s : Spool) (cp : Checkpoint) (events : List Event) (ev : Event) : Prop :=
  ∃ before after, events = before ++ ev :: after ∧
    let state := offerAll s.limit ⟨s.db.queue, queuedSize s.db.queue, cp.dropped⟩ before
    ⟨ev.id, marshal ev⟩ ∉ state.queue ∧ ⟨ev.id, marshal ev⟩ ∈ (offer s.limit state ev).queue

theorem Admitted.kept {s : Spool} {cp : Checkpoint} {events : List Event} (admitted : Admitted s cp events ev) :
    exceedsLimits (marshal ev) ev = false := by
  obtain ⟨before, after, -, absent, member⟩ := admitted
  simp only [offer] at member
  split at member
  · exact absurd member absent
  · split at member
    · exact absurd member absent
    next roomy =>
      simp only [Bool.or_eq_true, not_or, Bool.not_eq_true] at roomy
      exact roomy.1

theorem Admitted.queued {s : Spool} {cp : Checkpoint} {events : List Event} (admitted : Admitted s cp events ev) :
    ⟨ev.id, marshal ev⟩ ∈ (s.commit cp events true).db.queue := by
  obtain ⟨before, after, rfl, -, member⟩ := admitted
  simp only [Spool.commit, Bool.not_true, Bool.false_eq_true, if_false, offerAll, List.foldl_append, List.foldl_cons]
  exact offerAll_keeps member

/-- The oldest row leads every batch. -/
theorem batch_head {t : Spool} {row : QueueRow} {rest : List QueueRow} (oldest : t.db.queue = row :: rest) :
    ∃ others, t.batch.1 = row.payload.event :: others := by
  have extends_out : ∀ (rows : List QueueRow) (size : Nat) (out : List Event), ∃ others,
      Spool.takeBatch size out rows = out ++ others := by
    intro rows
    induction rows with
    | nil => exact fun size out => ⟨[], by simp [Spool.takeBatch]⟩
    | cons row rest ih =>
      intro size out
      simp only [Spool.takeBatch]
      split
      · exact ⟨[], by simp⟩
      · obtain ⟨others, same⟩ := ih (size + row.payload.size) (out ++ [row.payload.event])
        exact ⟨row.payload.event :: others, by simp [same]⟩
  obtain ⟨others, same⟩ := extends_out (rest.take 99) (0 + row.payload.size) ([] ++ [row.payload.event])
  exact ⟨others, by simpa [Spool.batch, oldest, Spool.takeBatch] using same⟩

/-- An event that waits in the queue is accepted exactly when its texts keep to
the limits after the round trip. Otherwise every later batch it leads is refused. -/
theorem queued_event_accepted {s : Spool} {cp : Checkpoint} {events : List Event} {lookup : Bytes → Bytes}
    (booted : IsBootID boot) (kernel : ∀ r ∈ records, KernelFormat r) (dated : ∀ r ∈ records, Dated now r)
    (produced : ev ∈ eventsFor records boot lookup) (admitted : Admitted s cp events ev) :
    (⟨ev.id, marshal ev⟩ ∈ (s.commit cp events true).db.queue) ∧
    (Accepts now (marshal ev).event.coerced ↔ FitsExpanded ev) ∧
    (¬FitsExpanded ev → ∀ t : Spool, t.db.queue.head? = some ⟨ev.id, marshal ev⟩ → ∀ later, now ≤ later →
      ∃ problem, checkEvents later (t.batch.1.map Event.coerced) = .error problem) := by
  have traced := eventsFor_traced produced
  have known : isKnownKind ev.coerced.kind = true := by
    simp only [Event.coerced, coerceKind_known traced.kind, traced.kind]
  have exact_at : ∀ clock, now ≤ clock → (Accepts clock ev.coerced.coerced ↔ FitsExpanded ev) := by
    intro clock notBefore
    have datedLater : ∀ r ∈ records, Dated clock r := by
      intro r member
      have := dated r member
      exact ⟨this.1, by have := this.2; omega⟩
    rw [Event.coerced_coerced, accepts_iff known]
    exact traced.isMalformed_iff booted kernel datedLater admitted.kept
  refine ⟨admitted.queued, exact_at now (Int.le_refl _), ?_⟩
  intro oversized t oldest later notBefore
  obtain ⟨rest, queue⟩ := List.head?_eq_some_iff.mp oldest
  obtain ⟨others, sent⟩ := batch_head queue
  obtain ⟨problem, refused⟩ := not_accepts (mt (exact_at later notBefore).mp oversized)
  refine ⟨problem, ?_⟩
  simp only [sent, List.map_cons, marshal, checkEvents_cons, refused]

def testBoot : Bytes := utf8 "0b7f4c1e-9d2a-4f63-8a51-c0ffee123456"

def failedLogin (acct : Bytes) : List Record :=
  [utf8 "type=USER_LOGIN msg=audit(1.000:1): pid=7 uid=0 auid=4294967295 ses=4294967295 msg='op=login acct=" ++ acct ++
    utf8 " exe=\"/usr/sbin/sshd\" hostname=? addr=10.0.0.1 terminal=ssh res=failed'\n"].filterMap parseRecord

def failedLoginEvent (user : Bytes) : Event :=
  { id := testBoot ++ utf8 ":1.000:1:login_failure", time := 1000, kind := .loginFailure, sessionId := [], user,
    loginUid := utf8 "4294967295", effectiveUser := utf8 "0", ip := utf8 "10.0.0.1", program := utf8 "/usr/sbin/sshd",
    args := [], outcome := utf8 "failed", pid := some 7, ppid := none }

def emptySpool : Spool := ⟨⟨none, [], none⟩, noCheckpoint, 67108864⟩

private theorem testBoot_boots : IsBootID testBoot := ⟨by decide, isAscii_of_all rfl⟩

private theorem kernelFormat_of_checks {r : Record} (header : r.id = utf8 "1.000:1")
    (numbers : ∀ name ∈ ["pid", "ppid", "auid", "uid", "ses"],
      (r.field name).length ≤ 10 ∧ ∀ byte ∈ r.field name, isDigit byte = true) : KernelFormat r where
  header := ⟨utf8 "1", utf8 "000", utf8 "1", header, ⟨by decide, by decide +kernel⟩, ⟨by decide, by decide +kernel⟩,
    ⟨by decide, by decide +kernel⟩⟩
  numbers := fun name member => Or.inr (numbers name member)

private theorem isMalformed_of_long_user {clock : Int} {e : Event} (long : e.user.length > 256) :
    isMalformed clock e = true := by simp [isMalformed, long]

theorem queued_event_accepted_login :
    Accepts 1000 (marshal (failedLoginEvent (utf8 "alice"))).event.coerced := by
  have produced : failedLoginEvent (utf8 "alice") ∈ eventsFor (failedLogin (utf8 "616C696365")) testBoot id := by
    decide +kernel
  refine (queued_event_accepted testBoot_boots ?_ ?_ produced
    (⟨[], [], rfl, by decide +kernel, by decide +kernel⟩ : Admitted emptySpool noCheckpoint
      [failedLoginEvent (utf8 "alice")] (failedLoginEvent (utf8 "alice")))).2.1.mpr ⟨?_, ?_, ?_, ?_⟩
  · intro r member
    exact kernelFormat_of_checks (by revert r; decide +kernel) (by revert r; decide +kernel)
  · simp only [Dated]
    decide +kernel
  all_goals decide +kernel

/-- A hundred bytes 0xFF fit the agent's limit of 256 but take 300 in JSON. -/
theorem invalid_name_poisons : ∃ (records : List Record) (boot : Bytes) (lookup : Bytes → Bytes) (now : Int) (s : Spool)
    (cp : Checkpoint) (events : List Event) (ev : Event),
    (IsBootID boot ∧ (∀ r ∈ records, KernelFormat r) ∧ (∀ r ∈ records, Dated now r) ∧
      ev ∈ eventsFor records boot lookup ∧ Admitted s cp events ev) ∧
    ¬Accepts now (marshal ev).event.coerced ∧
    ∀ later, now ≤ later → ∃ problem, checkEvents later ((s.commit cp events true).batch.1.map Event.coerced) = .error problem := by
  have produced : eventsFor (failedLogin (List.replicate 200 (ascii 'F'))) testBoot id =
      [failedLoginEvent (List.replicate 100 0xFF)] := by decide +kernel
  have refused : ∀ clock, isMalformed clock (failedLoginEvent (List.replicate 100 0xFF)).coerced = true :=
    fun clock => isMalformed_of_long_user (by decide +kernel)
  refine ⟨_, testBoot, id, 1000, emptySpool, noCheckpoint, [failedLoginEvent (List.replicate 100 0xFF)], _,
    ⟨testBoot_boots, ?_, ?_, produced ▸ List.mem_singleton_self _, [], [], rfl, by decide +kernel, by decide +kernel⟩, ?_, ?_⟩
  · intro r member
    exact kernelFormat_of_checks (by revert r; decide +kernel) (by revert r; decide +kernel)
  · simp only [Dated]
    decide +kernel
  · rintro ⟨stored, accepted⟩
    simp only [checkEvent, marshal, Event.coerced_coerced, refused, if_true] at accepted
    cases accepted
  · intro later notBefore
    have sent : (emptySpool.commit noCheckpoint [failedLoginEvent (List.replicate 100 0xFF)] true).batch.1 =
        [(failedLoginEvent (List.replicate 100 0xFF)).coerced] := by decide +kernel
    refine ⟨(400, "invalid event"), ?_⟩
    simp only [sent, List.map_cons, Event.coerced_coerced, checkEvents_cons, checkEvent, refused, if_true]

end SshLogger
