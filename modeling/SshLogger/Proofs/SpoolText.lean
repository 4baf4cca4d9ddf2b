import SshLogger.SpoolText
import SshLogger.Proofs.WireRuns

/-! The texts of the spool say what the spool holds. Whatever an agent does, it can
open its file again, and reads back the checkpoint, the events and the policy it had. -/

namespace SshLogger
open Library Library.Bytes Library.Json Library.History

/-- What the text of a checkpoint can say. -/
structure Checkpoint.Storable (cp : Checkpoint) : Prop where
  boot : IsText cp.boot
  offset : cp.offset < 2 ^ 63
  dropped : cp.dropped < 2 ^ 63

theorem checkpointFields_apart : NamesApart (checkpointFields.map Prod.fst) := by decide +kernel

def Checkpoint.chosen (cp : Checkpoint) : List ((String × (Checkpoint → Value → Option Checkpoint)) × Value) :=
  checkpointFields.zip [.str cp.inode, .int cp.offset, .str (readBack cp.boot), .int cp.dropped]

theorem renders_checkpoint (cp : Checkpoint) :
    Renders (runes cp.json) (.obj (cp.chosen.map fun entry => (entry.1.1, entry.2))) := by
  have inode := renders_quote (utf8 cp.inode)
  rw [readBack_utf8] at inode
  exact renders_object (.cons (renders_member inode.renders) (.cons (renders_member (renders_decimal _))
    (.cons (renders_member (renders_quote cp.boot).renders) (.cons (renders_member (renders_decimal _)) .nil))))

theorem unmarshal_checkpoint {cp : Checkpoint} (storable : cp.Storable) :
    unmarshal checkpointFields noCheckpoint cp.json = some cp := by
  have known : ∀ entry ∈ cp.chosen, entry.1 ∈ checkpointFields := fun entry member => (List.of_mem_zip member).1
  have low := storable.offset
  have few := storable.dropped
  have offset : decodeInt 0 (.int cp.offset) = some (cp.offset : Int) := decodeInt_int (by omega) (by omega)
  have dropped : decodeInt 0 (.int cp.dropped) = some (cp.dropped : Int) := decodeInt_int (by omega) (by omega)
  rw [unmarshal, (renders_checkpoint cp).parse, Option.bind_some, decode_fields checkpointFields_apart cp.chosen known]
  simp [Checkpoint.chosen, checkpointFields, noCheckpoint, decodeString, decodeBytes, offset, dropped, utf8_readBack,
    storable.boot.coerce]

theorem unmarshal_event {e : Event} (encodable : e.Encodable) :
    unmarshal eventFields zeroEvent e.json = some ⟨e.coerced, []⟩ := by
  rw [unmarshal, (renders_event e).parse, Option.bind_some]
  exact decodeEvent_value encodable false

structure StoredAs (row : TextRow) (original : QueueRow) : Prop where
  id : row.id = original.id
  read : unmarshal eventFields zeroEvent row.payload = some ⟨original.payload.event, []⟩
  size : row.payload.length = original.payload.size

theorem storedAs_marshal {e : Event} (encodable : e.Encodable) : StoredAs ⟨e.id, e.json⟩ ⟨e.id, marshal e⟩ :=
  ⟨rfl, unmarshal_event encodable, rfl⟩

structure TextSpool.Holds (t : TextSpool) (s : Spool) : Prop where
  limit : t.limit = s.limit
  cp : t.cp = s.cp
  checkpoint : Option.Rel (fun raw cp => raw = cp.json ∧ cp.Storable) t.file.checkpoint s.db.checkpoint
  queue : List.Forall₂ StoredAs t.file.queue s.db.queue
  cache : ∃ read, cachedFirewall t.file.firewallCache = .ok read ∧ SamePolicy read s.db.firewallCache

section
variable {rows : List TextRow} {queue : List QueueRow}

theorem has_storedAs (stored : List.Forall₂ StoredAs rows queue) (id : Bytes) :
    Rows.has TextRow.id id rows = Rows.has QueueRow.id id queue := by
  induction stored with
  | nil => rfl
  | cons first rest ih =>
    simp only [Rows.has, List.any_cons] at ih ⊢
    rw [first.id, ih]

theorem storedSize_storedAs (stored : List.Forall₂ StoredAs rows queue) : storedSize rows = queuedSize queue := by
  induction stored with
  | nil => rfl
  | cons first rest ih =>
    simp only [storedSize, queuedSize, List.map_cons, List.sum_cons] at ih ⊢
    rw [first.size, ih]

theorem delete_storedAs (stored : List.Forall₂ StoredAs rows queue) (id : Bytes) :
    List.Forall₂ StoredAs (Rows.delete (fun row => row.id == id) rows) (Rows.delete (fun row => row.id == id) queue) := by
  apply List.rel_filter _ stored
  intro row original same
  simp [same.id]

structure SameAdmission (t : TextAdmission) (s : Admission) : Prop where
  queue : List.Forall₂ StoredAs t.queue s.queue
  used : t.used = s.used
  dropped : t.dropped = s.dropped

theorem offerText_same {t : TextAdmission} {s : Admission} {ev : Event} (limit : Nat) (same : SameAdmission t s)
    (encodable : ev.Encodable) : SameAdmission (offerText limit t ev) (offer limit s ev) := by
  have known := has_storedAs same.queue ev.id
  have text : offerText limit t ev = if Rows.has TextRow.id ev.id t.queue then t
      else if exceedsLimits (marshal ev) ev || t.used + (marshal ev).size > limit then { t with dropped := t.dropped + 1 }
      else { t with queue := t.queue ++ [⟨ev.id, ev.json⟩], used := t.used + (marshal ev).size } := rfl
  rw [text, offer, known, same.used]
  split
  · exact same
  · split
    · exact ⟨same.queue, rfl, congrArg (· + 1) same.dropped⟩
    · exact ⟨List.rel_append same.queue (.cons (storedAs_marshal encodable) .nil), rfl, same.dropped⟩

theorem offerAll_same {t : TextAdmission} {s : Admission} {events : List Event} (limit : Nat) (same : SameAdmission t s)
    (encodable : ∀ ev ∈ events, ev.Encodable) :
    SameAdmission (events.foldl (offerText limit) t) (offerAll limit s events) := by
  induction events generalizing t s with
  | nil => exact same
  | cons ev rest ih =>
    obtain ⟨first, others⟩ := List.forall_mem_cons.mp encodable
    exact ih (offerText_same limit same first) others

end

theorem offerAll_dropped_few (limit : Nat) (state : Admission) (events : List Event) :
    (offerAll limit state events).dropped ≤ state.dropped + events.length := by
  induction events generalizing state with
  | nil => exact Nat.le_refl _
  | cons ev rest ih =>
    have one : (offer limit state ev).dropped ≤ state.dropped + 1 := by
      simp only [offer]
      split
      · exact Nat.le_succ _
      · split <;> simp
    have more := ih (offer limit state ev)
    simp only [offerAll, List.foldl_cons, List.length_cons] at more ⊢
    omega

section
variable {t : TextSpool} {s : Spool}

/-- The numbers of the checkpoint stay 64-bit integers when this many events are lost. -/
def Checkpoint.Fits (cp : Checkpoint) (more : Nat) : Prop := cp.offset < 2 ^ 63 ∧ cp.dropped + more < 2 ^ 63

theorem TextSpool.Holds.commit (holds : t.Holds s) {cp : Checkpoint} {events : List Event} (boot : IsText cp.boot)
    (fits : cp.Fits events.length) (encodable : ∀ ev ∈ events, ev.Encodable) (stored : Bool) :
    (t.commit cp events stored).Holds (s.commit cp events stored) := by
  cases stored with
  | false => exact holds
  | true =>
    have start : SameAdmission ⟨t.file.queue, storedSize t.file.queue, cp.dropped⟩
        ⟨s.db.queue, queuedSize s.db.queue, cp.dropped⟩ := ⟨holds.queue, storedSize_storedAs holds.queue, rfl⟩
    obtain ⟨queue, -, dropped⟩ := offerAll_same s.limit start encodable
    have lost := offerAll_dropped_few s.limit ⟨s.db.queue, queuedSize s.db.queue, cp.dropped⟩ events
    have few := fits.2
    simp only [TextSpool.commit, Spool.commit, Bool.not_true, Bool.false_eq_true, if_false, holds.limit, dropped]
    refine ⟨rfl, rfl, .some ⟨rfl, boot, fits.1, ?_⟩, queue, holds.cache⟩
    exact Nat.lt_of_le_of_lt lost few

theorem read_boot {cp next : Checkpoint} {dir : LogDir} {now : Int} {passed : List Group}
    (got : read cp dir now = .ok (next, passed)) : next.boot = cp.boot := by
  have located : (locate cp dir).1.boot = cp.boot := by
    rw [locate]
    split
    · rfl
    · split <;> rfl
  rw [read] at got
  generalize locate cp dir = found at got located
  obtain ⟨middle, file⟩ := found
  have checked : (checkTruncated middle file).boot = middle.boot := by
    rw [checkTruncated]
    split <;> rfl
  simp only [readFile] at got
  split at got
  · cases got
  · rw [← located, ← checked]
    split at got
    · obtain ⟨rfl, -⟩ := Prod.mk.inj (Except.ok.inj got)
      rfl
    · obtain ⟨rfl, -⟩ := Prod.mk.inj (Except.ok.inj got)
      rfl

structure CollectFits (s : Spool) (c : Collector) (dir : LogDir) (now : Int) : Prop where
  boot : IsText c.boot
  attached : (attach c s.cp dir).1.Fits 0
  read : ∀ next passed, read (attach c s.cp dir).1 dir now = .ok (next, passed) → next.Fits (groupEvents c passed).length

theorem TextSpool.Holds.collect (holds : t.Holds s) {c : Collector} {dir : LogDir} {now : Int} (fits : CollectFits s c dir now)
    (attached stored : Bool) : (t.collect c dir now attached stored).1.Holds (s.collect c dir now attached stored).1 ∧
      (t.collect c dir now attached stored).2 = (s.collect c dir now attached stored).2 := by
  have own : IsText (attach c s.cp dir).1.boot := (attach_boot c s.cp dir).symm ▸ fits.boot
  have start : ((if (attach c s.cp dir).2 then t.commit (attach c s.cp dir).1 [] attached else t)).Holds
      (if (attach c s.cp dir).2 then s.commit (attach c s.cp dir).1 [] attached else s) := by
    have few : (attach c s.cp dir).1.Fits ([] : List Event).length := fits.attached
    split
    · exact holds.commit own few (by simp) attached
    · exact holds
  simp only [TextSpool.collect, Spool.collect, holds.cp]
  split
  · exact ⟨start, rfl⟩
  · cases got : SshLogger.read (attach c s.cp dir).1 dir now with
    | error problem => exact ⟨start, rfl⟩
    | ok result =>
      obtain ⟨next, passed⟩ := result
      have boot : IsText next.boot := (read_boot got).symm ▸ own
      exact ⟨start.commit boot (fits.read next passed got) (groupEvents_encodable got) stored, rfl⟩

theorem TextSpool.Holds.ack (holds : t.Holds s) (events : List Event) (stored : Bool) :
    (t.ack events stored).Holds (s.ack events stored) := by
  cases stored with
  | false => exact holds
  | true =>
    refine { holds with queue := ?_ }
    simp only [TextSpool.ack, Spool.ack, Bool.not_true, Bool.false_eq_true, if_false]
    have queue := holds.queue
    generalize t.file.queue = rows at queue
    generalize s.db.queue = originals at queue
    induction events generalizing rows originals with
    | nil => exact queue
    | cons ev rest ih => exact ih _ _ (delete_storedAs queue ev.id)

/-- Opening the file gives what the process had. -/
theorem TextSpool.Holds.reopen (holds : t.Holds s) (limit : Nat) :
    ∃ again, openText t.file limit = .ok again ∧ again.Holds (openSpool s.db limit) := by
  obtain ⟨file, cp, old⟩ := t
  obtain ⟨-, -, checkpoint, queue, cache⟩ := holds
  obtain ⟨raw, rows, row⟩ := file
  obtain ⟨⟨stored, originals, cached⟩, own, limits⟩ := s
  simp only at checkpoint queue cache
  cases checkpoint with
  | none => exact ⟨_, rfl, rfl, rfl, .none, queue, cache⟩
  | @some text original same =>
    obtain ⟨rfl, storable⟩ := same
    have written : original.json.isEmpty = false := rfl
    refine ⟨⟨⟨some original.json, rows, row⟩, original, limit⟩, ?_, rfl, rfl, .some ⟨rfl, storable⟩, queue, cache⟩
    simp only [openText, written, Bool.false_eq_true, if_false, unmarshal_checkpoint storable]

theorem TextSpool.Holds.save (holds : t.Holds s) {p : FirewallPolicy} (keyed : p.Keyed) (nils : NilLists) (stored : Bool) :
    ∃ next, t.perform (.saveFirewall p nils stored) = .ok next ∧ next.Holds (s.perform (.saveFirewall p nils stored)) := by
  refine ⟨_, rfl, ?_⟩
  cases checked : p.validate with
  | error problem =>
    have kept : (saveFirewall t.file.firewallCache nils p stored).2 = t.file.firewallCache := by
      simp only [saveFirewall, checked]
    have same : s.perform (.saveFirewall p nils stored) = s := by simp [Spool.perform, FirewallPolicy.isValid, checked]
    rw [kept, same]
    exact holds
  | ok =>
    cases stored with
    | false =>
      have kept : (saveFirewall t.file.firewallCache nils p false).2 = t.file.firewallCache := by
        simp [saveFirewall, checked]
      have same : s.perform (.saveFirewall p nils false) = s := by simp [Spool.perform]
      rw [kept, same]
      exact holds
    | true =>
      obtain ⟨read, found, alike, -⟩ := cachedFirewall_saved checked keyed nils
      have written : (saveFirewall t.file.firewallCache nils p true).2 = some (marshalPolicy nils p) := by
        simp [saveFirewall, checked]
      have same : s.perform (.saveFirewall p nils true) = { s with db := { s.db with firewallCache := some p } } := by
        simp [Spool.perform, FirewallPolicy.isValid, checked]
      rw [written, same]
      exact { holds with cache := ⟨some read, found, .some alike⟩ }

theorem readBatch_same {rows : List TextRow} {queue : List QueueRow} (stored : List.Forall₂ StoredAs rows queue)
    (size : Nat) (out : List Event) : TextSpool.readBatch size out rows = .ok (Spool.takeBatch size out queue) := by
  induction stored generalizing size out with
  | nil => rfl
  | @cons row original rows queue first rest ih =>
    simp only [TextSpool.readBatch, Spool.takeBatch, first.size]
    split
    · rfl
    · simp only [first.read]
      exact ih _ _

theorem TextSpool.Holds.batch (holds : t.Holds s) : t.batch = .ok s.batch := by
  have read := readBatch_same (List.forall₂_take 100 holds.queue) 0 []
  simp only [TextSpool.batch, Spool.batch, read, holds.queue.length_eq]
  rfl

/-- What is assumed of an operation: its checkpoints are machine integers, and a policy
names every address once. -/
def SpoolAct.IsGenuine (s : Spool) : SpoolAct → Prop
  | .collect c dir now _ _ => CollectFits s c dir now
  | .saveFirewall p _ _ => p.Keyed
  | _ => True

theorem TextSpool.Holds.perform (holds : t.Holds s) {act : SpoolAct} (genuine : act.IsGenuine s) :
    ∃ next, t.perform act = .ok next ∧ next.Holds (s.perform act) := by
  cases act with
  | reopen limit => exact holds.reopen limit
  | collect c dir now attached stored => exact ⟨_, rfl, (holds.collect genuine attached stored).1⟩
  | ack events stored => exact ⟨_, rfl, holds.ack events stored⟩
  | saveFirewall p nils stored => exact holds.save genuine nils stored

end

section
variable {nils : FirewallPolicy → NilLists} {a after : Agent} {act : AgentAct}

theorem Agent.Step.spool (moved : a.Step act after) : after.spool = (spoolActs nils a act).foldl Spool.perform a.spool := by
  cases moved with
  | start canTerminate down =>
    simp only [Agent.start, spoolActs, List.foldl_cons, List.foldl_nil, Spool.perform]
    split
    · rfl
    · split <;> rfl
  | receive response waiting => exact (a.receive_frame _ response).1
  | fail waiting => exact a.fail_frame.1
  | @save stored p rest saving =>
    simp only [spoolActs, saving, List.foldl_cons, List.foldl_nil, Spool.perform, Agent.save]
    split <;> rfl
  | @apply outcome p rest applying => exact (a.apply_frame p rest outcome).1
  | finish outcome stored answered =>
    simp only [spoolActs, answered]
    rfl
  | _ => rfl

theorem spoolActs_one : spoolActs nils a act = [] ∨ ∃ one, spoolActs nils a act = [one] := by
  cases act with
  | start => exact .inr ⟨_, rfl⟩
  | collect => exact .inr ⟨_, rfl⟩
  | save =>
    simp only [spoolActs]
    split
    · exact .inr ⟨_, rfl⟩
    · exact .inl rfl
  | finish =>
    simp only [spoolActs]
    split
    · exact .inr ⟨_, rfl⟩
    · exact .inl rfl
  | _ => exact .inl rfl

def performed (nils : FirewallPolicy → NilLists) (history : List (Transition Agent AgentAct)) : List SpoolAct :=
  history.reverse.flatMap fun t => spoolActs nils t.before t.action

theorem performed_cons (t : Transition Agent AgentAct) (history : List (Transition Agent AgentAct)) :
    performed nils (t :: history) = performed nils history ++ spoolActs nils t.before t.action := by
  simp [performed]

/-- What a process that opens the file finds in it. -/
structure ReadsBack (t : TextSpool) (s : Spool) : Prop where
  cp : t.cp = s.cp
  batch : t.batch = .ok s.batch
  cache : ∃ read, cachedFirewall t.file.firewallCache = .ok read ∧ SamePolicy read s.db.firewallCache
  reopened : ∀ limit, ∃ again, openText t.file limit = .ok again ∧ again.cp = (openSpool s.db limit).cp ∧
    again.batch = .ok s.batch

theorem TextSpool.Holds.readsBack {t : TextSpool} {s : Spool} (holds : t.Holds s) : ReadsBack t s where
  cp := holds.cp
  batch := holds.batch
  cache := holds.cache
  reopened limit := by
    obtain ⟨again, opened, same⟩ := holds.reopen limit
    exact ⟨again, opened, same.cp, same.batch⟩

theorem holds_of_run {history : List (Transition Agent AgentAct)} (run : Run agentRuns history a)
    (genuine : ∀ t ∈ history, ∀ act ∈ spoolActs nils t.before t.action, act.IsGenuine t.before.spool) :
    ∃ limit t, (performed nils history).foldlM TextSpool.perform ⟨newFile, noCheckpoint, limit⟩ = .ok t ∧ t.Holds a.spool := by
  induction run with
  | start started =>
    obtain ⟨limit, rfl⟩ := started
    exact ⟨limit, _, rfl, rfl, rfl, .none, .nil, none, rfl, .none⟩
  | @next history a act after earlier moved ih =>
    obtain ⟨last, before⟩ := List.forall_mem_cons.mp genuine
    obtain ⟨limit, t, done, holds⟩ := ih before
    have spool := @Agent.Step.spool nils _ _ _ moved
    rw [performed_cons]
    rcases @spoolActs_one nils a act with nothing | ⟨one, single⟩
    · rw [nothing] at spool ⊢
      rw [List.append_nil]
      exact ⟨limit, t, done, spool ▸ holds⟩
    · have own : one.IsGenuine a.spool := last one (by simp [single])
      obtain ⟨next, performed, same⟩ := holds.perform own
      rw [single] at spool ⊢
      refine ⟨limit, next, ?_, spool ▸ same⟩
      rw [List.foldlM_append, done]
      exact congrArg (fun result => result.bind pure) performed |>.trans rfl

/-- In every run of an agent, whatever it wrote, its file can be opened, and says what
the spool of the process says: the checkpoint, the batch and the policy. -/
theorem spool_reads_back {history : List (Transition Agent AgentAct)} (run : Run agentRuns history a)
    (genuine : ∀ t ∈ history, ∀ act ∈ spoolActs nils t.before t.action, act.IsGenuine t.before.spool) :
    ∃ limit t, (performed nils history).foldlM TextSpool.perform ⟨newFile, noCheckpoint, limit⟩ = .ok t ∧
      ReadsBack t a.spool := by
  obtain ⟨limit, t, done, holds⟩ := holds_of_run run genuine
  exact ⟨limit, t, done, holds.readsBack⟩

end

/-- A login is queued and a policy is saved; then the process starts anew. -/
theorem spool_reads_back_login : ∃ limit t a, (∃ history, Run agentRuns history a ∧
      (performed (fun _ => ⟨false, false, false⟩) history).foldlM TextSpool.perform ⟨newFile, noCheckpoint, limit⟩ = .ok t) ∧
    ReadsBack t a.spool ∧ a.spool.batch.1.map Event.id = [utf8 "b:1.000:1:login_success"] ∧
      a.spool.db.firewallCache = some plainPolicy := by
  have fresh : Run agentRuns [] (Agent.installed 67108864) := .start ⟨67108864, rfl⟩
  have started := fresh.next (.start true rfl)
  have read := started.next (.collect ⟨utf8 "b", true, id⟩ deliveryLog 1000000 true true rfl)
  have sent := read.next (@Agent.Step.beat _ 0 (utf8 "ok") (by decide +kernel))
  have received := sent.next (.receive ⟨some plainPolicy, 1, []⟩ rfl)
  have saved := received.next (.save true rfl)
  have stopped := saved.next .stop
  have again := stopped.next (.start true rfl)
  have collected : CollectFits (Agent.installed 67108864).spool ⟨utf8 "b", true, id⟩ deliveryLog 1000000 := by
    refine ⟨⟨"b", rfl⟩, ⟨by decide, by decide⟩, fun next passed got => ?_⟩
    have every : ((SshLogger.read (attach ⟨utf8 "b", true, id⟩ (Agent.installed 67108864).spool.cp deliveryLog).1 deliveryLog
        1000000).toOption.all fun found => decide (found.1.offset < 2 ^ 63) &&
          decide (found.1.dropped + (groupEvents ⟨utf8 "b", true, id⟩ found.2).length < 2 ^ 63)) = true := by decide +kernel
    rw [got] at every
    simpa [Except.toOption, Checkpoint.Fits] using every
  have reopened : ∀ {s : Spool} {limit : Nat}, ∀ act ∈ [SpoolAct.reopen limit], act.IsGenuine s := by
    intro s limit act member
    obtain rfl := List.mem_singleton.mp member
    trivial
  have saving : ∀ {s : Spool}, ∀ act ∈ [SpoolAct.saveFirewall plainPolicy ⟨false, false, false⟩ true], act.IsGenuine s := by
    intro s act member
    obtain rfl := List.mem_singleton.mp member
    exact List.nodup_nil
  have collecting : ∀ act ∈ [SpoolAct.collect ⟨utf8 "b", true, id⟩ deliveryLog 1000000 true true],
      act.IsGenuine ((Agent.installed 67108864).start true).spool := by
    intro act member
    obtain rfl := List.mem_singleton.mp member
    exact collected
  obtain ⟨limit, t, done, back⟩ := @spool_reads_back (fun _ => ⟨false, false, false⟩) _ _ again
    (List.forall_mem_cons.mpr ⟨reopened, List.forall_mem_cons.mpr ⟨List.forall_mem_nil _,
      List.forall_mem_cons.mpr ⟨saving, List.forall_mem_cons.mpr ⟨List.forall_mem_nil _,
        List.forall_mem_cons.mpr ⟨List.forall_mem_nil _, List.forall_mem_cons.mpr ⟨collecting,
          List.forall_mem_cons.mpr ⟨reopened, List.forall_mem_nil _⟩⟩⟩⟩⟩⟩⟩)
  exact ⟨limit, t, _, ⟨_, again, done⟩, back, by decide +kernel, by decide +kernel⟩

end SshLogger
