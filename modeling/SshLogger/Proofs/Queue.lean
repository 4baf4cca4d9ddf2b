import Mathlib.Algebra.Order.BigOperators.Group.List
import SshLogger.Spool
import SshLogger.Library.Rowid

/-! The spool's queue over any sequence of calls: what it holds, what a commit
adds to it or counts as lost, what a batch takes from it, and that a call that
fails at any of its statements changes nothing. Rows stand in the order they
were queued in, for the store gives them rising ids. -/

namespace SshLogger
open Library Library.Rowid

/-- A transaction under way. `done` counts its statements so far. -/
structure RowTx where
  table : Table QueueRow
  used : Nat
  dropped : Nat
  done : Nat

/-- `broken` tells which statements fail. -/
def RowTx.statement (broken : Nat → Bool) (tx : RowTx) : Option RowTx :=
  if broken tx.done then none else some { tx with done := tx.done + 1 }

def offerRow (limit : Nat) (broken : Nat → Bool) (tx : RowTx) (ev : Event) : Option RowTx :=
  let raw := marshal ev
  (tx.statement broken).bind fun tx =>
    if tx.table.entries.any fun entry => entry.2.id == ev.id then some tx
    else if exceedsLimits raw ev || tx.used + raw.size > limit then some { tx with dropped := tx.dropped + 1 }
    else
      (tx.statement broken).map fun tx =>
        { tx with table := tx.table.insert ⟨ev.id, raw⟩, used := tx.used + raw.size }

def deleteRow (broken : Nat → Bool) (tx : RowTx) (ev : Event) : Option RowTx :=
  (tx.statement broken).map fun tx => { tx with table := tx.table.delete fun row => row.id == ev.id }

/-- The spool as the store keeps it, its queue a table with row ids. -/
structure RowSpool where
  table : Table QueueRow
  checkpoint : Option Checkpoint
  firewallCache : Option FirewallPolicy
  cp : Checkpoint
  limit : Nat

namespace RowSpool

/-- The second component tells whether the call succeeds. The loss counter
that the loop raises is that of the argument, a copy of `s.cp`. -/
def commit (s : RowSpool) (cp : Checkpoint) (events : List Event) (broken : Nat → Bool) : RowSpool × Bool :=
  let used := (s.table.entries.map fun entry => entry.2.payload.size).sum
  let ended := do
    let tx ← RowTx.statement broken ⟨s.table, 0, cp.dropped, 0⟩
    let tx ← tx.statement broken
    let tx ← events.foldlM (offerRow s.limit broken) { tx with used }
    let tx ← tx.statement broken
    tx.statement broken
  match ended with
  | none => (s, false)
  | some tx =>
    let cp := { cp with dropped := tx.dropped }
    ({ s with table := tx.table, checkpoint := some cp, cp }, true)

/-- `ORDER BY rowid LIMIT 100` -/
def batch (s : RowSpool) : List Event × Nat := (Spool.takeBatch 0 [] (s.table.rows.take 100), s.table.entries.length)

def ack (s : RowSpool) (events : List Event) (broken : Nat → Bool) : RowSpool × Bool :=
  let ended := do
    let tx ← RowTx.statement broken ⟨s.table, 0, 0, 0⟩
    let tx ← events.foldlM (deleteRow broken) tx
    tx.statement broken
  match ended with
  | none => (s, false)
  | some tx => ({ s with table := tx.table }, true)

end RowSpool

inductive SpoolCall
  | commit (cp : Checkpoint) (events : List Event) (broken : Nat → Bool)
  | batch
  | ack (events : List Event) (broken : Nat → Bool)

def RowSpool.call (s : RowSpool) : SpoolCall → RowSpool
  | .commit cp events broken => (s.commit cp events broken).1
  | .batch => s
  | .ack events broken => (s.ack events broken).1

def RowSpool.calls (s : RowSpool) (calls : List SpoolCall) : RowSpool := calls.foldl RowSpool.call s

def newSpool (checkpoint : Option Checkpoint) (firewallCache : Option FirewallPolicy) (limit : Nat) : RowSpool :=
  ⟨Table.empty, checkpoint, firewallCache, checkpoint.getD noCheckpoint, limit⟩

def RowSpool.spool (s : RowSpool) : Spool := ⟨⟨s.checkpoint, s.table.rows, s.firewallCache⟩, s.cp, s.limit⟩

def RowTx.admission (tx : RowTx) : Admission := ⟨tx.table.rows, tx.used, tx.dropped⟩

theorem statement_same {broken : Nat → Bool} {tx next : RowTx} (done : tx.statement broken = some next) :
    next.table = tx.table ∧ next.used = tx.used ∧ next.dropped = tx.dropped := by
  simp only [RowTx.statement] at done
  split at done
  · cases done
  · cases done
    exact ⟨rfl, rfl, rfl⟩

theorem statement_admission {broken : Nat → Bool} {tx next : RowTx} (done : tx.statement broken = some next) :
    next.admission = tx.admission := by
  obtain ⟨table, used, dropped⟩ := statement_same done
  rw [RowTx.admission, RowTx.admission, table, used, dropped]

theorem entries_any_id (table : Table QueueRow) (id : Bytes) :
    (table.entries.any fun entry => entry.2.id == id) = Rows.has QueueRow.id id table.rows := by
  rw [Bool.eq_iff_iff, Rows.has_iff, List.any_eq_true]
  constructor
  · rintro ⟨entry, member, found⟩
    exact ⟨entry.2, Table.mem_rows.mpr (List.mem_map_of_mem member), by simpa using found⟩
  · rintro ⟨row, member, found⟩
    obtain ⟨entry, inside, rfl⟩ := List.mem_map.mp (Table.mem_rows.mp member)
    exact ⟨entry, inside, by simpa using found⟩

theorem offerRow_admission {limit : Nat} {broken : Nat → Bool} {tx next : RowTx} {ev : Event}
    (offered : offerRow limit broken tx ev = some next) : next.admission = offer limit tx.admission ev := by
  obtain ⟨checked, asked, offered⟩ := Option.bind_eq_some_iff.mp offered
  rw [← statement_admission asked]
  simp only [entries_any_id] at offered
  change next.admission = offer limit ⟨checked.table.rows, checked.used, checked.dropped⟩ ev
  simp only [offer]
  split at offered
  next queued =>
    cases offered
    rw [if_pos queued, RowTx.admission]
  next fresh =>
    rw [if_neg fresh]
    split at offered
    next refused =>
      cases offered
      rw [if_pos refused, RowTx.admission]
    next roomy =>
      rw [if_neg roomy]
      obtain ⟨inserted, added, rfl⟩ := Option.map_eq_some_iff.mp offered
      obtain ⟨table, used, dropped⟩ := statement_same added
      rw [RowTx.admission, table, used, dropped, Table.rows_insert]

theorem offerRows_admission {limit : Nat} {broken : Nat → Bool} {tx next : RowTx} {events : List Event}
    (offered : events.foldlM (offerRow limit broken) tx = some next) :
    next.admission = offerAll limit tx.admission events := by
  induction events generalizing tx with
  | nil =>
    cases offered
    rfl
  | cons ev rest ih =>
    rw [List.foldlM_cons] at offered
    obtain ⟨middle, first, later⟩ := Option.bind_eq_some_iff.mp offered
    rw [ih later, offerRow_admission first, offerAll, offerAll, List.foldl_cons]

theorem rows_size (t : Table QueueRow) : (t.entries.map fun entry => entry.2.payload.size).sum = queuedSize t.rows := by
  have perm := (List.perm_insertionSort (fun first second : Nat × QueueRow => first.1 ≤ second.1) t.entries).map
    fun entry => entry.2.payload.size
  rw [← perm.sum_nat, queuedSize, Table.rows, List.map_map]
  rfl

theorem commit_failed {s : RowSpool} {cp : Checkpoint} {events : List Event} {broken : Nat → Bool}
    (failed : (s.commit cp events broken).2 = false) : (s.commit cp events broken).1 = s := by
  simp only [RowSpool.commit] at failed ⊢
  split at failed
  · rfl
  · exact Bool.noConfusion failed

/-- A commit does to the queue in order what `Spool.commit` says. -/
theorem commit_spool (s : RowSpool) (cp : Checkpoint) (events : List Event) (broken : Nat → Bool) :
    (s.commit cp events broken).1.spool = s.spool.commit cp events (s.commit cp events broken).2 := by
  cases succeeded : (s.commit cp events broken).2 with
  | false => rw [commit_failed succeeded]; rfl
  | true =>
    simp only [RowSpool.commit] at succeeded ⊢
    split at succeeded
    · exact Bool.noConfusion succeeded
    next tx ended =>
      obtain ⟨begun, starts, ended'⟩ := Option.bind_eq_some_iff.mp ended
      obtain ⟨summed, sums, ended'⟩ := Option.bind_eq_some_iff.mp ended'
      obtain ⟨offered, offers, ended'⟩ := Option.bind_eq_some_iff.mp ended'
      obtain ⟨saved, saves, commits⟩ := Option.bind_eq_some_iff.mp ended'
      have start : summed.admission = ⟨s.table.rows, 0, cp.dropped⟩ :=
        (statement_admission sums).trans (statement_admission starts)
      have last : tx.admission = offerAll s.limit ⟨s.table.rows, queuedSize s.table.rows, cp.dropped⟩ events := by
        rw [statement_admission commits, statement_admission saves, offerRows_admission offers]
        congr 1
        simp only [RowTx.admission, Admission.mk.injEq] at start ⊢
        exact ⟨start.1, rows_size s.table, start.2.2⟩
      have queue := congrArg Admission.queue last
      have dropped := congrArg Admission.dropped last
      simp only [RowTx.admission] at queue dropped
      simp only [Spool.commit, RowSpool.spool, Bool.not_true, Bool.false_eq_true, if_false, queue, dropped]

/-- The queue and the checkpoint, stored and in memory, after a commit that succeeds. -/
theorem commit_succeeded {s : RowSpool} {cp : Checkpoint} {events : List Event} {broken : Nat → Bool}
    (succeeded : (s.commit cp events broken).2 = true) :
    let state := offerAll s.limit ⟨s.table.rows, queuedSize s.table.rows, cp.dropped⟩ events
    (s.commit cp events broken).1.table.rows = state.queue ∧
      (s.commit cp events broken).1.cp = { cp with dropped := state.dropped } ∧
      (s.commit cp events broken).1.checkpoint = some { cp with dropped := state.dropped } := by
  have same := commit_spool s cp events broken
  rw [succeeded] at same
  exact ⟨congrArg (fun spool => spool.db.queue) same, congrArg Spool.cp same, congrArg (fun spool => spool.db.checkpoint) same⟩

theorem ack_failed {s : RowSpool} {events : List Event} {broken : Nat → Bool}
    (failed : (s.ack events broken).2 = false) : (s.ack events broken).1 = s := by
  simp only [RowSpool.ack] at failed ⊢
  split at failed
  · rfl
  · exact Bool.noConfusion failed

theorem deletes_rows {broken : Nat → Bool} {tx next : RowTx} {events : List Event}
    (deleted : events.foldlM (deleteRow broken) tx = some next) :
    next.table.rows = tx.table.rows.filter fun row => !(events.map Event.id).contains row.id := by
  induction events generalizing tx with
  | nil =>
    cases deleted
    simp
  | cons ev rest ih =>
    rw [List.foldlM_cons] at deleted
    obtain ⟨middle, first, later⟩ := Option.bind_eq_some_iff.mp deleted
    obtain ⟨asked, done, rfl⟩ := Option.map_eq_some_iff.mp first
    rw [ih later, Table.rows_delete, (statement_same done).1, List.filter_filter]
    refine List.filter_congr fun row _ => ?_
    rw [List.map_cons, List.contains_cons, Bool.not_or, Bool.and_comm]

theorem ack_rows {s : RowSpool} {events : List Event} {broken : Nat → Bool}
    (succeeded : (s.ack events broken).2 = true) :
    (s.ack events broken).1.table.rows = s.table.rows.filter fun row => !(events.map Event.id).contains row.id := by
  simp only [RowSpool.ack] at succeeded ⊢
  split at succeeded
  · exact Bool.noConfusion succeeded
  next tx ended =>
    obtain ⟨begun, starts, ended'⟩ := Option.bind_eq_some_iff.mp ended
    obtain ⟨deleted, deletes, commits⟩ := Option.bind_eq_some_iff.mp ended'
    simp only [(statement_same commits).1, deletes_rows deletes, (statement_same starts).1]

theorem statement_done {broken : Nat → Bool} {tx : RowTx} (sound : broken tx.done = false) :
    tx.statement broken = some { tx with done := tx.done + 1 } := by
  simp [RowTx.statement, sound]

theorem offerRow_done {limit : Nat} {broken : Nat → Bool} {tx : RowTx} (ev : Event)
    (sound : ∀ n < tx.done + 2, broken n = false) :
    ∃ next, offerRow limit broken tx ev = some next ∧ next.done ≤ tx.done + 2 := by
  simp only [offerRow, statement_done (sound tx.done (by omega)), Option.bind_some]
  split
  · exact ⟨_, rfl, by simp⟩
  · split
    · exact ⟨_, rfl, by simp⟩
    · refine ⟨_, by rw [statement_done (sound (tx.done + 1) (by omega)), Option.map_some], ?_⟩
      exact Nat.le_refl _

theorem offerRows_done {limit : Nat} {broken : Nat → Bool} {tx : RowTx} (events : List Event)
    (sound : ∀ n < tx.done + 2 * events.length, broken n = false) :
    ∃ next, events.foldlM (offerRow limit broken) tx = some next ∧ next.done ≤ tx.done + 2 * events.length := by
  induction events generalizing tx with
  | nil => exact ⟨tx, rfl, Nat.le_refl _⟩
  | cons ev rest ih =>
    rw [List.length_cons] at sound ⊢
    obtain ⟨middle, first, few⟩ := @offerRow_done limit broken tx ev fun n small => sound n (by omega)
    obtain ⟨next, later, most⟩ := @ih middle fun n small => sound n (by omega)
    exact ⟨next, by rw [List.foldlM_cons, first]; exact later, by omega⟩

theorem deletes_done {broken : Nat → Bool} {tx : RowTx} (events : List Event)
    (sound : ∀ n < tx.done + events.length, broken n = false) :
    ∃ next, events.foldlM (deleteRow broken) tx = some next ∧ next.done = tx.done + events.length := by
  induction events generalizing tx with
  | nil => exact ⟨tx, rfl, rfl⟩
  | cons ev rest ih =>
    rw [List.length_cons] at sound ⊢
    have first : deleteRow broken tx ev =
        some { tx with done := tx.done + 1, table := tx.table.delete fun row => row.id == ev.id } := by
      rw [deleteRow, statement_done (sound tx.done (by omega)), Option.map_some]
    obtain ⟨next, later, count⟩ := @ih { tx with done := tx.done + 1, table := tx.table.delete fun row => row.id == ev.id }
      fun n small => sound n (by simp only at small; omega)
    exact ⟨next, by rw [List.foldlM_cons, first]; exact later, by simp only at count; omega⟩

/-- A commit none of whose statements fails succeeds. -/
theorem commit_works (s : RowSpool) (cp : Checkpoint) {events : List Event} {broken : Nat → Bool}
    (sound : ∀ n < 2 * events.length + 4, broken n = false) : (s.commit cp events broken).2 = true := by
  obtain ⟨tx, offers, few⟩ := @offerRows_done s.limit broken
    ⟨s.table, (s.table.entries.map fun entry => entry.2.payload.size).sum, cp.dropped, 2⟩ events
    fun n small => sound n (by simp only at small; omega)
  simp only at few
  have saves := @statement_done broken tx (sound _ (by omega))
  have commits := @statement_done broken { tx with done := tx.done + 1 } (sound _ (by simp only; omega))
  have first : RowTx.statement broken ⟨s.table, 0, cp.dropped, 0⟩ = some ⟨s.table, 0, cp.dropped, 1⟩ :=
    statement_done (sound 0 (by omega))
  have second : RowTx.statement broken ⟨s.table, 0, cp.dropped, 1⟩ = some ⟨s.table, 0, cp.dropped, 2⟩ :=
    statement_done (sound 1 (by omega))
  simp only [RowSpool.commit, Option.bind_eq_bind, first, second, Option.bind_some, offers, saves, commits]

theorem ack_works (s : RowSpool) {events : List Event} {broken : Nat → Bool}
    (sound : ∀ n < events.length + 2, broken n = false) : (s.ack events broken).2 = true := by
  obtain ⟨tx, deletes, count⟩ := @deletes_done broken ⟨s.table, 0, 0, 1⟩ events
    fun n small => sound n (by simp only at small; omega)
  simp only at count
  have first : RowTx.statement broken ⟨s.table, 0, 0, 0⟩ = some ⟨s.table, 0, 0, 1⟩ := statement_done (sound 0 (by omega))
  have commits := @statement_done broken tx (sound _ (by omega))
  simp only [RowSpool.ack, Option.bind_eq_bind, first, Option.bind_some, deletes, commits]

theorem ack_rest (s : RowSpool) (events : List Event) (broken : Nat → Bool) :
    (s.ack events broken).1 = { s with table := (s.ack events broken).1.table } := by
  simp only [RowSpool.ack]
  split <;> rfl

def admitted (limit : Nat) : Admission → List Event → List QueueRow
  | _, [] => []
  | state, ev :: rest =>
    (offer limit state ev).queue.drop state.queue.length ++ admitted limit (offer limit state ev) rest

/-- How many events find their id already queued, by an earlier commit or an
earlier event of this one. -/
def repeats (limit : Nat) : Admission → List Event → Nat
  | _, [] => 0
  | state, ev :: rest =>
    (if Rows.has QueueRow.id ev.id state.queue then 1 else 0) + repeats limit (offer limit state ev) rest

/-- One event is queued at the end, was there, or is counted as lost. -/
theorem offer_counts (limit : Nat) (state : Admission) (ev : Event) :
    (offer limit state ev).queue = state.queue ++ (offer limit state ev).queue.drop state.queue.length ∧
      ((offer limit state ev).queue.drop state.queue.length).length +
        (if Rows.has QueueRow.id ev.id state.queue then 1 else 0) + (offer limit state ev).dropped = state.dropped + 1 := by
  simp only [offer]
  split
  next queued => simp [Nat.add_comm]
  next =>
    split
    · simp
    · simp [Nat.add_comm]

theorem offerAll_counts (limit : Nat) (state : Admission) (events : List Event) :
    (offerAll limit state events).queue = state.queue ++ admitted limit state events ∧
      (admitted limit state events).length + repeats limit state events + (offerAll limit state events).dropped =
        state.dropped + events.length := by
  induction events generalizing state with
  | nil => simp [offerAll, admitted, repeats]
  | cons ev rest ih =>
    obtain ⟨queue, sum⟩ := offer_counts limit state ev
    obtain ⟨later, total⟩ := ih (offer limit state ev)
    have rest_of : offerAll limit state (ev :: rest) = offerAll limit (offer limit state ev) rest := rfl
    constructor
    · rw [rest_of, later, admitted, ← List.append_assoc, ← queue]
    · rw [rest_of, admitted, repeats, List.length_append, List.length_cons]
      omega

/-- The counter `used` is the size of the queue, and within the limit. -/
structure Admission.Sized (limit : Nat) (state : Admission) : Prop where
  used : state.used = queuedSize state.queue
  within : state.used ≤ limit
  each : ∀ row ∈ state.queue, row.payload.size ≤ 256 * 1024

theorem offer_sized {limit : Nat} {state : Admission} (sized : state.Sized limit) (ev : Event) :
    (offer limit state ev).Sized limit := by
  simp only [offer]
  split
  · exact sized
  · split
    · exact ⟨sized.used, sized.within, sized.each⟩
    next roomy =>
      simp only [Bool.or_eq_true, decide_eq_true_eq, not_or, Nat.not_lt] at roomy
      refine ⟨?_, roomy.2, ?_⟩
      · simp [queuedSize, sized.used]
      · intro row member
        rcases List.mem_append.mp member with earlier | added
        · exact sized.each row earlier
        · rw [List.mem_singleton.mp added]
          simp only [exceedsLimits, Bool.or_eq_true, decide_eq_true_eq, not_or, Nat.not_lt] at roomy
          exact roomy.1.1.1.1.1.1

theorem offerAll_sized {limit : Nat} {state : Admission} (sized : state.Sized limit) (events : List Event) :
    (offerAll limit state events).Sized limit := by
  induction events generalizing state with
  | nil => exact sized
  | cons ev rest ih => exact ih (offer_sized sized ev)

structure RowSpool.Bounded (s : RowSpool) : Prop where
  total : queuedSize s.table.rows ≤ s.limit
  each : ∀ row ∈ s.table.rows, row.payload.size ≤ 256 * 1024

theorem queuedSize_sublist {some all : List QueueRow} (part : some.Sublist all) : queuedSize some ≤ queuedSize all :=
  (part.map _).sum_le_sum fun _ _ => Nat.zero_le _

theorem call_limit (s : RowSpool) (call : SpoolCall) : (s.call call).limit = s.limit := by
  cases call with
  | commit cp events broken =>
    simp only [RowSpool.call, RowSpool.commit]
    split <;> rfl
  | batch => rfl
  | ack events broken => rw [RowSpool.call, ack_rest]

theorem call_bounded {s : RowSpool} (bounded : s.Bounded) (call : SpoolCall) : (s.call call).Bounded := by
  have limit := call_limit s call
  cases call with
  | batch => exact bounded
  | commit cp events broken =>
    cases succeeded : (s.commit cp events broken).2 with
    | false =>
      rw [RowSpool.call, commit_failed succeeded]
      exact bounded
    | true =>
      have start : Admission.Sized s.limit ⟨s.table.rows, queuedSize s.table.rows, cp.dropped⟩ :=
        ⟨rfl, bounded.total, bounded.each⟩
      have sized := offerAll_sized start events
      have rows := (commit_succeeded succeeded).1
      constructor
      · rw [limit, RowSpool.call, rows, ← sized.used]
        exact sized.within
      · rw [RowSpool.call, rows]
        exact sized.each
  | ack events broken =>
    cases succeeded : (s.ack events broken).2 with
    | false =>
      rw [RowSpool.call, ack_failed succeeded]
      exact bounded
    | true =>
      have part : (s.call (.ack events broken)).table.rows.Sublist s.table.rows := by
        rw [RowSpool.call, ack_rows succeeded]
        exact List.filter_sublist
      exact ⟨limit ▸ Nat.le_trans (queuedSize_sublist part) bounded.total, fun row member => bounded.each row (part.subset member)⟩

theorem calls_bounded {s : RowSpool} (bounded : s.Bounded) (calls : List SpoolCall) : (s.calls calls).Bounded := by
  induction calls generalizing s with
  | nil => exact bounded
  | cons call rest ih => exact ih (call_bounded bounded call)

theorem calls_limit (s : RowSpool) (calls : List SpoolCall) : (s.calls calls).limit = s.limit := by
  induction calls generalizing s with
  | nil => rfl
  | cons call rest ih => exact (ih _).trans (call_limit s call)

theorem newSpool_bounded (checkpoint : Option Checkpoint) (firewallCache : Option FirewallPolicy) (limit : Nat) :
    (newSpool checkpoint firewallCache limit).Bounded :=
  ⟨Nat.zero_le _, fun _ member => absurd member List.not_mem_nil⟩

/-- The loop takes a prefix of its rows that fits, and at least one row: a
single event is smaller than a batch may be. -/
theorem takeBatch_prefix (size : Nat) (out : List Event) (rows : List QueueRow) (within : size ≤ 1024 * 1024)
    (start : out = [] → size = 0) (each : ∀ row ∈ rows, row.payload.size ≤ 256 * 1024) :
    ∃ n, n ≤ rows.length ∧ Spool.takeBatch size out rows = out ++ (rows.take n).map (fun row => row.payload.event) ∧
      size + queuedSize (rows.take n) ≤ 1024 * 1024 ∧ (out = [] → rows ≠ [] → 0 < n) := by
  induction rows generalizing size out with
  | nil => exact ⟨0, by simp, by simp [Spool.takeBatch], by simpa [queuedSize] using within, fun _ some => absurd rfl some⟩
  | cons row rest ih =>
    rw [Spool.takeBatch]
    split
    next full =>
      simp only [Bool.and_eq_true, decide_eq_true_eq] at full
      refine ⟨0, Nat.zero_le _, by simp, by simpa [queuedSize] using within, fun empty => ?_⟩
      rw [empty] at full
      exact absurd full.2 (Nat.lt_irrefl 0)
    next roomy =>
      have fits : size + row.payload.size ≤ 1024 * 1024 := by
        have small := each row (by simp)
        simp only [Bool.and_eq_true, decide_eq_true_eq, not_and, Nat.not_lt] at roomy
        by_cases empty : out = []
        · have zero := start empty
          omega
        · have positive := List.length_pos_iff.mpr empty
          omega
      obtain ⟨n, most, taken, sum, -⟩ := ih (size + row.payload.size) (out ++ [row.payload.event]) fits (by simp)
        fun other member => each other (by simp [member])
      refine ⟨n + 1, by simpa using most, ?_, ?_, fun _ _ => Nat.succ_pos n⟩
      · rw [taken]
        simp
      · simpa [queuedSize, Nat.add_assoc] using sum

/-- What happened to the queue: a row was added, or an id acknowledged. -/
inductive Mark
  | queued (row : QueueRow)
  | acked (id : Bytes)
  deriving DecidableEq

/-- The rows that were added and not acknowledged since, oldest first. -/
def waiting : List Mark → List QueueRow
  | [] => []
  | .queued row :: later => if later.contains (.acked row.id) then waiting later else row :: waiting later
  | .acked _ :: later => waiting later

def RowSpool.marks (s : RowSpool) : SpoolCall → List Mark
  | .commit cp events broken =>
    if (s.commit cp events broken).2 then
      (admitted s.limit ⟨s.table.rows, queuedSize s.table.rows, cp.dropped⟩ events).map Mark.queued
    else []
  | .batch => []
  | .ack events broken => if (s.ack events broken).2 then events.map fun ev => Mark.acked ev.id else []

def RowSpool.history : RowSpool → List SpoolCall → List Mark
  | _, [] => []
  | s, call :: rest => s.marks call ++ (s.call call).history rest

theorem waiting_queued (past : List Mark) (added : List QueueRow) :
    waiting (past ++ added.map Mark.queued) = waiting past ++ added := by
  have fresh : ∀ id, ¬ Mark.acked id ∈ added.map Mark.queued := by simp
  induction past with
  | nil =>
    rw [List.nil_append, waiting, List.nil_append]
    clear fresh
    induction added with
    | nil => rfl
    | cons row rest ih => simpa [waiting] using ih
  | cons mark later ih =>
    cases mark with
    | acked id => exact ih
    | queued row =>
      simp only [List.cons_append, waiting, List.contains_eq_mem, List.mem_append, fresh, or_false, ih]
      split <;> rfl

theorem waiting_acked (past : List Mark) (ids : List Bytes) :
    waiting (past ++ ids.map Mark.acked) = (waiting past).filter fun row => !ids.contains row.id := by
  induction past with
  | nil =>
    rw [List.nil_append, waiting, List.filter_nil]
    induction ids with
    | nil => rfl
    | cons id rest ih => exact ih
  | cons mark later ih =>
    cases mark with
    | acked id => exact ih
    | queued row =>
      simp only [List.cons_append, waiting, List.contains_eq_mem, List.mem_append, List.mem_map, Mark.acked.injEq,
        exists_eq_right, Bool.decide_or]
      by_cases gone : Mark.acked row.id ∈ later
      · simpa [gone] using ih
      · by_cases named : row.id ∈ ids
        · simpa [gone, named] using ih
        · simpa [gone, named] using ih

theorem call_waiting (s : RowSpool) (call : SpoolCall) (past : List Mark) (rows : s.table.rows = waiting past) :
    (s.call call).table.rows = waiting (past ++ s.marks call) := by
  cases call with
  | batch => simpa [RowSpool.call, RowSpool.marks] using rows
  | commit cp events broken =>
    simp only [RowSpool.call, RowSpool.marks]
    cases succeeded : (s.commit cp events broken).2 with
    | false => simpa [commit_failed succeeded] using rows
    | true =>
      rw [if_pos rfl, waiting_queued, ← rows, (commit_succeeded succeeded).1, (offerAll_counts s.limit _ events).1]
  | ack events broken =>
    simp only [RowSpool.call, RowSpool.marks]
    cases succeeded : (s.ack events broken).2 with
    | false => simpa [ack_failed succeeded] using rows
    | true =>
      have marks : (events.map fun ev => Mark.acked ev.id) = (events.map Event.id).map Mark.acked := by simp
      rw [if_pos rfl, ack_rows succeeded, marks, waiting_acked, rows]

theorem calls_waiting (s : RowSpool) (calls : List SpoolCall) (past : List Mark) (rows : s.table.rows = waiting past) :
    (s.calls calls).table.rows = waiting (past ++ s.history calls) := by
  induction calls generalizing s past with
  | nil => simpa [RowSpool.calls, RowSpool.history] using rows
  | cons call rest ih =>
    rw [RowSpool.history, ← List.append_assoc]
    exact ih (s.call call) _ (call_waiting s call past rows)

/-- After any sequence of calls on a spool that started empty, its queue is
within the limit and holds what was queued and not acknowledged since, oldest
first. A commit that succeeds puts each offered event at the end, or finds its
id queued, or counts it in `dropped`; a batch is the oldest events that it
holds, at most a hundred and at most a mebibyte, and not empty unless the queue
is; an acknowledgement removes the rows with its ids and nothing else; a call that
fails changes nothing, and one whose statements all work does not fail. -/
theorem queue_exact (checkpoint : Option Checkpoint) (firewallCache : Option FirewallPolicy) (limit : Nat)
    (calls : List SpoolCall) :
    let start := newSpool checkpoint firewallCache limit
    let s := start.calls calls
    queuedSize s.table.rows ≤ limit ∧
    s.table.rows = waiting (start.history calls) ∧
    (∀ cp events broken, (s.commit cp events broken).2 = true →
      let before := ⟨s.table.rows, queuedSize s.table.rows, cp.dropped⟩
      let after := (s.commit cp events broken).1
      after.table.rows = s.table.rows ++ admitted limit before events ∧
        cp.dropped ≤ after.cp.dropped ∧ after.checkpoint = some after.cp ∧
        events.length = (admitted limit before events).length + repeats limit before events +
          (after.cp.dropped - cp.dropped)) ∧
    (∃ n, s.batch.1 = (s.table.rows.take n).map (fun row => row.payload.event) ∧ n ≤ 100 ∧
      queuedSize (s.table.rows.take n) ≤ 1024 * 1024 ∧ (s.table.rows ≠ [] → 0 < n)) ∧
    (∀ events broken, (s.ack events broken).2 = true →
      (s.ack events broken).1.table.rows = s.table.rows.filter (fun row => !(events.map Event.id).contains row.id) ∧
        (s.ack events broken).1 = { s with table := (s.ack events broken).1.table }) ∧
    (∀ cp events broken, (s.commit cp events broken).2 = false → (s.commit cp events broken).1 = s) ∧
    (∀ events broken, (s.ack events broken).2 = false → (s.ack events broken).1 = s) ∧
    (∀ cp events broken, (∀ n < 2 * events.length + 4, broken n = false) → (s.commit cp events broken).2 = true) ∧
    (∀ events broken, (∀ n < events.length + 2, broken n = false) → (s.ack events broken).2 = true) := by
  intro start s
  have bounded : s.Bounded := calls_bounded (newSpool_bounded checkpoint firewallCache limit) calls
  have sameLimit : s.limit = limit := calls_limit start calls
  refine ⟨sameLimit ▸ bounded.total, ?_, ?_, ?_, ?_, fun _ _ _ => commit_failed, fun _ _ => ack_failed,
    fun cp _ _ => commit_works s cp, fun _ _ => ack_works s⟩
  · exact calls_waiting start calls [] rfl
  · intro cp events broken succeeded before after
    obtain ⟨rows, counted, stored⟩ := commit_succeeded succeeded
    obtain ⟨queue, sum⟩ := offerAll_counts s.limit before events
    have losses := offerAll_dropped_le s.limit before events
    have dropped : after.cp.dropped = (offerAll s.limit before events).dropped := congrArg Checkpoint.dropped counted
    rw [← sameLimit]
    refine ⟨rows.trans queue, dropped ▸ losses, by rw [stored, counted], ?_⟩
    have counter : before.dropped = cp.dropped := rfl
    omega
  · have each : ∀ row ∈ s.table.rows.take 100, row.payload.size ≤ 256 * 1024 :=
      fun row member => bounded.each row (List.mem_of_mem_take member)
    obtain ⟨n, most, taken, size, some⟩ := takeBatch_prefix 0 [] (s.table.rows.take 100) (Nat.zero_le _) (fun _ => rfl) each
    have atMost : n ≤ 100 := Nat.le_trans most (List.length_take_le _ _)
    have same : (s.table.rows.take 100).take n = s.table.rows.take n := by
      rw [List.take_take, Nat.min_eq_left atMost]
    rw [same] at taken size
    refine ⟨n, taken, atMost, by rwa [Nat.zero_add] at size, fun present => some rfl fun none => present ?_⟩
    exact (List.take_eq_nil_iff.mp none).resolve_left (by decide)
  · intro events broken succeeded
    exact ⟨ack_rows succeeded, ack_rest s events broken⟩

/-- One event is queued, read and acknowledged. -/
def queuedLogin : Event :=
  ⟨Bytes.utf8 "b:1.000:1:login_success", 1000, .loginSuccess, [], Bytes.utf8 "alice", [], [], Bytes.utf8 "10.0.0.1", [], [],
    Bytes.utf8 "yes", none, none⟩

theorem queue_exact_login :
    let s := (newSpool none none 67108864).calls [.commit noCheckpoint [queuedLogin] fun _ => false]
    s.batch.1 = [queuedLogin] ∧ (s.ack [queuedLogin] fun _ => false).2 = true ∧
      (s.ack [queuedLogin] fun _ => false).1.table.rows = [] := by
  intro s
  obtain ⟨-, -, -, -, removes, -, -, -, succeeds⟩ := queue_exact none none 67108864
    [.commit noCheckpoint [queuedLogin] fun _ => false]
  have done := succeeds [queuedLogin] (fun _ => false) fun _ _ => rfl
  refine ⟨by decide +kernel, done, ?_⟩
  rw [(removes _ _ done).1]
  decide +kernel

end SshLogger
