import SshLogger.Event
import SshLogger.Library.Rows

/-! The agent's persistent spool (`agent/spool.go`): the event queue, the read
checkpoint and the cached firewall policy, in one SQLite file. -/

namespace SshLogger
open Library

structure Checkpoint where
  inode : String
  offset : Nat
  boot : Bytes
  dropped : Nat
  deriving DecidableEq, Repr

/-- The JSON text of a queued event, as what it decodes to and its length. -/
structure Payload where
  event : Event
  size : Nat
  deriving DecidableEq, Repr

def marshal (ev : Event) : Payload := ⟨ev.coerced, ev.json.length⟩

structure QueueRow where
  id : Bytes
  payload : Payload
  deriving DecidableEq, Repr

/-- The stored tables. Rows of `queue` stand in rowid order. -/
structure SpoolDb where
  checkpoint : Option Checkpoint
  queue : List QueueRow
  firewallCache : Option FirewallPolicy
  deriving DecidableEq, Repr

/-- `cp` is the copy of the checkpoint the process holds in memory. -/
structure Spool where
  db : SpoolDb
  cp : Checkpoint
  limit : Nat
  deriving DecidableEq, Repr

def noCheckpoint : Checkpoint := ⟨"", 0, [], 0⟩

/-- Opening the file again: the checkpoint in memory is the stored one. -/
def openSpool (db : SpoolDb) (limit : Nat) : Spool := ⟨db, db.checkpoint.getD noCheckpoint, limit⟩

def queuedSize (queue : List QueueRow) : Nat := (queue.map fun row => row.payload.size).sum

/-- An event too large to be kept, whatever room is left. -/
def exceedsLimits (raw : Payload) (ev : Event) : Bool :=
  raw.size > 256 * 1024 || ev.args.length > 4096 || ev.program.length > 4096 || ev.user.length > 256 ||
    ev.effectiveUser.length > 256 || ev.ip.length > 100

structure Admission where
  queue : List QueueRow
  used : Nat
  dropped : Nat
  deriving DecidableEq, Repr

/-- Keep the oldest unacknowledged records. Drop newest on saturation, count losses. -/
def offer (limit : Nat) (state : Admission) (ev : Event) : Admission :=
  let raw := marshal ev
  if Rows.has QueueRow.id ev.id state.queue then state
  else if exceedsLimits raw ev || state.used + raw.size > limit then { state with dropped := state.dropped + 1 }
  else { state with queue := state.queue ++ [⟨ev.id, raw⟩], used := state.used + raw.size }

def offerAll (limit : Nat) (state : Admission) (events : List Event) : Admission :=
  events.foldl (offer limit) state

namespace Spool

/-- Queue and checkpoint change in one transaction. `stored` is false when some
statement or the commit fails: everything is rolled back and `cp` stays. -/
def commit (s : Spool) (cp : Checkpoint) (events : List Event) (stored : Bool) : Spool :=
  if !stored then s
  else
    let state := offerAll s.limit ⟨s.db.queue, queuedSize s.db.queue, cp.dropped⟩ events
    let cp := { cp with dropped := state.dropped }
    { s with db := { s.db with queue := state.queue, checkpoint := some cp }, cp }

/-- The loop of `batch` over the oldest hundred rows. -/
def takeBatch : Nat → List Event → List QueueRow → List Event
  | _, out, [] => out
  | size, out, row :: rest =>
    if size + row.payload.size > 1024 * 1024 && out.length > 0 then out
    else takeBatch (size + row.payload.size) (out ++ [row.payload.event]) rest

def batch (s : Spool) : List Event × Nat := (takeBatch 0 [] (s.db.queue.take 100), s.db.queue.length)

def ack (s : Spool) (events : List Event) (stored : Bool) : Spool :=
  if !stored then s
  else
    let queue := events.foldl (fun queue ev => Rows.delete (fun row => row.id == ev.id) queue) s.db.queue
    { s with db := { s.db with queue } }

end Spool

/-- A row of the queue afterwards was there before or is an offered event. -/
theorem mem_offerAll {limit : Nat} {state : Admission} {events : List Event} {row : QueueRow}
    (member : row ∈ (offerAll limit state events).queue) :
    row ∈ state.queue ∨ ∃ ev ∈ events, row = ⟨ev.id, marshal ev⟩ ∧ exceedsLimits (marshal ev) ev = false := by
  induction events generalizing state with
  | nil => exact Or.inl member
  | cons ev rest ih =>
    rcases @ih (offer limit state ev) member with earlier | ⟨other, inside, same⟩
    · simp only [offer] at earlier
      split at earlier
      · exact Or.inl earlier
      · split at earlier
        · exact Or.inl earlier
        next roomy =>
          rcases List.mem_append.mp earlier with earlier | added
          · exact Or.inl earlier
          · simp only [Bool.or_eq_true, not_or, Bool.not_eq_true] at roomy
            exact Or.inr ⟨ev, by simp, List.mem_singleton.mp added, roomy.1⟩
    · exact Or.inr ⟨other, by simp [inside], same⟩

theorem offer_keeps {limit : Nat} {state : Admission} {ev : Event} {row : QueueRow}
    (member : row ∈ state.queue) : row ∈ (offer limit state ev).queue := by
  simp only [offer]
  split
  · exact member
  · split
    · exact member
    · exact List.mem_append_left _ member

theorem offerAll_keeps {limit : Nat} {state : Admission} {events : List Event} {row : QueueRow}
    (member : row ∈ state.queue) : row ∈ (offerAll limit state events).queue := by
  induction events generalizing state with
  | nil => exact member
  | cons ev rest ih => exact ih (offer_keeps member)

theorem offer_dropped_le (limit : Nat) (state : Admission) (ev : Event) :
    state.dropped ≤ (offer limit state ev).dropped := by
  simp only [offer]
  split
  · exact Nat.le_refl _
  · split <;> simp

theorem offerAll_dropped_le (limit : Nat) (state : Admission) (events : List Event) :
    state.dropped ≤ (offerAll limit state events).dropped := by
  induction events generalizing state with
  | nil => exact Nat.le_refl _
  | cons ev rest ih => exact Nat.le_trans (offer_dropped_le limit state ev) (ih _)

end SshLogger
