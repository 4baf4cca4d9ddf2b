import SshLogger.Proofs.LogRuns

/-! Collection across rotations of the log. Every group written after the first
checkpoint is passed on whole or lies in a gap that was counted, as long as no
call splits a group and none leaves a rotated file behind that it has not read. -/

namespace SshLogger
open Library Library.Lines Library.Grouping Library.History

/-- The agent has attached to the current file, number `index` of all, at an offset. -/
def attachedLog (c : Collector) (index offset : Nat) (w : World) : Prop :=
  w.past.length = index ∧ w.gone ≤ index ∧ w.current.inode ≠ "" ∧
    ((w.past.drop w.gone ++ [w.current]).map LogFile.inode).Nodup ∧
    w.spool.cp.boot = c.boot ∧ w.spool.cp.inode = w.current.inode ∧ w.spool.cp.offset = offset ∧
    offset ≤ w.current.size

def World.position (w : World) (cp : Checkpoint) : Nat := place cp.inode w.files

/-- A stored call passes on a group and leaves records of it beyond the window.
`final` are all files as they are in the end. -/
def Split (c : Collector) (final : List LogFile) (before : World) (now : Int) : Prop :=
  let cp := (before.located c).1
  let file := (before.located c).2
  ∃ id ∈ keys Record.id (records (settledAt file cp.offset now)),
    id ∈ keys Record.id (later final (before.position cp) (cp.offset + (windowAt file cp.offset).flatten.length))

/-- A call settles a rotated file although files between it and the current one
hold records. -/
def Skips (c : Collector) (before : World) (now : Int) : Prop :=
  let cp := (before.located c).1
  let file := (before.located c).2
  file.inode ≠ before.current.inode ∧ file.size ≤ cp.offset + (settledAt file cp.offset now).flatten.length ∧
    later before.past (before.position cp + 1) 0 ≠ []

/-- No stored call splits a group or skips a file, and no new file takes the
inode that the checkpoint names. -/
def Careful (c : Collector) (final : List LogFile) (history : List (Transition World LogAction)) : Prop :=
  ∀ t ∈ history, match t.action with
    | .collect now _ true => ¬Split c final t.before now ∧ ¬Skips c t.before now
    | .rotate inode => inode ≠ t.before.spool.cp.inode
    | _ => True

/-- Some stored call passed a group with exactly these records on to `eventsFor`
and committed its events. -/
def PassedWhole (c : Collector) (history : List (Transition World LogAction)) (rows : List Record) : Prop :=
  ∃ t ∈ history, ∃ next passed, PassesOn c t next passed ∧ ∃ g ∈ passed, g.records = rows

/-- Some call found the checkpoint's file gone, counted the gap, and the group has
a record between the checkpoint and the file the call went on with. -/
def Counted (c : Collector) (history : List (Transition World LogAction)) (id : Bytes) : Prop :=
  ∃ t ∈ history, ∃ now attached, t.action = .collect now attached true ∧
    (t.before.located c).1.dropped = t.before.spool.cp.dropped + 1 ∧
    t.before.spool.cp.dropped < t.after.spool.cp.dropped ∧
    id ∈ keys Record.id (later t.before.past (t.before.position t.before.spool.cp) t.before.spool.cp.offset)

structure Tracked (c : Collector) (w : World) : Prop where
  gone : w.gone ≤ w.past.length
  named : w.current.inode ≠ ""
  distinct : ((w.past.drop w.gone ++ [w.current]).map LogFile.inode).Nodup
  boot : w.spool.cp.boot = c.boot
  attached : w.spool.cp.inode ≠ ""
  place : ∃ before file after, w.files = before ++ file :: after ∧ file.inode = w.spool.cp.inode ∧
    (∀ other ∈ after, other.inode ≠ w.spool.cp.inode) ∧ w.spool.cp.offset ≤ file.size

variable {c : Collector}

theorem Tracked.initial {index offset : Nat} {w : World} (init : attachedLog c index offset w) : Tracked c w := by
  obtain ⟨rfl, gone, named, distinct, boot, inode, rfl, inside⟩ := init
  exact ⟨gone, named, distinct, boot, inode ▸ named, w.past, w.current, [], rfl, inode.symm, by simp, inside⟩

theorem Tracked.start {w : World} (tracked : Tracked c w) : w.start c = w.spool.cp :=
  start_attached tracked.attached tracked.boot

/-- What a call finds: the file the checkpoint names, or the current one after a gap. -/
theorem Tracked.located {w : World} (tracked : Tracked c w) :
    (∃ before file after, w.files = before ++ file :: after ∧ w.located c = (w.spool.cp, file) ∧
      file.inode = w.spool.cp.inode ∧ (∀ other ∈ after, other.inode ≠ w.spool.cp.inode) ∧
      w.spool.cp.offset ≤ file.size) ∨
    (w.position w.spool.cp < w.past.length ∧ w.located c =
      ({ w.spool.cp with dropped := w.spool.cp.dropped + 1, inode := w.current.inode, offset := 0 }, w.current)) := by
  obtain ⟨before, file, after, split, named, newest, inside⟩ := tracked.place
  have position : w.position w.spool.cp = before.length := by rw [World.position, split, place_split named newest]
  simp only [World.located, tracked.start, locate, World.dir]
  by_cases here : w.spool.cp.inode = w.current.inode
  · -- The current file is the newest one, so it is the one the checkpoint names.
    have current : after = [] ∧ file = w.current := by
      rcases List.eq_nil_or_concat after with rfl | ⟨others, last, rfl⟩
      · exact ⟨rfl, (List.cons.inj (List.append_inj' split rfl).2).1.symm⟩
      · simp only [List.concat_eq_append, ← List.cons_append, ← List.append_assoc] at split
        obtain rfl := (List.cons.inj (List.append_inj' split rfl).2).1
        exact absurd here.symm (newest w.current (by simp))
    obtain ⟨rfl, rfl⟩ := current
    exact Or.inl ⟨before, w.current, [], split, by simp [here], named, newest, inside⟩
  · have other : (w.spool.cp.inode == w.current.inode) = false := by simpa using here
    simp only [other, Bool.false_eq_true, if_false]
    have before_lt : before.length < w.past.length := by
      have sizes := congrArg List.length split
      simp only [World.files, List.length_append, List.length_cons, List.length_nil] at sizes
      cases after with
      | nil =>
        obtain rfl := (List.cons.inj (List.append_inj' split rfl).2).1
        exact absurd named.symm here
      | cons _ _ =>
        simp only [List.length_cons] at sizes
        omega
    cases found : (w.past.drop w.gone).find? fun file => file.inode == w.spool.cp.inode with
    | none => exact Or.inr ⟨position ▸ before_lt, rfl⟩
    | some existing =>
      obtain ⟨same, earlier, later, whole, _⟩ := List.find?_eq_some_iff_append.mp found
      have same : existing.inode = w.spool.cp.inode := by simpa using same
      have again : w.files = (w.past.take w.gone ++ earlier) ++ existing :: (later ++ [w.current]) := by
        rw [World.files]
        conv => lhs; rw [← List.take_append_drop w.gone w.past, whole]
        simp
      have youngest : ∀ other ∈ later ++ [w.current], other.inode ≠ w.spool.cp.inode := by
        have distinct := tracked.distinct
        simp only [whole, List.append_assoc, List.cons_append, List.map_append, List.map_cons, List.nodup_append,
          List.nodup_cons, List.mem_append, not_or] at distinct
        intro other member alike
        have member : other.inode ∈ later.map LogFile.inode ++ [w.current].map LogFile.inode := by
          rw [← List.map_append]
          exact List.mem_map_of_mem member
        exact distinct.2.1.1.elim fun inLater inCurrent => (List.mem_append.mp member).elim
          (fun inside => inLater (same.trans alike.symm ▸ inside)) (fun inside => inCurrent (same.trans alike.symm ▸ inside))
      have lengths := position.symm.trans (by rw [World.position, again, place_split same youngest])
      obtain ⟨-, tails⟩ := List.append_inj (split.symm.trans again) lengths
      obtain ⟨rfl, rfl⟩ := List.cons.inj tails
      exact Or.inl ⟨_, file, _, again, rfl, named, newest, inside⟩

theorem Tracked.located_cp {w : World} (tracked : Tracked c w) :
    (w.located c).1.boot = c.boot ∧ (w.located c).1.inode ≠ "" ∧ (w.located c).1.offset ≤ (w.located c).2.size := by
  rcases tracked.located with ⟨_, _, _, _, found, _, _, inside⟩ | ⟨_, found⟩
  · rw [found]
    exact ⟨tracked.boot, tracked.attached, inside⟩
  · rw [found]
    exact ⟨tracked.boot, tracked.named, Nat.zero_le _⟩

/-- Everything between the first checkpoint and the present one is accounted for. -/
structure Accounted (c : Collector) (final : List LogFile) (index offset : Nat)
    (history : List (Transition World LogAction)) (w : World) : Prop where
  tracked : Tracked c w
  done : ∃ done, later final index offset =
      done ++ later final (w.position w.spool.cp) w.spool.cp.offset ∧
    ∀ id ∈ keys Record.id done,
      PassedWhole c history (members Record.id id (later final index offset)) ∨ Counted c history id

theorem PassedWhole.older {history : List (Transition World LogAction)} {rows : List Record}
    (passed : PassedWhole c history rows) (t : Transition World LogAction) : PassedWhole c (t :: history) rows := by
  obtain ⟨other, member, rest⟩ := passed
  exact ⟨other, by simp [member], rest⟩

theorem Counted.older {history : List (Transition World LogAction)} {id : Bytes}
    (counted : Counted c history id) (t : Transition World LogAction) : Counted c (t :: history) id := by
  obtain ⟨other, member, rest⟩ := counted
  exact ⟨other, by simp [member], rest⟩

/-- Settling the lines of a window that splits no group. -/
private theorem settle_whole {all done settled left unread : List Record} {passed counted : Bytes → Prop}
    (split : all = done ++ (settled ++ left ++ unread))
    (before : ∀ id ∈ keys Record.id done, passed id ∨ counted id)
    (whole : ∀ id ∈ keys Record.id settled, id ∉ keys Record.id unread)
    (now : ∀ id ∈ keys Record.id settled, members Record.id id all = members Record.id id (settled ++ left) → passed id) :
    ∀ id ∈ keys Record.id (done ++ settled), passed id ∨ counted id := by
  intro id member
  by_cases seen : id ∈ keys Record.id done
  · exact before id seen
  · have fresh : id ∈ keys Record.id settled := by
      simpa [keys_append, seen] using member
    refine Or.inl (now id fresh ?_)
    rw [split, members_append, members_append, members_eq_nil seen, members_eq_nil (whole id fresh), List.nil_append,
      List.append_nil]

/-- A stored call that settles some lines at the position it reads from. -/
private theorem settle_read {final : List LogFile} {index offset : Nat}
    {history : List (Transition World LogAction)} {w : World} {now : Int} {before after : List LogFile}
    {file : LogFile} {start : Nat} {done : List Record} (grows : Grows w.files final)
    (files : w.files = before ++ file :: after) (inside : start ≤ file.size)
    (split : later final index offset = done ++ later final before.length start)
    (accounted : ∀ id ∈ keys Record.id done,
      PassedWhole c history (members Record.id id (later final index offset)) ∨ Counted c history id)
    (whole : ∀ id ∈ keys Record.id (records (settledAt file start now)),
      id ∉ keys Record.id (later final before.length (start + (windowAt file start).flatten.length)))
    (passed : ∀ rows ∈ passedAt file start now, PassedWhole c history rows) :
    later final index offset = (done ++ records (settledAt file start now)) ++
        later final before.length (start + (settledAt file start now).flatten.length) ∧
      ∀ id ∈ keys Record.id (done ++ records (settledAt file start now)),
        PassedWhole c history (members Record.id id (later final index offset)) ∨ Counted c history id := by
  rw [files] at grows
  obtain ⟨rest, window⟩ := settledAt_isPrefix file start now
  have read := grows.later_lines inside (windowAt_isPrefix file start)
  have first := grows.later_lines inside ((settledAt_isPrefix file start now).trans (windowAt_isPrefix file start))
  refine ⟨by rw [split, first, List.append_assoc], ?_⟩
  have rows : records (windowAt file start) = records (settledAt file start now) ++ records rest := by
    rw [← window, records_append]
  rw [read, rows] at split
  refine settle_whole split accounted whole fun id member same => passed _ ?_
  rw [same, ← rows]
  exact List.mem_map.mpr ⟨id, member, rfl⟩

/-- A step that leaves the checkpoint's position and the old records alone. -/
private theorem Accounted.quiet {final : List LogFile} {index offset : Nat}
    {history : List (Transition World LogAction)} {w after : World} {action : LogAction}
    (accounted : Accounted c final index offset history w) (tracked : Tracked c after)
    (same : after.spool.cp = w.spool.cp) (position : after.position w.spool.cp = w.position w.spool.cp) :
    Accounted c final index offset (⟨w, action, after⟩ :: history) after := by
  obtain ⟨done, split, all⟩ := accounted.done
  refine ⟨tracked, done, by rw [same, position, split], fun id member => ?_⟩
  exact (all id member).imp (fun passed => passed.older _) (fun counted => counted.older _)

private theorem past_split {w : World} {before after : List LogFile} {file : LogFile}
    (files : w.files = before ++ file :: after) (rotated : file.inode ≠ w.current.inode) :
    ∃ between, w.past = before ++ file :: between ∧ after = between ++ [w.current] := by
  rcases List.eq_nil_or_concat after with rfl | ⟨between, last, rfl⟩
  · obtain rfl := (List.cons.inj (List.append_inj' files rfl).2).1
    exact absurd rfl rotated
  · simp only [List.concat_eq_append, ← List.cons_append, ← List.append_assoc] at files ⊢
    obtain ⟨past, same⟩ := List.append_inj' files rfl
    obtain rfl := (List.cons.inj same).1
    exact ⟨between, past, rfl⟩

private structure Reads (w : World) (cp : Checkpoint) (file : LogFile) (before after : List LogFile) : Prop where
  files : w.files = before ++ file :: after
  named : file.inode = cp.inode
  newest : ∀ other ∈ after, other.inode ≠ cp.inode
  inside : cp.offset ≤ file.size

private theorem Reads.position {w : World} {cp : Checkpoint} {file : LogFile} {before after : List LogFile}
    (reads : Reads w cp file before after) : w.position cp = before.length := by
  rw [World.position, reads.files, place_split reads.named reads.newest]

/-- The records before the place a call reads from are accounted for: they were
before, or they lie in the gap the call counts. -/
private theorem Accounted.located {final : List LogFile} {index offset : Nat}
    {history : List (Transition World LogAction)} {w : World} {t : Transition World LogAction} {now : Int} {attached : Bool}
    (accounted : Accounted c final index offset history w) (grows : Grows w.files final)
    (before : t.before = w) (action : t.action = .collect now attached true)
    (dropped : (w.located c).1.dropped ≤ t.after.spool.cp.dropped) :
    ∃ older newer done, Reads w (w.located c).1 (w.located c).2 older newer ∧
      later final index offset = done ++ later final older.length (w.located c).1.offset ∧
      ∀ id ∈ keys Record.id done, PassedWhole c (t :: history) (members Record.id id (later final index offset)) ∨
        Counted c (t :: history) id := by
  have tracked := accounted.tracked
  obtain ⟨done, split, all⟩ := accounted.done
  have all := fun id member => (all id member).imp (fun passed => passed.older t) (fun counted => counted.older t)
  rcases tracked.located with ⟨older, file, newer, files, found, named, newest, inside⟩ | ⟨rotated, found⟩
  · have reads : Reads w w.spool.cp file older newer := ⟨files, named, newest, inside⟩
    rw [reads.position] at split
    rw [found]
    exact ⟨older, newer, done, reads, split, all⟩
  · have reads : Reads w (w.located c).1 (w.located c).2 w.past [] := by
      rw [found]
      exact ⟨rfl, rfl, by simp, Nat.zero_le _⟩
    refine ⟨w.past, [], done ++ later w.past (w.position w.spool.cp) w.spool.cp.offset, reads, ?_, ?_⟩
    · rw [found, split, grows.later_past rotated, List.append_assoc]
    · intro id member
      rw [keys_append] at member
      rcases List.mem_append.mp member with seen | gap
      · exact all id seen
      · refine Or.inr ⟨t, by simp, now, attached, action, ?_, ?_, ?_⟩
        · rw [before, found]
        · rw [found] at dropped
          rw [before]
          exact dropped
        · rw [before]
          exact (List.mem_filter.mp gap).1

private theorem Accounted.collect {final : List LogFile} {index offset : Nat}
    {history : List (Transition World LogAction)} {w : World} {stored : Bool}
    (accounted : Accounted c final index offset history w) (now : Int) (attached : Bool) (grows : Grows w.files final)
    (careful : stored = true → ¬Split c final w now ∧ ¬Skips c w now) :
    Accounted c final index offset (⟨w, .collect now attached stored, w.collect c now attached stored⟩ :: history)
      (w.collect c now attached stored) := by
  have tracked := accounted.tracked
  have kept : (w.collect c now attached stored).spool.cp = w.spool.cp →
      Accounted c final index offset (⟨w, .collect now attached stored, w.collect c now attached stored⟩ :: history)
        (w.collect c now attached stored) := by
    intro same
    refine accounted.quiet ?_ same rfl
    exact ⟨tracked.gone, tracked.named, tracked.distinct, same ▸ tracked.boot, same ▸ tracked.attached, same ▸ tracked.place⟩
  rcases collect_cp c w now attached stored with same | same | ⟨rfl, began, next, passed, lost, got, moved⟩
  · exact kept same
  · exact kept (same.trans tracked.start)
  · obtain ⟨whole, unskipped⟩ := careful rfl
    obtain ⟨boot, attachedTo, inside⟩ := tracked.located_cp
    rcases readFile_settles (w.located c).1 (w.located c).2 w.dir now inside with
      ⟨problem, failed, _⟩ | ⟨next', passed', got', rows, shape⟩
    · cases failed.symm.trans got
    · obtain ⟨rfl, rfl⟩ := Prod.mk.inj (Except.ok.inj (got'.symm.trans got))
      have count : next'.dropped = (w.located c).1.dropped := by
        rw [shape]
        split <;> rfl
      obtain ⟨older, newer, done, reads, split, all⟩ := accounted.located grows
        (t := ⟨w, .collect now attached true, w.collect c now attached true⟩) rfl rfl (by rw [moved, ← count]; simp)
      have passedWhole : ∀ group ∈ passedAt (w.located c).2 (w.located c).1.offset now,
          PassedWhole c (⟨w, .collect now attached true, w.collect c now attached true⟩ :: history) group := by
        intro group member
        obtain ⟨g, there, rfl⟩ := List.mem_map.mp (rows ▸ member)
        exact ⟨_, List.mem_cons_self, next', passed', collect_passesOn began got, g, there, rfl⟩
      have unsplit : ∀ id ∈ keys Record.id (records (settledAt (w.located c).2 (w.located c).1.offset now)),
          id ∉ keys Record.id (later final older.length
            ((w.located c).1.offset + (windowAt (w.located c).2 (w.located c).1.offset).flatten.length)) := by
        intro id member inside
        refine whole ⟨id, member, ?_⟩
        rwa [reads.position]
      have settled := settle_read grows reads.files reads.inside split all unsplit passedWhole
      by_cases finished : (w.located c).2.inode ≠ w.current.inode ∧ (w.located c).2.size ≤
          (w.located c).1.offset + (settledAt (w.located c).2 (w.located c).1.offset now).flatten.length
      · -- The rotated file is settled and the checkpoint moves to the current file.
        obtain ⟨rotated, ended⟩ := finished
        have shape := shape.trans (if_pos ⟨rotated, ended⟩)
        obtain ⟨between, past, rfl⟩ := past_split reads.files rotated
        have nothing : later w.past (older.length + 1) 0 = [] := by
          by_contra some
          refine unskipped ⟨rotated, ended, ?_⟩
          rwa [reads.position]
        have jump : later final older.length ((w.located c).1.offset +
            (settledAt (w.located c).2 (w.located c).1.offset now).flatten.length) = later final w.past.length 0 := by
          rw [grows.later_past (by rw [past]; simp), past, later_next, recordsFrom_end ended, ← past, nothing]
          rfl
        have cp : (w.collect c now attached true).spool.cp =
            { (w.located c).1 with inode := w.current.inode, offset := 0, dropped := (w.located c).1.dropped + lost } := by
          rw [moved, shape]
          rfl
        have here : Reads (w.collect c now attached true) (w.collect c now attached true).spool.cp w.current w.past [] := by
          rw [cp]
          exact ⟨rfl, rfl, by simp, Nat.zero_le _⟩
        refine ⟨⟨tracked.gone, tracked.named, tracked.distinct, by rw [cp]; exact boot, by rw [cp]; exact tracked.named,
          w.past, w.current, [], here.files, here.named, here.newest, here.inside⟩, _, ?_, settled.2⟩
        rw [here.position, settled.1, jump, cp]
      · have shape := shape.trans (if_neg finished)
        have cp : (w.collect c now attached true).spool.cp = { (w.located c).1 with
            offset := (w.located c).1.offset + (settledAt (w.located c).2 (w.located c).1.offset now).flatten.length
            dropped := (w.located c).1.dropped + lost } := by
          rw [moved, shape]
        have here : Reads (w.collect c now attached true) (w.collect c now attached true).spool.cp (w.located c).2 older
            newer := by
          rw [cp]
          exact ⟨reads.files, reads.named, reads.newest, settledAt_inside reads.inside now⟩
        refine ⟨⟨tracked.gone, tracked.named, tracked.distinct, by rw [cp]; exact boot,
          by rw [cp]; exact attachedTo, older, (w.located c).2, newer, here.files, here.named, here.newest, here.inside⟩,
          _, ?_, settled.2⟩
        rw [here.position, settled.1, cp]

theorem logStep_grows {w after : World} {action : LogAction} (moved : logStep c w action after) :
    Grows w.files after.files := by
  have some : w.files ≠ [] := by simp [World.files]
  cases action with
  | append data =>
    obtain rfl := moved
    exact ⟨w.past, w.current, data, [], rfl, rfl⟩
  | rotate inode =>
    obtain ⟨_, _, _, rfl⟩ := moved
    exact ⟨w.past, w.current, [], [⟨inode, []⟩], rfl, by simp [World.files]⟩
  | expire =>
    obtain ⟨_, rfl⟩ := moved
    exact Grows.refl some
  | collect now attached stored =>
    obtain rfl := moved
    exact Grows.refl some

/-- Writing, rotating and deleting files leaves the checkpoint's position alone. -/
private theorem Tracked.log {w after : World} {action : LogAction} (tracked : Tracked c w)
    (moved : logStep c w action after) (unread : ∀ now attached stored, action ≠ .collect now attached stored)
    (fresh : ∀ inode, action = .rotate inode → inode ≠ w.spool.cp.inode) :
    Tracked c after ∧ after.spool.cp = w.spool.cp ∧ after.position w.spool.cp = w.position w.spool.cp := by
  obtain ⟨before, file, others, split, named, newest, inside⟩ := tracked.place
  have position : w.position w.spool.cp = before.length := by rw [World.position, split, place_split named newest]
  cases action with
  | append data =>
    obtain rfl := moved
    have place : ∃ file' others', w.past ++ [{ w.current with content := w.current.content ++ data }] =
        before ++ file' :: others' ∧ file'.inode = w.spool.cp.inode ∧
        (∀ other ∈ others', other.inode ≠ w.spool.cp.inode) ∧ w.spool.cp.offset ≤ file'.size := by
      rcases List.eq_nil_or_concat others with rfl | ⟨between, last, rfl⟩
      · obtain ⟨past, same⟩ := List.append_inj' split rfl
        obtain rfl := (List.cons.inj same).1
        refine ⟨{ w.current with content := w.current.content ++ data }, [], by rw [past], named, by simp, ?_⟩
        simp only [LogFile.size, List.length_append] at inside ⊢
        omega
      · simp only [List.concat_eq_append, ← List.cons_append, ← List.append_assoc] at split newest
        obtain ⟨past, same⟩ := List.append_inj' split rfl
        obtain rfl := (List.cons.inj same).1
        refine ⟨file, between ++ [{ w.current with content := w.current.content ++ data }], by rw [past]; simp, named,
          ?_, inside⟩
        intro other member
        rcases List.mem_append.mp member with inBetween | isLast
        · exact newest other (List.mem_append_left _ inBetween)
        · rw [List.mem_singleton.mp isLast]
          exact newest w.current (by simp)
    obtain ⟨file', others', split', named', newest', inside'⟩ := place
    refine ⟨⟨tracked.gone, tracked.named, by simpa using tracked.distinct, tracked.boot, tracked.attached, before, file',
      others', split', named', newest', inside'⟩, rfl, ?_⟩
    rw [position, World.position, World.files, split', place_split named' newest']
  | rotate inode =>
    obtain ⟨nonempty, otherThanCurrent, otherThanPast, rfl⟩ := moved
    have split' : (w.past ++ [w.current]) ++ [⟨inode, []⟩] = before ++ file :: (others ++ [⟨inode, []⟩]) := by
      rw [show w.past ++ [w.current] = _ from split]
      simp
    have newest' : ∀ other ∈ others ++ [⟨inode, []⟩], other.inode ≠ w.spool.cp.inode := by
      intro other member
      rcases List.mem_append.mp member with old | new
      · exact newest other old
      · rw [List.mem_singleton.mp new]
        exact fresh inode rfl
    have drop : (w.past ++ [w.current]).drop w.gone = w.past.drop w.gone ++ [w.current] :=
      List.drop_append_of_le_length tracked.gone
    refine ⟨⟨by simpa using Nat.le_succ_of_le tracked.gone, nonempty, ?_, tracked.boot, tracked.attached, before, file, _,
      split', named, newest', inside⟩, rfl, ?_⟩
    · rw [drop, List.map_append, List.nodup_append]
      refine ⟨tracked.distinct, by simp, ?_⟩
      intro old member new singleton
      obtain rfl := List.mem_singleton.mp singleton
      obtain ⟨existing, there, rfl⟩ := List.mem_map.mp member
      rcases List.mem_append.mp there with inPast | isCurrent
      · exact otherThanPast existing inPast
      · rw [List.mem_singleton.mp isCurrent]
        exact otherThanCurrent.symm
    · rw [position, World.position, World.files, split', place_split named newest']
  | expire =>
    obtain ⟨some, rfl⟩ := moved
    refine ⟨⟨some, tracked.named, ?_, tracked.boot, tracked.attached, before, file, others, split, named, newest, inside⟩,
      rfl, rfl⟩
    refine tracked.distinct.sublist (List.Sublist.map _ (List.Sublist.append_right ?_ _))
    have step : w.past.drop (w.gone + 1) = (w.past.drop w.gone).drop 1 := by simp
    rw [step]
    exact List.drop_sublist _ _
  | collect now attached stored => exact absurd rfl (unread now attached stored)

theorem accounted_of_run {index offset : Nat} {history : List (Transition World LogAction)} {w : World}
    (run : Run (logSystem c (attachedLog c index offset)) history w) : ∀ final, Grows w.files final →
      Careful c final history → Accounted c final index offset history w := by
  refine run.induct (fun history w => ∀ final, Grows w.files final →
    Careful c final history → Accounted c final index offset history w) ?_ ?_
  · intro w init final _ _
    refine ⟨Tracked.initial init, [], ?_, by simp [keys]⟩
    obtain ⟨rfl, _, _, _, _, inode, rfl, _⟩ := init
    have position : w.position w.spool.cp = w.past.length := by
      rw [World.position, inode]
      exact place_split rfl (by simp)
    rw [position, List.nil_append]
  · intro history w action after earlier ih step final grows careful
    have moved : logStep c w action after := step
    have accounted := ih final ((logStep_grows moved).trans grows) fun t member => careful t (by simp [member])
    have here := careful _ List.mem_cons_self
    cases action with
    | collect now attached stored =>
      have next := accounted.collect now attached ((logStep_grows moved).trans grows) fun same => by
        obtain rfl : stored = true := same
        exact here
      exact moved ▸ next
    | append data =>
      have next := accounted.tracked.log moved (by simp) (by simp)
      exact accounted.quiet next.1 next.2.1 next.2.2
    | rotate inode =>
      have next := accounted.tracked.log moved (by simp) fun other same => by
        obtain rfl := LogAction.rotate.inj same
        exact here
      exact accounted.quiet next.1 next.2.1 next.2.2
    | expire =>
      have next := accounted.tracked.log moved (by simp) (by simp)
      exact accounted.quiet next.1 next.2.1 next.2.2

/-- In every careful run, once the end of the current file has been reached,
every group written after the first checkpoint has been passed on whole or lies
in a gap that was counted. -/
theorem rotation_accounts {index offset : Nat} {history : List (Transition World LogAction)} {w : World}
    (run : Run (logSystem c (attachedLog c index offset)) history w) (careful : Careful c w.files history)
    (ended : w.spool.cp.inode = w.current.inode ∧ completeLines (w.current.content.drop w.spool.cp.offset) = []) :
    ∀ id ∈ keys Record.id (later w.files index offset),
      PassedWhole c history (members Record.id id (later w.files index offset)) ∨ Counted c history id := by
  have accounted := accounted_of_run run w.files (Grows.refl (by simp [World.files])) careful
  obtain ⟨done, split, all⟩ := accounted.done
  have nothing : later w.files (w.position w.spool.cp) w.spool.cp.offset = [] := by
    have position : w.position w.spool.cp = w.past.length := by
      rw [World.position, ended.1]
      exact place_split rfl (by simp)
    rw [position, World.files, later_split, recordsFrom, ended.2]
    rfl
  have whole : later w.files index offset = done := by rw [split, nothing, List.append_nil]
  exact fun id member => all id (whole ▸ member)

def rotationAgent : Collector := ⟨Bytes.utf8 "b", false, id⟩

def loginLine : Bytes := Bytes.utf8 "type=USER_LOGIN msg=audit(1.000:1): pid=7 uid=0 auid=1000 ses=3 exe=\"/usr/sbin/sshd\" addr=10.0.0.1 res=success\n"

def rotationStart : World := ⟨[], 0, ⟨"1:1", []⟩, ⟨⟨none, [], none⟩, ⟨"1:1", 0, Bytes.utf8 "b", 0⟩, 67108864⟩⟩

def turnLog (w : World) (inode : String) : World := { w with past := w.past ++ [w.current], current := ⟨inode, []⟩ }

def writeLog (w : World) (data : Bytes) : World := { w with current := { w.current with content := w.current.content ++ data } }

theorem rotationStart_attached : attachedLog rotationAgent 0 0 rotationStart := by
  refine ⟨rfl, Nat.le_refl _, by decide, by decide, rfl, rfl, rfl, Nat.le_refl _⟩

/-- One line is written, the file is rotated, and one call reads it. -/
def calmHistory : List (Transition World LogAction) :=
  let written := writeLog rotationStart loginLine
  let turned := turnLog written "1:2"
  [⟨turned, .collect 1000000 true true, turned.collect rotationAgent 1000000 true true⟩,
    ⟨written, .rotate "1:2", turned⟩, ⟨rotationStart, .append loginLine, written⟩]

def calmEnd : World := (turnLog (writeLog rotationStart loginLine) "1:2").collect rotationAgent 1000000 true true

theorem rotation_accounts_calm : keys Record.id (later calmEnd.files 0 0) ≠ [] ∧
    ∀ id ∈ keys Record.id (later calmEnd.files 0 0),
      PassedWhole rotationAgent calmHistory (members Record.id id (later calmEnd.files 0 0)) ∨
        Counted rotationAgent calmHistory id := by
  have run : Run (logSystem rotationAgent (attachedLog rotationAgent 0 0)) calmHistory calmEnd := by
    refine .next (.next (.next (.start rotationStart_attached) rfl) ⟨by decide, by decide, by decide, rfl⟩) rfl
  refine ⟨by decide +kernel, rotation_accounts run ?_ (by decide +kernel)⟩
  intro t member
  simp only [calmHistory, List.mem_cons, List.not_mem_nil, or_false] at member
  rcases member with rfl | rfl | rfl
  · have unsplit : ¬Split rotationAgent calmEnd.files (turnLog (writeLog rotationStart loginLine) "1:2") 1000000 := by
      unfold Split
      decide +kernel
    have unskipped : ¬Skips rotationAgent (turnLog (writeLog rotationStart loginLine) "1:2") 1000000 := by
      unfold Skips
      decide +kernel
    exact ⟨unsplit, unskipped⟩
  · exact (by decide : "1:2" ≠ "1:1")
  · trivial

/-- The log is rotated twice between two calls, and a login lies in the file between. -/
def hastyHistory : List (Transition World LogAction) :=
  let first := turnLog rotationStart "1:2"
  let written := writeLog first loginLine
  let second := turnLog written "1:3"
  [⟨second, .collect 1000000 true true, second.collect rotationAgent 1000000 true true⟩,
    ⟨written, .rotate "1:3", second⟩, ⟨first, .append loginLine, written⟩, ⟨rotationStart, .rotate "1:2", first⟩]

def hastyEnd : World :=
  (turnLog (writeLog (turnLog rotationStart "1:2") loginLine) "1:3").collect rotationAgent 1000000 true true

/-- The call finishes the oldest file and jumps over the login. Nothing is counted. -/
theorem rotation_skips_file : ∃ (c : Collector) (history : List (Transition World LogAction)) (w : World),
    Run (logSystem c (attachedLog c 0 0)) history w ∧
    (w.spool.cp.inode = w.current.inode ∧ completeLines (w.current.content.drop w.spool.cp.offset) = []) ∧
    w.gone = 0 ∧ w.spool.cp.dropped = 0 ∧ ∃ id ∈ keys Record.id (later w.files 0 0),
      ¬(PassedWhole c history (members Record.id id (later w.files 0 0)) ∨ Counted c history id) := by
  have run : Run (logSystem rotationAgent (attachedLog rotationAgent 0 0)) hastyHistory hastyEnd := by
    refine .next (.next (.next (.next (.start rotationStart_attached) ⟨by decide, by decide, by decide, rfl⟩) rfl)
      ⟨by decide, by decide, by decide, rfl⟩) rfl
  refine ⟨rotationAgent, hastyHistory, hastyEnd, run, by decide +kernel, rfl, by decide +kernel,
    Bytes.utf8 "1.000:1", by decide +kernel, ?_⟩
  have reads : read ((turnLog (writeLog (turnLog rotationStart "1:2") loginLine) "1:3").start rotationAgent)
      (turnLog (writeLog (turnLog rotationStart "1:2") loginLine) "1:3").dir 1000000 = .ok (⟨"1:3", 0, Bytes.utf8 "b", 0⟩, []) := by
    rfl
  rintro (⟨t, member, next, passed, ⟨now, attached, action, got, -⟩, g, inside, -⟩ | ⟨t, member, now, attached, action, -, more, -⟩)
  · simp only [hastyHistory, List.mem_cons, List.not_mem_nil, or_false] at member
    rcases member with rfl | rfl | rfl | rfl
    · obtain ⟨rfl, -, -⟩ := LogAction.collect.inj action
      obtain ⟨-, rfl⟩ := Prod.mk.inj (Except.ok.inj (reads.symm.trans got))
      cases inside
    all_goals cases action
  · simp only [hastyHistory, List.mem_cons, List.not_mem_nil, or_false] at member
    rcases member with rfl | rfl | rfl | rfl
    · revert more
      decide +kernel
    all_goals cases action

end SshLogger
