import SshLogger.Proofs.LogRuns

/-! Whether collection gets to the end of files that no longer change. Each call
lowers a measure until the end is reached, except where a call settles nothing:
at a group that fills the whole window, and before the unterminated tail of a
rotated file. -/

namespace SshLogger
open Library Library.Lines Library.Grouping

section Progress
variable {c : Collector} {s : Spool} {dir : LogDir} {now : Int}

/-- The checkpoint a call reads from, and its file. -/
def reading (c : Collector) (s : Spool) (dir : LogDir) : Checkpoint × LogFile := locate (attach c s.cp dir).1 dir

def attaches (c : Collector) (s : Spool) (dir : LogDir) : Bool := (attach c s.cp dir).2

/-- What a call may find: the checkpoint's file is still there, no complete line
is too long, and no record is recent, wherever the lines begin. -/
structure Still (c : Collector) (s : Spool) (dir : LogDir) (now : Int) : Prop where
  named : dir.current.inode ≠ ""
  present : (attach c s.cp dir).1.inode ∈ (dir.current :: dir.rotated).map LogFile.inode
  short : ∀ file ∈ dir.current :: dir.rotated, ∀ line ∈ completeLines file.content, line.length ≤ maxLine
  old : ∀ file ∈ dir.current :: dir.rotated, ∀ r ∈ recordsFrom file 0, r.time ≤ now - 3000
  old_here : ∀ r ∈ recordsFrom (reading c s dir).2 (reading c s dir).1.offset, r.time ≤ now - 3000

/-- The checkpoint names the current file at the end of its last complete line. -/
def CaughtUp (c : Collector) (s : Spool) (dir : LogDir) : Prop :=
  s.cp.boot = c.boot ∧ s.cp.inode = dir.current.inode ∧
    s.cp.offset = (completeLines dir.current.content).flatten.length

/-- The window is one unfinished group that begins at the checkpoint, and the file goes on. -/
def FilledByGroup (file : LogFile) (offset : Nat) : Prop :=
  ∃ line rest r, windowAt file offset = line :: rest ∧ parseRecord line = some r ∧
    (∀ other ∈ records (line :: rest), other.id = r.id ∧ isEnd other = false) ∧ stopsShort file offset = true

/-- No complete line is left, and no end that lets the call go on to the current file. -/
def InTail (dir : LogDir) (file : LogFile) (offset : Nat) : Prop :=
  completeLines (file.content.drop offset) = [] ∧ (file.inode = dir.current.inode ∨ offset < file.size)

/-- A state whose next call can do nothing, short of the end. -/
def Stalled (c : Collector) (s : Spool) (dir : LogDir) : Prop :=
  ¬CaughtUp c s dir ∧ attaches c s dir = false ∧ (reading c s dir).1.offset ≤ (reading c s dir).2.size ∧
    (FilledByGroup (reading c s dir).2 (reading c s dir).1.offset ∨
      InTail dir (reading c s dir).2 (reading c s dir).1.offset)

/-- What a file still holds; a truncated one is read from its start. -/
def unreadSize (file : LogFile) (offset : Nat) : Nat := if file.size < offset then file.size + 1 else file.size - offset

def outstanding (c : Collector) (s : Spool) (dir : LogDir) : Nat :=
  (if attaches c s dir then 1 else 0) +
    (if (reading c s dir).2.inode = dir.current.inode then 0 else dir.current.size + 1) +
    unreadSize (reading c s dir).2 (reading c s dir).1.offset

theorem window_eq_nil {lines : List Bytes} : window lines = [] ↔ lines = [] := by
  cases lines with
  | nil => simp [window, windowFrom, maxLines]
  | cons line rest => simp [window, windowFrom, maxLines, maxChunk]

theorem settled_eq_nil {cutoff : Int} {short : Bool} {lines : List Bytes} : settled cutoff short lines = [] ↔
    lines = [] ∨ ∃ line rest, lines = line :: rest ∧ waits cutoff short (records lines) line = true := by
  cases lines with
  | nil => simp [settled]
  | cons line rest => simp [settled]

/-- Where no record is recent, a first line waits when its group fills a window that stops short. -/
theorem waits_iff {cutoff : Int} {short : Bool} {line : Bytes} {rest : List Bytes}
    (old : ∀ r ∈ records (line :: rest), r.time ≤ cutoff) :
    waits cutoff short (records (line :: rest)) line = true ↔ ∃ r, parseRecord line = some r ∧
      (∀ other ∈ records (line :: rest), other.id = r.id ∧ isEnd other = false) ∧ short = true := by
  cases parsed : parseRecord line with
  | none => simp [waits, parsed]
  | some r =>
    have rows : records (line :: rest) = r :: records rest := by simp [records, parsed]
    have first : (members Record.id r.id (records (line :: rest))).head? = some r := by simp [rows, members]
    have recent : decide (r.time > cutoff) = false := by
      have := old r (by simp [rows])
      simp [this]
    have single : (keys Record.id (records (line :: rest))).getLast? = some r.id ↔
        ∀ other ∈ records (line :: rest), other.id = r.id := by
      rw [rows, keys_getLast]
      simp
    simp only [waits, parsed, isHeld, first, Option.any_some, recent, Bool.false_or, Bool.and_eq_true, Bool.not_eq_true',
      beq_iff_eq, single, Option.some.injEq, exists_eq_left']
    constructor
    · rintro ⟨unfinished, short, same⟩
      refine ⟨fun other member => ⟨same other member, ?_⟩, short⟩
      have inside := List.any_eq_false.mp unfinished other (mem_members.mpr ⟨member, same other member⟩)
      simpa using inside
    · rintro ⟨whole, short⟩
      refine ⟨List.any_eq_false.mpr fun other member => ?_, short, fun other member => (whole other member).1⟩
      simp [(whole other (mem_members.mp member).1).2]

/-- Where no record is recent, nothing is settled before a group that fills the window, and where there are no lines. -/
theorem settledAt_eq_nil {file : LogFile} {offset : Nat} (old : ∀ r ∈ recordsFrom file offset, r.time ≤ now - 3000) :
    settledAt file offset now = [] ↔ completeLines (file.content.drop offset) = [] ∨ FilledByGroup file offset := by
  have seen : ∀ r ∈ records (windowAt file offset), r.time ≤ now - 3000 := by
    intro r member
    refine old r ?_
    rw [recordsFrom_lines (windowAt_isPrefix file offset)]
    exact List.mem_append_left _ member
  rw [settledAt, settled_eq_nil]
  refine or_congr window_eq_nil ?_
  constructor
  · rintro ⟨line, rest, lines, waiting⟩
    rw [lines] at waiting seen
    obtain ⟨r, parsed, whole, short⟩ := (waits_iff seen).mp waiting
    exact ⟨line, rest, r, lines, parsed, whole, short⟩
  · rintro ⟨line, rest, r, lines, parsed, whole, short⟩
    refine ⟨line, rest, lines, ?_⟩
    rw [lines] at seen ⊢
    exact (waits_iff seen).mpr ⟨r, parsed, whole, short⟩

/-- Which file is read depends on the inode only. -/
theorem locate_named {cp other : Checkpoint} (there : cp.inode ∈ (dir.current :: dir.rotated).map LogFile.inode)
    (same : other.inode = cp.inode) : locate other dir = (other, (locate cp dir).2) := by
  simp only [locate, same]
  split
  · rfl
  next rotated =>
    cases found : dir.rotated.find? fun file => file.inode == cp.inode with
    | some file => rfl
    | none =>
      obtain ⟨file, member, named⟩ := List.mem_map.mp there
      rcases List.mem_cons.mp member with rfl | member
      · exact absurd (beq_iff_eq.mpr named.symm) rotated
      · exact absurd (beq_iff_eq.mpr named) (by simpa using List.find?_eq_none.mp found file member)

/-- The file a call reads is one of those there are, and is the one the checkpoint names. -/
theorem Still.located (still : Still c s dir now) : (reading c s dir).1 = (attach c s.cp dir).1 ∧
    (reading c s dir).2 ∈ dir.current :: dir.rotated ∧
      (reading c s dir).2.inode = (attach c s.cp dir).1.inode := by
  have present := still.present
  simp only [reading, locate]
  split
  next same => exact ⟨rfl, List.mem_cons_self, by simpa using (eq_of_beq same).symm⟩
  next other =>
    split
    next file found =>
      have named := List.find?_some found
      exact ⟨rfl, List.mem_cons_of_mem _ (List.mem_of_find?_eq_some found), by simpa using named⟩
    next missing =>
      obtain ⟨file, member, same⟩ := List.mem_map.mp present
      rcases List.mem_cons.mp member with rfl | rotated
      · exact absurd (beq_iff_eq.mpr same.symm) other
      · exact absurd (beq_iff_eq.mpr same) (by simpa using List.find?_eq_none.mp missing file rotated)

def readingFrom (c : Collector) (s : Spool) (dir : LogDir) : Checkpoint :=
  checkTruncated (reading c s dir).1 (reading c s dir).2

theorem readingFrom_inside : (readingFrom c s dir).offset ≤ (reading c s dir).2.size := (checkTruncated_inside _ _).1

theorem Still.old_from (still : Still c s dir now) :
    ∀ r ∈ recordsFrom (reading c s dir).2 (readingFrom c s dir).offset, r.time ≤ now - 3000 := by
  simp only [readingFrom, checkTruncated]
  split
  · exact still.old _ still.located.2.1
  · exact still.old_here

def settling (c : Collector) (s : Spool) (dir : LogDir) (now : Int) : List Bytes :=
  settledAt (reading c s dir).2 (readingFrom c s dir).offset now

def movedTo (c : Collector) (s : Spool) (dir : LogDir) (now : Int) : Checkpoint :=
  if (reading c s dir).2.inode ≠ dir.current.inode ∧
      (reading c s dir).2.size ≤ (readingFrom c s dir).offset + (settling c s dir now).flatten.length
  then { readingFrom c s dir with inode := dir.current.inode, offset := 0 }
  else { readingFrom c s dir with offset := (readingFrom c s dir).offset + (settling c s dir now).flatten.length }

/-- A call on files that are still moves the checkpoint behind the settled lines, and loses
nothing when it settles none. -/
theorem collect_still (still : Still c s dir now) : ∃ lost,
    (s.collect c dir now true true).1.cp =
      { movedTo c s dir now with dropped := (movedTo c s dir now).dropped + lost } ∧
    (settling c s dir now = [] → lost = 0) := by
  obtain ⟨-, listed, -⟩ := still.located
  have as_read : SshLogger.read (attach c s.cp dir).1 dir now =
      readFile (readingFrom c s dir) (reading c s dir).2 dir now := by
    simp only [SshLogger.read]
    exact readFile_checked _ _ _ _
  rcases readFile_settles (readingFrom c s dir) (reading c s dir).2 dir now readingFrom_inside with
    ⟨-, -, line, member, long⟩ | ⟨next, passed, got, groups, moved⟩
  · have inside := (windowAt_isPrefix _ _).subset member
    obtain ⟨whole, there, le⟩ := (completeLines_drop_le _ _).2 line inside
    have := still.short _ listed whole there
    omega
  · have commits := collect_commits true (Bool.and_false _) (as_read.trans got)
    by_cases nothing : settling c s dir now = []
    · have no_groups : passed = [] := by
        have empty : passedAt (reading c s dir).2 (readingFrom c s dir).offset now = [] := by
          simp only [settling, settledAt] at nothing
          simp [passedAt, passedOn, nothing, records, keys]
        rw [empty] at groups
        exact List.map_eq_nil_iff.mp groups
      refine ⟨0, ?_, fun _ => rfl⟩
      rw [commits, no_groups]
      exact moved
    · obtain ⟨lost, same⟩ :=
        commit_cp (if (attach c s.cp dir).2 then s.commit (attach c s.cp dir).1 [] true else s) next (groupEvents c passed)
      refine ⟨lost, ?_, fun empty => absurd empty nothing⟩
      rw [commits, same, moved]
      rfl

def Switches (c : Collector) (s : Spool) (dir : LogDir) (now : Int) : Prop :=
  (reading c s dir).2.inode ≠ dir.current.inode ∧
    (reading c s dir).2.size ≤ (readingFrom c s dir).offset + (settling c s dir now).flatten.length

/-- The call does something: it sets the checkpoint anew, finds the file truncated,
settles lines or goes on to the current file. -/
def Moves (c : Collector) (s : Spool) (dir : LogDir) (now : Int) : Prop :=
  attaches c s dir = true ∨ (reading c s dir).2.size < (reading c s dir).1.offset ∨
    settling c s dir now ≠ [] ∨ Switches c s dir now

theorem attach_kept (kept : attaches c s dir = false) : (attach c s.cp dir).1 = s.cp := by
  simp only [attaches, attach] at kept ⊢
  split at kept
  · cases kept
  next unset => rw [if_neg unset]

theorem Still.readingFrom_inode (still : Still c s dir now) :
    (readingFrom c s dir).inode = (attach c s.cp dir).1.inode := by
  rw [← still.located.1, readingFrom, checkTruncated]
  split <;> rfl

theorem Still.inode (still : Still c s dir now) : (movedTo c s dir now).inode ≠ "" ∧
    (movedTo c s dir now).inode ∈ (dir.current :: dir.rotated).map LogFile.inode := by
  have kept := still.readingFrom_inode
  simp only [movedTo]
  split
  · exact ⟨still.named, List.mem_cons_self⟩
  · exact ⟨kept ▸ attach_inode still.named, kept ▸ still.present⟩

theorem Still.boot (still : Still c s dir now) : (movedTo c s dir now).boot = c.boot := by
  obtain ⟨same, -, -⟩ := still.located
  have kept : (readingFrom c s dir).boot = c.boot := by
    rw [← attach_boot c s.cp dir, ← same, readingFrom, checkTruncated]
    split <;> rfl
  simp only [movedTo]
  split <;> exact kept

section
variable (still : Still c s dir now)
include still

theorem Still.next_cp : (s.collect c dir now true true).1.cp.inode = (movedTo c s dir now).inode ∧
    (s.collect c dir now true true).1.cp.offset = (movedTo c s dir now).offset ∧
    (s.collect c dir now true true).1.cp.boot = c.boot := by
  obtain ⟨lost, moved, -⟩ := collect_still still
  rw [moved]
  exact ⟨rfl, rfl, still.boot⟩

theorem Still.next_attached :
    attach c (s.collect c dir now true true).1.cp dir = ((s.collect c dir now true true).1.cp, false) := by
  obtain ⟨inode, -, boot⟩ := still.next_cp
  exact attach_attached (inode ▸ still.inode.1) boot

theorem Still.next_reading : (reading c (s.collect c dir now true true).1 dir).1 = (s.collect c dir now true true).1.cp ∧
    (Switches c s dir now → (reading c (s.collect c dir now true true).1 dir).2 = dir.current ∧
      (s.collect c dir now true true).1.cp.offset = 0 ∧ (s.collect c dir now true true).1.cp.inode = dir.current.inode) ∧
    (¬Switches c s dir now →
      (reading c (s.collect c dir now true true).1 dir).2 = (reading c s dir).2 ∧
      (s.collect c dir now true true).1.cp.offset = (readingFrom c s dir).offset + (settling c s dir now).flatten.length ∧
      (s.collect c dir now true true).1.cp.inode = (attach c s.cp dir).1.inode) := by
  obtain ⟨inode, offset, -⟩ := still.next_cp
  have next : reading c (s.collect c dir now true true).1 dir = locate (s.collect c dir now true true).1.cp dir := by
    rw [reading, still.next_attached]
  rw [next]
  refine ⟨?_, fun switches => ?_, fun stays => ?_⟩
  · rw [locate_named still.inode.2 inode]
  · have target : movedTo c s dir now = { readingFrom c s dir with inode := dir.current.inode, offset := 0 } :=
      if_pos switches
    rw [target] at inode offset
    exact ⟨by simp [locate, inode], offset, inode⟩
  · have target : movedTo c s dir now =
        { readingFrom c s dir with offset := (readingFrom c s dir).offset + (settling c s dir now).flatten.length } :=
      if_neg stays
    rw [target] at inode offset
    have same := inode.trans still.readingFrom_inode
    exact ⟨by rw [locate_named still.present same, reading], offset, same⟩

/-- Still files stay so for the next call. -/
theorem Still.next {later : Int} (again : Still c s dir later) : Still c (s.collect c dir now true true).1 dir later := by
  obtain ⟨cp, switched, stayed⟩ := still.next_reading
  refine ⟨again.named, ?_, again.short, again.old, ?_⟩
  · rw [still.next_attached, still.next_cp.1]
    exact still.inode.2
  · rw [cp]
    by_cases switches : Switches c s dir now
    · obtain ⟨file, offset, -⟩ := switched switches
      rw [file, offset]
      exact again.old dir.current List.mem_cons_self
    · obtain ⟨file, offset, -⟩ := stayed switches
      intro r member
      refine again.old_from r ?_
      rw [recordsFrom_lines ((settledAt_isPrefix _ _ now).trans (windowAt_isPrefix _ _))]
      rw [file, offset] at member
      exact List.mem_append_right _ member

/-- After a call only the rest of the file it leaves the checkpoint in is outstanding. -/
theorem Still.next_outstanding :
    (Switches c s dir now → outstanding c (s.collect c dir now true true).1 dir = dir.current.size) ∧
    (¬Switches c s dir now → outstanding c (s.collect c dir now true true).1 dir =
      (if (reading c s dir).2.inode = dir.current.inode then 0 else dir.current.size + 1) +
        ((reading c s dir).2.size - ((readingFrom c s dir).offset + (settling c s dir now).flatten.length))) := by
  obtain ⟨cp, switched, stayed⟩ := still.next_reading
  have attached : attaches c (s.collect c dir now true true).1 dir = false := by rw [attaches, still.next_attached]
  refine ⟨fun switches => ?_, fun stays => ?_⟩
  · obtain ⟨file, offset, -⟩ := switched switches
    simp [outstanding, attached, cp, file, offset, unreadSize]
  · obtain ⟨file, offset, -⟩ := stayed stays
    have within : ¬(reading c s dir).2.size <
        (readingFrom c s dir).offset + (settling c s dir now).flatten.length :=
      Nat.not_lt.mpr (settledAt_inside readingFrom_inside now)
    simp only [outstanding, attached, cp, file, offset, unreadSize, if_neg within, Bool.false_eq_true, if_false,
      Nat.zero_add]

theorem Still.attached_current (fresh : attaches c s dir = true) :
    (reading c s dir).2.inode = dir.current.inode := by
  rw [still.located.2.2]
  simp only [attaches, attach] at fresh ⊢
  split at fresh
  next unset => rw [if_pos unset]
  · cases fresh

/-- A call that does something lowers what is outstanding and moves the checkpoint. -/
theorem Still.lowers (moves : Moves c s dir now) :
    outstanding c (s.collect c dir now true true).1 dir < outstanding c s dir ∧
      (s.collect c dir now true true).1.cp ≠ s.cp := by
  -- An unchanged checkpoint is one that was attached before.
  have unset : (s.collect c dir now true true).1.cp = s.cp → attaches c s dir = false := fun same => by
    rw [attaches, ← same, still.next_attached]
  by_cases switches : Switches c s dir now
  · have kept : attaches c s dir = false :=
      Bool.eq_false_iff.mpr fun fresh => switches.1 (still.attached_current fresh)
    constructor
    · rw [still.next_outstanding.1 switches, outstanding, if_neg switches.1]
      omega
    · intro same
      have named := (still.next_reading.2.1 switches).2.2
      rw [same, ← attach_kept kept, ← still.located.2.2] at named
      exact switches.1 named
  · obtain ⟨-, offset, -⟩ := still.next_reading.2.2 switches
    have end_inside : (readingFrom c s dir).offset + (settling c s dir now).flatten.length ≤
        (reading c s dir).2.size := settledAt_inside readingFrom_inside now
    have from_offset : (readingFrom c s dir).offset = if (reading c s dir).2.size <
        (reading c s dir).1.offset then 0 else (reading c s dir).1.offset := by
      rw [readingFrom, checkTruncated]
      split <;> rfl
    have some_read : settling c s dir now ≠ [] → 0 < (settling c s dir now).flatten.length := by
      intro settles
      obtain ⟨line, member⟩ := List.exists_mem_of_ne_nil _ settles
      have whole := ((settledAt_isPrefix _ _ now).trans (windowAt_isPrefix _ _)).subset member
      exact List.length_pos_iff.mpr fun empty => completeLines_ne_nil whole (List.flatten_eq_nil_iff.mp empty line member)
    constructor
    · rw [still.next_outstanding.2 switches, outstanding, unreadSize]
      split at from_offset
      next truncated => rw [if_pos truncated]; omega
      next whole =>
        rw [if_neg whole]
        rcases moves with fresh | truncated | settles | switch
        · rw [if_pos fresh]; omega
        · exact absurd truncated whole
        · have := some_read settles; omega
        · exact absurd switch switches
    · intro same
      have cp : (reading c s dir).1 = s.cp := by rw [still.located.1, attach_kept (unset same)]
      rw [same, ← cp] at offset
      rcases moves with fresh | truncated | settles | switch
      · exact absurd (unset same) (by simp [fresh])
      · omega
      · have := some_read settles
        split at from_offset <;> omega
      · exact absurd switch switches

theorem Still.kept (rests : ¬Moves c s dir now) : (s.collect c dir now true true).1.cp = s.cp := by
  simp only [Moves, not_or, not_not, Nat.not_lt, Bool.not_eq_true] at rests
  obtain ⟨attached, inside, nothing, stays⟩ := rests
  obtain ⟨lost, moved, none_lost⟩ := collect_still still
  have same : readingFrom c s dir = s.cp := by
    rw [readingFrom, checkTruncated, if_neg (Nat.not_lt.mpr inside), still.located.1, attach_kept attached]
  have target : movedTo c s dir now =
      { readingFrom c s dir with offset := (readingFrom c s dir).offset + (settling c s dir now).flatten.length } :=
    if_neg stays
  rw [moved, none_lost nothing, target, nothing, same]
  rfl

/-- A call does nothing where no record is recent exactly when the checkpoint is attached, stands inside its
file, and has a group that fills the window or nothing but a tail behind it. -/
theorem Still.rests_iff : ¬Moves c s dir now ↔ attaches c s dir = false ∧
    (reading c s dir).1.offset ≤ (reading c s dir).2.size ∧
    (FilledByGroup (reading c s dir).2 (reading c s dir).1.offset ∨
      InTail dir (reading c s dir).2 (reading c s dir).1.offset) := by
  simp only [Moves, not_or, not_not, Nat.not_lt, Bool.not_eq_true]
  refine and_congr_right fun _ => and_congr_right fun inside => ?_
  have same : (readingFrom c s dir).offset = (reading c s dir).1.offset := by
    rw [readingFrom, checkTruncated, if_neg (Nat.not_lt.mpr inside)]
  have empty : settling c s dir now = [] ↔ _ := settledAt_eq_nil still.old_from
  rw [same] at empty
  constructor
  · rintro ⟨nothing, stays⟩
    rcases empty.mp nothing with tail | filled
    · refine Or.inr ⟨tail, ?_⟩
      by_cases current : (reading c s dir).2.inode = dir.current.inode
      · exact Or.inl current
      · refine Or.inr (Nat.not_le.mp fun passed => stays ⟨current, ?_⟩)
        rw [same]
        omega
    · exact Or.inl filled
  · rintro (filled | ⟨tail, before_end⟩)
    · have nothing := empty.mpr (Or.inr filled)
      obtain ⟨line, rest, r, lines, parsed, whole, short⟩ := filled
      refine ⟨nothing, fun switches => ?_⟩
      have passed := switches.2
      rw [nothing, same] at passed
      simp only [stopsShort, decide_eq_true_eq] at short
      simp only [List.flatten_nil, List.length_nil] at passed
      omega
    · have nothing := empty.mpr (Or.inl tail)
      refine ⟨nothing, fun switches => ?_⟩
      have passed := switches.2
      rw [nothing, same] at passed
      rcases before_end with current | before_end
      · exact switches.1 current
      · simp only [List.flatten_nil, List.length_nil] at passed
        omega

theorem Still.stalled_iff : Stalled c s dir ↔ ¬CaughtUp c s dir ∧ ¬Moves c s dir now :=
  and_congr_right fun _ => still.rests_iff.symm

theorem Still.ended_rests (ended : CaughtUp c s dir) : ¬Moves c s dir now := by
  obtain ⟨boot, inode, offset⟩ := ended
  have attached : attach c s.cp dir = (s.cp, false) := attach_attached (inode ▸ still.named) boot
  have here : reading c s dir = (s.cp, dir.current) := by simp [reading, attached, locate, inode]
  have rest := completeLines_drop dir.current.content (completeLines dir.current.content).length
  have inside := flatten_length_le dir.current.content (completeLines dir.current.content).length
  rw [List.take_length, List.drop_length, ← offset] at rest
  rw [List.take_length, ← offset] at inside
  rw [still.rests_iff, attaches, attached, here]
  exact ⟨rfl, inside, Or.inr ⟨rest, Or.inl rfl⟩⟩

/-- A call on still files goes on exactly when it does not find a stalled state. -/
theorem Still.advances_iff : (CaughtUp c s dir ∨
    (outstanding c (s.collect c dir now true true).1 dir < outstanding c s dir ∧
      (s.collect c dir now true true).1.cp ≠ s.cp)) ↔ ¬Stalled c s dir := by
  rw [still.stalled_iff, not_and_or, not_not, not_not]
  refine or_congr_right ?_
  constructor
  · rintro ⟨-, moved⟩
    exact not_not.mp fun rests => moved (still.kept rests)
  · exact still.lowers

end

end Progress

/-- What the agent does up to its next call: events are acknowledged, then it collects. -/
structure Tick where
  acked : List Event
  removed : Bool
  now : Int

def Tick.run (c : Collector) (dir : LogDir) (s : Spool) (tick : Tick) : Spool :=
  ((s.ack tick.acked tick.removed).collect c dir tick.now true true).1

def runTicks (c : Collector) (dir : LogDir) (s : Spool) (ticks : List Tick) : Spool := ticks.foldl (Tick.run c dir) s

def EachCall (holds : Spool → Spool → Prop) (c : Collector) (dir : LogDir) : Spool → List Tick → Prop
  | _, [] => True
  | s, tick :: rest => holds s (tick.run c dir s) ∧ EachCall holds c dir (tick.run c dir s) rest

/-- Up to the end each call lowers what is outstanding, and none leaves the checkpoint. -/
def Progresses (c : Collector) (dir : LogDir) : Spool → List Tick → Prop :=
  EachCall (fun s after => CaughtUp c s dir ∨ (outstanding c after dir < outstanding c s dir ∧ after.cp ≠ s.cp)) c dir

def NeverStalled (c : Collector) (dir : LogDir) : Spool → List Tick → Prop :=
  EachCall (fun s _ => ¬Stalled c s dir) c dir

theorem ack_cp (s : Spool) (events : List Event) (removed : Bool) : (s.ack events removed).cp = s.cp := by
  cases removed <;> rfl

section Runs
variable {c : Collector} {s other : Spool} {dir : LogDir} {now : Int}

theorem reading_cp (same : other.cp = s.cp) : reading c other dir = reading c s dir := by rw [reading, same, reading]

theorem attaches_cp (same : other.cp = s.cp) : attaches c other dir = attaches c s dir := by rw [attaches, same, attaches]

theorem outstanding_cp (same : other.cp = s.cp) : outstanding c other dir = outstanding c s dir := by
  simp only [outstanding, reading_cp same, attaches_cp same]

theorem CaughtUp.of_cp (ended : CaughtUp c s dir) (same : other.cp = s.cp) : CaughtUp c other dir := by
  rwa [CaughtUp, same]

theorem Still.of_cp (still : Still c s dir now) (same : other.cp = s.cp) : Still c other dir now :=
  ⟨still.named, same ▸ still.present, still.short, still.old, reading_cp same ▸ still.old_here⟩

theorem Stalled.of_cp (stalled : Stalled c s dir) (same : other.cp = s.cp) : Stalled c other dir := by
  obtain ⟨short, attached, place⟩ := stalled
  refine ⟨fun ended => short (ended.of_cp same.symm), (attaches_cp same).trans attached, ?_⟩
  rwa [reading_cp same]

theorem Still.tick {tick : Tick} (still : Still c s dir tick.now) {later : Int} (again : Still c s dir later) :
    Still c (tick.run c dir s) dir later :=
  (still.of_cp (ack_cp s tick.acked tick.removed)).next (again.of_cp (ack_cp s tick.acked tick.removed))

theorem Still.tick_advances_iff {tick : Tick} (still : Still c s dir tick.now) :
    (CaughtUp c s dir ∨
      (outstanding c (tick.run c dir s) dir < outstanding c s dir ∧ (tick.run c dir s).cp ≠ s.cp)) ↔ ¬Stalled c s dir := by
  have acked := ack_cp s tick.acked tick.removed
  have call := (still.of_cp acked).advances_iff
  rw [outstanding_cp acked, acked] at call
  have ended : CaughtUp c (s.ack tick.acked tick.removed) dir ↔ CaughtUp c s dir :=
    ⟨fun ended => ended.of_cp acked.symm, fun ended => ended.of_cp acked⟩
  have stalled : Stalled c (s.ack tick.acked tick.removed) dir ↔ Stalled c s dir :=
    ⟨fun stalled => stalled.of_cp acked.symm, fun stalled => stalled.of_cp acked⟩
  rw [ended, stalled] at call
  exact call

/-- At the end, and in a stalled state, the checkpoint stays. -/
theorem Still.tick_rests {tick : Tick} (still : Still c s dir tick.now) (rests : CaughtUp c s dir ∨ Stalled c s dir) :
    (tick.run c dir s).cp = s.cp := by
  have acked := ack_cp s tick.acked tick.removed
  have here := still.of_cp acked
  refine (here.kept ?_).trans acked
  rcases rests with ended | stalled
  · exact here.ended_rests (ended.of_cp acked)
  · exact (here.stalled_iff.mp (stalled.of_cp acked)).2

theorem runTicks_rests {ticks : List Tick} (still : ∀ tick ∈ ticks, Still c s dir tick.now)
    (rests : CaughtUp c s dir ∨ Stalled c s dir) : (runTicks c dir s ticks).cp = s.cp := by
  induction ticks generalizing s with
  | nil => rfl
  | cons tick rest ih =>
    have here := still tick List.mem_cons_self
    have same := here.tick_rests rests
    refine (ih (fun later member => here.tick (still later (List.mem_cons_of_mem _ member))) ?_).trans same
    exact rests.imp (fun ended => ended.of_cp same) (fun stalled => stalled.of_cp same)

theorem advances_iff {ticks : List Tick} (still : ∀ tick ∈ ticks, Still c s dir tick.now) :
    Progresses c dir s ticks ↔ NeverStalled c dir s ticks := by
  induction ticks generalizing s with
  | nil => exact Iff.rfl
  | cons tick rest ih =>
    have here := still tick List.mem_cons_self
    exact and_congr here.tick_advances_iff (ih fun later member => here.tick (still later (List.mem_cons_of_mem _ member)))

/-- A run that advances with each call reaches the end. -/
theorem Progresses.ends {ticks : List Tick} (advances : Progresses c dir s ticks)
    (still : ∀ tick ∈ ticks, Still c s dir tick.now) (enough : outstanding c s dir < ticks.length) :
    CaughtUp c (runTicks c dir s ticks) dir := by
  induction ticks generalizing s with
  | nil => simp at enough
  | cons tick rest ih =>
    obtain ⟨ended | ⟨lower, -⟩, later⟩ := advances
    · exact ended.of_cp (runTicks_rests still (Or.inl ended))
    · have here := still tick List.mem_cons_self
      refine ih later (fun other member => here.tick (still other (List.mem_cons_of_mem _ member))) ?_
      simp only [List.length_cons] at enough
      omega

end Runs

/-- On files that are still each call of a run lowers what is outstanding and moves the checkpoint until its end,
exactly when no call of the run finds a stalled state; then the end is reached, and from a stalled state never. -/
theorem collect_advances {c : Collector} {s : Spool} {dir : LogDir} {ticks : List Tick}
    (still : ∀ tick ∈ ticks, Still c s dir tick.now) :
    (Progresses c dir s ticks ↔ NeverStalled c dir s ticks) ∧
    (NeverStalled c dir s ticks → outstanding c s dir < ticks.length → CaughtUp c (runTicks c dir s ticks) dir) ∧
    (Stalled c s dir → (runTicks c dir s ticks).cp = s.cp ∧ ¬CaughtUp c (runTicks c dir s ticks) dir) := by
  refine ⟨advances_iff still, fun free => ((advances_iff still).mpr free).ends still, fun stalled => ?_⟩
  have same := runTicks_rests still (Or.inr stalled)
  exact ⟨same, fun ended => stalled.1 (ended.of_cp same.symm)⟩

def progressAgent : Collector := ⟨Bytes.utf8 "b", false, id⟩

def endLine : Bytes := Bytes.utf8 "type=EOE msg=audit(1.000:1): \n"

def behindAt (offset : Nat) : Spool :=
  let cp : Checkpoint := ⟨"1:1", offset, Bytes.utf8 "b", 0⟩
  ⟨⟨some cp, [], none⟩, cp, 0⟩

def turnedDir (tail : Bytes) : LogDir := ⟨⟨"1:2", endLine⟩, [⟨"1:1", endLine ++ tail⟩]⟩

def turnedTicks : List Tick := List.replicate 80 ⟨[], true, 1000000⟩

theorem collect_advances_turned :
    (Progresses progressAgent (turnedDir []) (behindAt 0) turnedTicks ↔
      NeverStalled progressAgent (turnedDir []) (behindAt 0) turnedTicks) ∧
    (NeverStalled progressAgent (turnedDir []) (behindAt 0) turnedTicks →
      CaughtUp progressAgent (runTicks progressAgent (turnedDir []) (behindAt 0) turnedTicks) (turnedDir [])) := by
  have still : ∀ tick ∈ turnedTicks, Still progressAgent (behindAt 0) (turnedDir []) tick.now := by
    intro tick member
    obtain rfl := List.eq_of_mem_replicate member
    exact ⟨by decide, by decide, by decide +kernel, by decide +kernel, by decide +kernel⟩
  obtain ⟨exact_when, reaches, -⟩ := collect_advances still
  exact ⟨exact_when, fun free => reaches free (by decide +kernel)⟩

/-- A rotated file ends in a tail without newline: the call that stands before the tail leaves everything as it is. -/
theorem collect_never_leaves_tail : ¬∃ less : Spool → Spool → Prop, WellFounded less ∧
    ∀ c s dir now, Still c s dir now → CaughtUp c s dir ∨
      (less (s.collect c dir now true true).1 s ∧ (s.collect c dir now true true).1.cp ≠ s.cp) := by
  rintro ⟨less, -, advances⟩
  have still : Still progressAgent (behindAt endLine.length) (turnedDir (Bytes.utf8 "type=")) 1000000 :=
    ⟨by decide, by decide, by decide +kernel, by decide +kernel, by decide +kernel⟩
  rcases advances _ _ _ _ still with ended | ⟨-, moved⟩
  · exact absurd ended.2.1 (by decide)
  · exact moved (by decide +kernel)

end SshLogger
