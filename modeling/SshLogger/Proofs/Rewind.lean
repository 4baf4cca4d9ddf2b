import SshLogger.Proofs.Rotation
import Mathlib.Data.List.Induction

/-! Where the checkpoint is rewound to. A read may go back from the end of what it
has read to the first line of a group that may still grow; it passes on exactly
the groups that begin before that place, so no record is left behind it. -/

namespace SshLogger
open Library Library.Lines Library.Grouping Library.History

/-- A record's line stands at `position`, counted from `base`. -/
def RecordAt (base : Nat) (lines : List Bytes) (position : Nat) (r : Record) : Prop :=
  ∃ before line after, lines = before ++ line :: after ∧ position = base + before.flatten.length ∧ parseRecord line = some r

/-- The checkpoint moves to `safe` and the read passes groups on. `lines` are the
lines it has read, the first of which stands at `base`. -/
structure Rewound (base : Nat) (lines : List Bytes) (cutoff : Int) (safe : Nat) (passed : List Group) : Prop where
  within : base ≤ safe ∧ safe ≤ base + lines.flatten.length
  boundary : safe = base + lines.flatten.length ∨ ∃ id, Starts base lines id safe
  whole : ∀ id start, Starts base lines id start → start < safe →
    ∃ g ∈ passed, g.records = members Record.id id (records lines)
  unpassed : ∀ position r, RecordAt base lines position r → (∀ g ∈ passed, g.first.id ≠ r.id) → safe ≤ position
  early : ∀ g ∈ passed, g.records = members Record.id g.first.id (records lines) ∧
    ∃ start, Starts base lines g.first.id start ∧ start < safe
  finished : ∀ g ∈ passed, g.first.time > cutoff → g.records.any isEnd = true

theorem Starts.of_key (base : Nat) {lines : List Bytes} {id : Bytes} (member : id ∈ keys Record.id (records lines)) :
    ∃ start, Starts base lines id start := by
  induction lines using List.reverseRecOn with
  | nil => simp [records, keys] at member
  | append_singleton lines last ih =>
    by_cases seen : id ∈ keys Record.id (records lines)
    · obtain ⟨start, starts⟩ := ih seen
      exact ⟨start, starts.append [last]⟩
    · obtain ⟨line, inside, named⟩ := line_of_keys member
      rcases List.mem_append.mp inside with older | newest
      · exact absurd (keys_of_line older named) seen
      · obtain rfl := List.mem_singleton.mp newest
        exact ⟨_, lines, line, [], rfl, rfl, named, seen⟩

theorem RecordAt.starts {base : Nat} {lines : List Bytes} {position : Nat} {r : Record}
    (stands : RecordAt base lines position r) : ∃ start, Starts base lines r.id start ∧ start ≤ position := by
  obtain ⟨before, line, after, rfl, rfl, parsed⟩ := stands
  by_cases seen : r.id ∈ keys Record.id (records before)
  · obtain ⟨start, starts⟩ := Starts.of_key base seen
    have longer := starts.append (line :: after)
    exact ⟨start, longer, Nat.le_of_lt ((longer.lt_iff (List.prefix_append _ _)).mpr seen)⟩
  · exact ⟨_, ⟨before, line, after, rfl, rfl, by simp [parsed], seen⟩, Nat.le_refl _⟩

theorem RecordAt.member {base : Nat} {lines : List Bytes} {position : Nat} {r : Record}
    (stands : RecordAt base lines position r) : r ∈ records lines := by
  obtain ⟨before, line, after, rfl, -, parsed⟩ := stands
  exact List.mem_filterMap.mpr ⟨line, by simp, parsed⟩

theorem RecordAt.within {base : Nat} {lines : List Bytes} {position : Nat} {r : Record}
    (stands : RecordAt base lines position r) : base ≤ position ∧ position < base + lines.flatten.length := by
  obtain ⟨before, line, after, rfl, rfl, parsed⟩ := stands
  have size : 0 < line.length := by
    cases line with
    | nil => cases parsed
    | cons _ _ => simp
  simp only [List.flatten_append, List.flatten_cons, List.length_append]
  omega

theorem RecordAt.append {base : Nat} {lines : List Bytes} {position : Nat} {r : Record}
    (stands : RecordAt base lines position r) (more : List Bytes) : RecordAt base (lines ++ more) position r := by
  obtain ⟨before, line, after, rfl, place⟩ := stands
  exact ⟨before, line, after ++ more, by simp, place⟩

theorem RecordAt.split {base : Nat} {first second : List Bytes} {position : Nat} {r : Record}
    (stands : RecordAt base (first ++ second) position r) :
    RecordAt base first position r ∨ RecordAt (base + first.flatten.length) second position r := by
  obtain ⟨before, line, after, whole, rfl, parsed⟩ := stands
  rcases List.append_eq_append_iff.mp whole with ⟨more, rfl, rfl⟩ | ⟨more, rfl, tail⟩
  · exact Or.inr ⟨more, line, after, rfl, by simp only [List.flatten_append, List.length_append]; omega, parsed⟩
  · cases more with
    | nil => exact Or.inr ⟨[], line, after, by simpa using tail.symm, by simp, parsed⟩
    | cons head more =>
      obtain ⟨rfl, rfl⟩ := List.cons.inj tail
      exact Or.inl ⟨before, line, more, rfl, rfl, parsed⟩

/-- The group of a record before the new checkpoint is passed on with it. -/
theorem Rewound.passes {base : Nat} {lines : List Bytes} {cutoff : Int} {safe : Nat} {passed : List Group}
    (rewound : Rewound base lines cutoff safe passed) {position : Nat} {r : Record}
    (stands : RecordAt base lines position r) (earlier : position < safe) : ∃ g ∈ passed, r ∈ g.records := by
  obtain ⟨start, starts, first⟩ := stands.starts
  obtain ⟨g, member, same⟩ := rewound.whole r.id start starts (by omega)
  refine ⟨g, member, ?_⟩
  rw [same]
  exact mem_members.mpr ⟨stands.member, rfl⟩

/-- What a read passes on and where it stops, in terms of the settled lines. -/
theorem rewound_settled {base : Nat} {lines : List Bytes} {cutoff : Int} {short : Bool} {passed : List Group}
    (rows : passed.map Group.records = passedOn cutoff short lines) :
    Rewound base lines cutoff (base + (settled cutoff short lines).flatten.length) passed := by
  have part : settled cutoff short lines <+: lines := settled_isPrefix _ _ _
  have passes : ∀ id ∈ keys Record.id (records (settled cutoff short lines)),
      ∃ g ∈ passed, g.records = members Record.id id (records lines) := by
    intro id member
    have listed : members Record.id id (records lines) ∈ passed.map Group.records :=
      rows ▸ List.mem_map_of_mem member
    exact List.mem_map.mp listed
  have passes_first : ∀ g ∈ passed, g.records = members Record.id g.first.id (records lines) ∧
      g.first.id ∈ keys Record.id (records (settled cutoff short lines)) := by
    intro g member
    have listed : g.records ∈ passedOn cutoff short lines := rows ▸ List.mem_map_of_mem member
    obtain ⟨id, begins, same⟩ := List.mem_map.mp listed
    have own : g.first.id = id := by
      have first : g.first ∈ members Record.id id (records lines) := by
        rw [same]
        exact List.mem_cons_self
      exact (mem_members.mp first).2
    exact own ▸ ⟨same.symm, begins⟩
  have whole : ∀ id start, Starts base lines id start → start < base + (settled cutoff short lines).flatten.length →
      ∃ g ∈ passed, g.records = members Record.id id (records lines) :=
    fun id start starts earlier => passes id ((starts.lt_iff part).mp earlier)
  refine ⟨⟨Nat.le_add_right _ _, Nat.add_le_add_left (flatten_length_mono part) _⟩, ?_, whole, ?_, ?_, ?_⟩
  · by_cases all : settled cutoff short lines = lines
    · exact Or.inl (by rw [all])
    · obtain ⟨line, after, id, split, named, held⟩ := settled_stops all
      refine Or.inr ⟨id, settled cutoff short lines, line, after, split, rfl, named, fun seen => ?_⟩
      rw [not_held_of_settled seen] at held
      cases held
  · intro position r stands unpassed
    obtain ⟨start, starts, first⟩ := stands.starts
    by_contra earlier
    obtain ⟨g, member, same⟩ := whole r.id start starts (by omega)
    have inside : g.first ∈ members Record.id r.id (records lines) := by
      rw [← same]
      exact List.mem_cons_self
    exact unpassed g member (mem_members.mp inside).2
  · intro g member
    obtain ⟨same, begins⟩ := passes_first g member
    obtain ⟨more, longer⟩ := part
    obtain ⟨start, starts⟩ := Starts.of_key base begins
    have starts := longer ▸ starts.append more
    exact ⟨same, start, starts, (starts.lt_iff ⟨more, longer⟩).mpr begins⟩
  · intro g member recent
    obtain ⟨same, begins⟩ := passes_first g member
    have free := not_held_of_settled begins
    have open_head : g.records.head?.any (fun r => decide (r.time > cutoff)) = true := by simpa [Group.records] using recent
    rw [isHeld, ← same, open_head] at free
    simpa using free

/-- One read: the lines it takes, where it stops, what it passes on and the next checkpoint. -/
def ReadRewinds (cp : Checkpoint) (file : LogFile) (dir : LogDir) (now : Int) (next : Checkpoint)
    (passed : List Group) : Prop :=
  ∃ safe groups,
    readLoop maxLines (checkTruncated cp file).offset (checkTruncated cp file).offset []
      (completeLines (file.content.drop (checkTruncated cp file).offset)) =
        .ok ((checkTruncated cp file).offset + (windowAt file (checkTruncated cp file).offset).flatten.length, groups) ∧
    Rewound (checkTruncated cp file).offset (windowAt file (checkTruncated cp file).offset) (now - 3000) safe passed ∧
    next = if file.inode ≠ dir.current.inode ∧ file.size ≤ safe
      then { checkTruncated cp file with inode := dir.current.inode, offset := 0 }
      else { checkTruncated cp file with offset := safe }

theorem readFile_rewinds {cp next : Checkpoint} {file : LogFile} {dir : LogDir} {now : Int} {passed : List Group}
    (read : readFile cp file dir now = .ok (next, passed)) : ReadRewinds cp file dir now next passed := by
  have inside := (checkTruncated_inside cp file).1
  rw [readFile_checked] at read
  rw [ReadRewinds]
  generalize checkTruncated cp file = cp at read inside ⊢
  rcases readFile_settles cp file dir now inside with ⟨problem, failed, -⟩ | ⟨next', passed', got, rows, shape⟩
  · cases failed.symm.trans read
  · obtain ⟨rfl, rfl⟩ := Prod.mk.inj (Except.ok.inj (got.symm.trans read))
    rcases readLoop_window maxLines cp.offset [] [] (completeLines (file.content.drop cp.offset)) (Grouped.nil _) with
      ⟨problem, failed, -⟩ | ⟨groups, -, loop⟩
    · simp only [List.flatten_nil, List.length_nil, Nat.add_zero] at failed
      simp only [readFile, checkTruncated_kept inside, failed] at read
      cases read
    · simp only [List.flatten_nil, List.length_nil, Nat.add_zero, List.nil_append] at loop
      exact ⟨_, groups, loop, rewound_settled rows, shape⟩

/-- A call that succeeds commits, with the checkpoint of its read, the events of
the groups the read passes on. -/
def CallRewinds (c : Collector) (s : Spool) (dir : LogDir) (now : Int) (after : Spool) : Prop :=
  ∃ cp file next passed, locate (attach c s.cp dir).1 dir = (cp, file) ∧ ReadRewinds cp file dir now next passed ∧
    after = (if (attach c s.cp dir).2 then s.commit (attach c s.cp dir).1 [] true else s).commit next
      (passed.flatMap fun g => eventsFor g.records c.boot c.lookup) true

/-- A call that fails has committed no events, at most the attached checkpoint. -/
theorem collect_rewinds (c : Collector) (s : Spool) (dir : LogDir) (now : Int) (attached stored : Bool) :
    (s.collect c dir now attached stored).2 = none ∧
        CallRewinds c s dir now (s.collect c dir now attached stored).1 ∨
      (s.collect c dir now attached stored).2 ≠ none ∧ ((s.collect c dir now attached stored).1 = s ∨
        (s.collect c dir now attached stored).1 = s.commit (attach c s.cp dir).1 [] true) := by
  rcases collect_outcome s c dir now attached stored with
    ⟨failed, same | ⟨-, same⟩⟩ | ⟨succeeded, -, -, next, passed, got, same⟩
  · exact Or.inr ⟨failed, Or.inl same⟩
  · exact Or.inr ⟨failed, Or.inr same⟩
  · exact Or.inl ⟨succeeded, _, _, next, passed, rfl, readFile_rewinds got, same⟩

/-- The agent is attached to file number `index` of all, at an offset. -/
def onFile (c : Collector) (index offset : Nat) (w : World) : Prop :=
  w.spool.cp.inode ≠ "" ∧ w.spool.cp.boot = c.boot ∧ w.spool.cp.offset = offset ∧
    ∃ file, w.files[index]? = some file ∧ offset ≤ file.size

/-- A call reads the file with this number from its checkpoint on and leaves the
checkpoint on it. -/
def StaysOn (c : Collector) (index : Nat) (t : Transition World LogAction) : Prop :=
  ∀ now attached stored, t.action = .collect now attached stored →
    (∃ file, t.before.files[index]? = some file ∧ t.before.located c = (t.before.spool.cp, file)) ∧
      t.after.spool.cp.inode = t.before.spool.cp.inode

/-- A stored call moved the checkpoint over this record, passed its group on to
`eventsFor`, with the record, and committed the events. -/
def PassedOver (c : Collector) (history : List (Transition World LogAction)) (position : Nat) (r : Record) : Prop :=
  ∃ t ∈ history, ∃ next passed, PassesOn c t next passed ∧
    t.before.spool.cp.offset ≤ position ∧ position < t.after.spool.cp.offset ∧ ∃ g ∈ passed, r ∈ g.records

variable {c : Collector}

theorem PassedOver.older {history : List (Transition World LogAction)} {position : Nat} {r : Record}
    (passed : PassedOver c history position r) (t : Transition World LogAction) : PassedOver c (t :: history) position r := by
  obtain ⟨first, member, rest⟩ := passed
  exact ⟨first, List.mem_cons_of_mem _ member, rest⟩

/-- The checkpoint lies behind whole lines of the file, and every record among
them has been passed on. -/
structure Covered (c : Collector) (index offset : Nat) (history : List (Transition World LogAction)) (w : World) : Prop where
  named : w.spool.cp.inode ≠ ""
  boot : w.spool.cp.boot = c.boot
  file : ∃ file done, w.files[index]? = some file ∧ offset ≤ file.size ∧ w.spool.cp.offset ≤ file.size ∧
    done <+: completeLines (file.content.drop offset) ∧ w.spool.cp.offset = offset + done.flatten.length ∧
    ∀ position r, RecordAt offset done position r → PassedOver c history position r

theorem Covered.quiet {index offset : Nat} {history : List (Transition World LogAction)} {w after : World}
    (covered : Covered c index offset history w) (action : LogAction) (same : after.spool.cp = w.spool.cp)
    (files : ∀ file, w.files[index]? = some file →
      ∃ file', after.files[index]? = some file' ∧ file.content <+: file'.content) :
    Covered c index offset (⟨w, action, after⟩ :: history) after := by
  obtain ⟨named, boot, file, done, found, before, inside, part, place, passed⟩ := covered
  obtain ⟨file', found', grows⟩ := files file found
  have longer : file.size ≤ file'.size := grows.length_le
  refine ⟨same ▸ named, same ▸ boot, file', done, found', by omega, by rw [same]; omega, ?_, same ▸ place, ?_⟩
  · obtain ⟨more, grown⟩ := grows
    rw [← grown, List.drop_append_of_le_length before]
    exact part.trans (completeLines_isPrefix (List.prefix_append _ _))
  · exact fun position r stands => (passed position r stands).older _

/-- A call that stays on the file moves its checkpoint over settled lines. -/
theorem Covered.collect {index offset : Nat} {history : List (Transition World LogAction)} {w : World} {now : Int}
    {attached stored : Bool} (covered : Covered c index offset history w)
    (stays : StaysOn c index ⟨w, .collect now attached stored, w.collect c now attached stored⟩) :
    Covered c index offset (⟨w, .collect now attached stored, w.collect c now attached stored⟩ :: history)
      (w.collect c now attached stored) := by
  have start : w.start c = w.spool.cp := start_attached covered.named covered.boot
  have kept : (w.collect c now attached stored).spool.cp = w.spool.cp →
      Covered c index offset (⟨w, .collect now attached stored, w.collect c now attached stored⟩ :: history)
        (w.collect c now attached stored) :=
    fun same => covered.quiet _ same fun file found => ⟨file, found, List.prefix_refl _⟩
  obtain ⟨⟨file, found, located⟩, inode⟩ := stays now attached stored rfl
  dsimp only at found located inode
  rcases collect_cp c w now attached stored with same | same | ⟨rfl, began, next, passed, lost, got, moved⟩
  · exact kept same
  · exact kept (same.trans start)
  · obtain ⟨named, boot, file', done, found', before, inside, part, place, passed_over⟩ := covered
    obtain rfl := Option.some.inj (found'.symm.trans found)
    have reads : readFile w.spool.cp file' w.dir now = .ok (next, passed) := by
      rw [← got, read, show locate (w.start c) w.dir = _ from located]
    rcases readFile_settles w.spool.cp file' w.dir now inside with ⟨problem, failed, -⟩ | ⟨next', passed', got', rows, shape⟩
    · cases failed.symm.trans reads
    · obtain ⟨rfl, rfl⟩ := Prod.mk.inj (Except.ok.inj (got'.symm.trans reads))
      have unswitched : ¬(file'.inode ≠ w.dir.current.inode ∧
          file'.size ≤ w.spool.cp.offset + (settledAt file' w.spool.cp.offset now).flatten.length) := by
        rintro ⟨other, ended⟩
        rw [moved, shape, if_pos ⟨other, ended⟩] at inode
        rw [World.located, start] at located
        have same := locate_inode w.spool.cp w.dir
        rw [located] at same
        exact other (same.symm.trans inode.symm)
      have cp := moved.trans (by rw [shape, if_neg unswitched])
      have rewound : Rewound w.spool.cp.offset (windowAt file' w.spool.cp.offset) (now - 3000) _ _ := rewound_settled rows
      have lines : completeLines (file'.content.drop offset) =
          done ++ completeLines (file'.content.drop w.spool.cp.offset) := by
        obtain ⟨rest, whole⟩ := part
        have dropped := completeLines_drop (file'.content.drop offset) done.length
        rw [← whole, List.take_left, List.drop_left, List.drop_drop, ← place] at dropped
        rw [dropped, whole]
      have settles := (settledAt_isPrefix file' w.spool.cp.offset now).trans (windowAt_isPrefix file' w.spool.cp.offset)
      refine ⟨by rw [cp]; exact named, by rw [cp]; exact boot, file', done ++ settledAt file' w.spool.cp.offset now,
        found, before, ?_, ?_, ?_, ?_⟩
      · rw [cp]
        exact settledAt_inside inside now
      · rw [lines]
        exact (List.prefix_append_right_inj done).mpr settles
      · rw [cp]
        dsimp only
        rw [place, List.flatten_append, List.length_append]
        omega
      · intro position r stands
        rcases stands.split with older | newer
        · exact (passed_over position r older).older _
        · rw [← place] at newer
          obtain ⟨more, window⟩ := settledAt_isPrefix file' w.spool.cp.offset now
          have there : RecordAt w.spool.cp.offset (windowAt file' w.spool.cp.offset) position r := window ▸ newer.append more
          obtain ⟨g, member, inside⟩ := rewound.passes there newer.within.2
          refine ⟨_, List.mem_cons_self, _, _, collect_passesOn began got, newer.within.1, ?_, g, member, inside⟩
          rw [cp]
          exact newer.within.2

theorem covered_of_run {index offset : Nat} {history : List (Transition World LogAction)} {w : World}
    (run : Run (logSystem c (onFile c index offset)) history w) (stays : ∀ t ∈ history, StaysOn c index t) :
    Covered c index offset history w := by
  refine run.induct (fun history w => (∀ t ∈ history, StaysOn c index t) → Covered c index offset history w) ?_ ?_ stays
  · rintro w ⟨named, boot, rfl, file, found, inside⟩ -
    refine ⟨named, boot, file, [], found, inside, inside, List.nil_prefix, by simp, ?_⟩
    rintro position r ⟨before, line, after, empty, -⟩
    simp at empty
  · intro history w action after _ ih moved stays
    have covered := ih fun t member => stays t (List.mem_cons_of_mem _ member)
    have moved : logStep c w action after := moved
    cases action with
    | collect now attached stored =>
      obtain rfl := moved
      exact covered.collect (stays _ List.mem_cons_self)
    | append data =>
      obtain rfl := moved
      refine covered.quiet _ rfl fun file found => ?_
      simp only [World.files, List.getElem?_append] at found ⊢
      split at found
      next older => exact ⟨file, by rw [if_pos older]; exact found, List.prefix_refl _⟩
      next newest =>
        rw [if_neg newest]
        rw [List.getElem?_singleton] at found ⊢
        split at found
        next here =>
          obtain rfl := Option.some.inj found
          exact ⟨_, if_pos here, List.prefix_append _ _⟩
        · cases found
    | rotate inode =>
      obtain ⟨-, -, -, rfl⟩ := moved
      refine covered.quiet _ rfl fun file found => ⟨file, ?_, List.prefix_refl _⟩
      exact (List.getElem?_append_left (List.getElem?_eq_some_iff.mp found).1).trans found
    | expire =>
      obtain ⟨-, rfl⟩ := moved
      exact covered.quiet _ rfl fun file found => ⟨file, found, List.prefix_refl _⟩

/-- One call rewinds the checkpoint to the end of what it has read or to the start
of a group, and passes on exactly the groups that begin before it: their events are
what it commits. Over the calls of a run on one file every record before the
checkpoint has been passed on, and no call passes on a recent group without an end
record. -/
theorem rewind_point_safe (c : Collector) :
    (∀ (cp next : Checkpoint) (file : LogFile) (dir : LogDir) (now : Int) (passed : List Group),
      readFile cp file dir now = .ok (next, passed) → ReadRewinds cp file dir now next passed) ∧
    (∀ (s : Spool) (dir : LogDir) (now : Int) (attached stored : Bool),
      (s.collect c dir now attached stored).2 = none ∧
          CallRewinds c s dir now (s.collect c dir now attached stored).1 ∨
        (s.collect c dir now attached stored).2 ≠ none ∧ ((s.collect c dir now attached stored).1 = s ∨
          (s.collect c dir now attached stored).1 = s.commit (attach c s.cp dir).1 [] true)) ∧
    ∀ (index offset : Nat) (history : List (Transition World LogAction)) (w : World),
      Run (logSystem c (onFile c index offset)) history w →
      ((∀ t ∈ history, StaysOn c index t) → ∃ file, w.files[index]? = some file ∧
        ∀ position r, RecordAt offset (completeLines (file.content.drop offset)) position r →
          position < w.spool.cp.offset → PassedOver c history position r) ∧
      ∀ t ∈ history, ∀ now attached stored next passed, t.action = .collect now attached stored →
        read (t.before.start c) t.before.dir now = .ok (next, passed) →
        ∀ g ∈ passed, g.first.time > now - 3000 → g.records.any isEnd = true := by
  refine ⟨fun _ _ _ _ _ _ => readFile_rewinds, collect_rewinds c, fun index offset history w run => ⟨fun stays => ?_, ?_⟩⟩
  · obtain ⟨-, -, file, done, found, -, -, part, place, passed⟩ := covered_of_run run stays
    refine ⟨file, found, fun position r stands earlier => ?_⟩
    obtain ⟨rest, whole⟩ := part
    rw [← whole] at stands
    rcases stands.split with settled | later
    · exact passed position r settled
    · have behind := later.within.1
      omega
  · rintro t - now attached stored next passed - got g member recent
    obtain ⟨safe, groups, -, rewound, -⟩ := readFile_rewinds got
    exact rewound.finished g member recent

/-- One line is written and read. -/
def loginRead : World := (writeLog rotationStart loginLine).collect rotationAgent 1000000 true true

def readHistory : List (Transition World LogAction) :=
  [⟨writeLog rotationStart loginLine, .collect 1000000 true true, loginRead⟩,
    ⟨rotationStart, .append loginLine, writeLog rotationStart loginLine⟩]

theorem rewind_point_safe_login : ∃ r, RecordAt 0 (completeLines loginLine) 0 r ∧ loginRead.spool.cp.offset = loginLine.length ∧
    PassedOver rotationAgent readHistory 0 r := by
  have run : Run (logSystem rotationAgent (onFile rotationAgent 0 0)) readHistory loginRead := by
    refine .next (.next (.start ⟨by decide, rfl, rfl, _, rfl, Nat.le_refl _⟩) rfl) rfl
  obtain ⟨r, parsed⟩ : ∃ r, parseRecord loginLine = some r := ⟨_, rfl⟩
  have stands : RecordAt 0 (completeLines loginLine) 0 r := ⟨[], loginLine, [], rfl, rfl, parsed⟩
  have moved : loginRead.spool.cp.offset = loginLine.length := by decide +kernel
  refine ⟨r, stands, moved, ?_⟩
  have stays : ∀ t ∈ readHistory, StaysOn rotationAgent 0 t := by
    intro t member
    simp only [readHistory, List.mem_cons, List.not_mem_nil, or_false] at member
    rcases member with rfl | rfl
    · rintro now attached stored ⟨⟩
      exact ⟨⟨_, rfl, rfl⟩, by decide +kernel⟩
    · rintro now attached stored ⟨⟩
  obtain ⟨file, found, passed⟩ := ((rewind_point_safe rotationAgent).2.2 0 0 readHistory loginRead run).1 stays
  obtain rfl := Option.some.inj found
  refine passed 0 r stands ?_
  rw [moved]
  decide +kernel

end SshLogger
