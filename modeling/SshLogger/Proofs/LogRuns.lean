import SshLogger.Proofs.Reading
import SshLogger.Library.History

/-! Runs of a growing and rotating audit log and the agent that reads it. A
position is the number of a file, counted over all files there ever were, and
an offset in it; what lies after a position only grows. -/

namespace SshLogger
open Library Library.Lines Library.Grouping Library.History

/-- `past` holds the rotated files, oldest first; the first `gone` of them have
been deleted since. -/
structure World where
  past : List LogFile
  gone : Nat
  current : LogFile
  spool : Spool
  deriving DecidableEq, Repr

inductive LogAction
  | append (data : Bytes)
  | rotate (inode : String)
  | expire
  | collect (now : Int) (attached stored : Bool)
  deriving DecidableEq, Repr

def World.dir (w : World) : LogDir := ⟨w.current, w.past.drop w.gone⟩

def World.collect (c : Collector) (w : World) (now : Int) (attached stored : Bool) : World :=
  { w with spool := (w.spool.collect c w.dir now attached stored).1 }

/-- A new file's inode differs from those of the files that still exist. -/
def logStep (c : Collector) (w : World) (action : LogAction) (after : World) : Prop :=
  match action with
  | .append data => after = { w with current := { w.current with content := w.current.content ++ data } }
  | .rotate inode => inode ≠ "" ∧ inode ≠ w.current.inode ∧ (∀ file ∈ w.dir.rotated, file.inode ≠ inode) ∧
      after = { w with past := w.past ++ [w.current], current := ⟨inode, []⟩ }
  | .expire => w.gone < w.past.length ∧ after = { w with gone := w.gone + 1 }
  | .collect now attached stored => after = w.collect c now attached stored

def logSystem (c : Collector) (init : World → Prop) : System World LogAction := ⟨init, logStep c⟩

namespace World

def files (w : World) : List LogFile := w.past ++ [w.current]

/-- The checkpoint a call of `collect` starts from. -/
def start (c : Collector) (w : World) : Checkpoint := (attach c w.spool.cp w.dir).1

/-- The checkpoint and the file after the rotated files have been searched. -/
def located (c : Collector) (w : World) : Checkpoint × LogFile := locate (w.start c) w.dir

end World

def recordsFrom (file : LogFile) (offset : Nat) : List Record :=
  records (completeLines (file.content.drop offset))

def later (files : List LogFile) (index offset : Nat) : List Record :=
  match files.drop index with
  | [] => []
  | file :: rest => recordsFrom file offset ++ rest.flatMap (recordsFrom · 0)

/-- The number of the newest file with the given inode. -/
def place (inode : String) : List LogFile → Nat
  | [] => 0
  | file :: rest => if file.inode = inode ∧ ∀ other ∈ rest, other.inode ≠ inode then 0 else place inode rest + 1

theorem place_split {inode : String} {before after : List LogFile} {file : LogFile}
    (named : file.inode = inode) (newest : ∀ other ∈ after, other.inode ≠ inode) :
    place inode (before ++ file :: after) = before.length := by
  induction before with
  | nil => simpa [place, named] using newest
  | cons first before ih =>
    have older : ¬(first.inode = inode ∧ ∀ other ∈ before ++ file :: after, other.inode ≠ inode) :=
      fun both => both.2 file (by simp) named
    simp only [List.cons_append, place, if_neg older, ih, List.length_cons]

theorem later_split {before after : List LogFile} {file : LogFile} (offset : Nat) :
    later (before ++ file :: after) before.length offset =
      recordsFrom file offset ++ after.flatMap (recordsFrom · 0) := by
  simp [later]

theorem later_next {before after : List LogFile} {file : LogFile} (offset : Nat) :
    later (before ++ file :: after) before.length offset =
      recordsFrom file offset ++ later (before ++ file :: after) (before.length + 1) 0 := by
  have rest : (before ++ file :: after).drop (before.length + 1) = after := by simp
  rw [later_split, later, rest]
  cases after with
  | nil => rfl
  | cons next others => rw [List.flatMap_cons]

theorem completeLines_isPrefix {text longer : Bytes} (part : text <+: longer) :
    completeLines text <+: completeLines longer := by
  obtain ⟨more, rfl⟩ := part
  exact ⟨_, (completeLines_append text more).symm⟩

theorem recordsFrom_lines {file : LogFile} {offset : Nat} {lines : List Bytes}
    (part : lines <+: completeLines (file.content.drop offset)) :
    recordsFrom file offset = records lines ++ recordsFrom file (offset + lines.flatten.length) := by
  have rest := completeLines_drop (file.content.drop offset) lines.length
  obtain ⟨others, split⟩ := part
  simp only [List.drop_drop] at rest
  simp only [recordsFrom]
  rw [← split] at rest ⊢
  rw [List.take_left] at rest
  rw [rest, List.drop_left, records_append]

/-- The file of `older` that grows, and the files that come after it. -/
def Grows (older newer : List LogFile) : Prop :=
  ∃ front file data more, older = front ++ [file] ∧
    newer = front ++ { file with content := file.content ++ data } :: more

theorem Grows.refl {files : List LogFile} (some : files ≠ []) : Grows files files :=
  ⟨files.dropLast, files.getLast some, [], [], (List.dropLast_append_getLast some).symm, by
    simp only [List.append_nil]
    exact (List.dropLast_append_getLast some).symm⟩

theorem Grows.trans {first second third : List LogFile} (one : Grows first second) (two : Grows second third) :
    Grows first third := by
  obtain ⟨front, file, data, more, rfl, rfl⟩ := one
  obtain ⟨front', file', data', more', same, rfl⟩ := two
  rcases List.eq_nil_or_concat more with rfl | ⟨more, last, rfl⟩
  · obtain ⟨rfl, alike⟩ := List.append_inj' same rfl
    obtain rfl := (List.cons.inj alike).1
    exact ⟨front, file, data ++ data', more', rfl, by simp⟩
  · simp only [List.concat_eq_append, ← List.cons_append, ← List.append_assoc] at same
    obtain ⟨rfl, alike⟩ := List.append_inj' same rfl
    exact ⟨front, file, data, more ++ { file' with content := file'.content ++ data' } :: more', rfl, by simp⟩

theorem Grows.file {before after newer : List LogFile} {file : LogFile}
    (grows : Grows (before ++ file :: after) newer) :
    ∃ data after', newer = before ++ { file with content := file.content ++ data } :: after' := by
  obtain ⟨front, last, data, more, same, rfl⟩ := grows
  rcases List.eq_nil_or_concat after with rfl | ⟨after, end', rfl⟩
  · obtain ⟨rfl, alike⟩ := List.append_inj' same rfl
    obtain rfl := (List.cons.inj alike).1
    exact ⟨data, more, rfl⟩
  · simp only [List.concat_eq_append, ← List.cons_append, ← List.append_assoc] at same
    obtain ⟨rfl, _⟩ := List.append_inj' same rfl
    exact ⟨[], after ++ { last with content := last.content ++ data } :: more, by simp⟩

theorem Grows.past {past newer : List LogFile} {current : LogFile} (grows : Grows (past ++ [current]) newer) :
    ∃ data more, newer = past ++ { current with content := current.content ++ data } :: more := by
  obtain ⟨front, last, data, more, same, rfl⟩ := grows
  obtain ⟨rfl, alike⟩ := List.append_inj' same rfl
  obtain rfl := (List.cons.inj alike).1
  exact ⟨data, more, rfl⟩

/-- The lines read at some time come first among all records after the position. -/
theorem Grows.later_lines {before after newer : List LogFile} {file : LogFile}
    (grows : Grows (before ++ file :: after) newer) {offset : Nat} (inside : offset ≤ file.size) {lines : List Bytes}
    (part : lines <+: completeLines (file.content.drop offset)) :
    later newer before.length offset = records lines ++ later newer before.length (offset + lines.flatten.length) := by
  obtain ⟨data, after', rfl⟩ := grows.file
  have longer : lines <+: completeLines ((file.content ++ data).drop offset) := by
    rw [List.drop_append_of_le_length inside]
    exact part.trans (completeLines_isPrefix (List.prefix_append _ _))
  rw [later_split, later_split, ← List.append_assoc]
  exact congrArg (· ++ _) (@recordsFrom_lines { file with content := file.content ++ data } _ _ longer)

/-- Behind the records of the rotated files come those of the current one. -/
theorem Grows.later_past {past newer : List LogFile} {current : LogFile} (grows : Grows (past ++ [current]) newer)
    {index : Nat} (rotated : index < past.length) (offset : Nat) :
    later newer index offset = later past index offset ++ later newer past.length 0 := by
  obtain ⟨data, more, rfl⟩ := grows.past
  obtain ⟨before, file, after, rfl, rfl⟩ : ∃ before file after, past = before ++ file :: after ∧ index = before.length :=
    ⟨past.take index, past[index], past.drop (index + 1), by simp, by simp; omega⟩
  rw [later_split, later_split]
  simp only [List.append_assoc, List.cons_append, later_split, List.flatMap_append, List.flatMap_cons]

theorem recordsFrom_end {file : LogFile} {offset : Nat} (ended : file.size ≤ offset) : recordsFrom file offset = [] := by
  have nothing : file.content.drop offset = [] := List.drop_eq_nil_of_le ended
  simp [recordsFrom, nothing, completeLines, records]

theorem locate_inode (cp : Checkpoint) (dir : LogDir) : (locate cp dir).1.inode = (locate cp dir).2.inode := by
  simp only [locate]
  split
  next same => exact by simpa using same
  · split
    next file found => exact (by simpa using List.find?_some found : file.inode = cp.inode).symm
    · rfl

theorem attach_boot (c : Collector) (cp : Checkpoint) (dir : LogDir) : (attach c cp dir).1.boot = c.boot := by
  simp only [attach]
  split
  · rfl
  next attached =>
    simp only [Bool.or_eq_true, beq_iff_eq, bne_iff_ne, not_or, not_not] at attached
    exact attached.2

theorem attach_inode {c : Collector} {cp : Checkpoint} {dir : LogDir} (named : dir.current.inode ≠ "") :
    (attach c cp dir).1.inode ≠ "" := by
  simp only [attach]
  split
  · exact named
  next attached =>
    simp only [Bool.or_eq_true, beq_iff_eq, not_or] at attached
    exact attached.1

theorem attach_attached {c : Collector} {cp : Checkpoint} {dir : LogDir} (named : cp.inode ≠ "")
    (boot : cp.boot = c.boot) : attach c cp dir = (cp, false) := by
  simp [attach, named, boot]

theorem start_attached {c : Collector} {w : World} (named : w.spool.cp.inode ≠ "") (boot : w.spool.cp.boot = c.boot) :
    w.start c = w.spool.cp := by
  rw [World.start, attach_attached named boot]

theorem commit_nothing (s : Spool) (cp : Checkpoint) : (s.commit cp [] true).cp = cp := rfl

theorem commit_cp (s : Spool) (cp : Checkpoint) (events : List Event) :
    ∃ lost, (s.commit cp events true).cp = { cp with dropped := cp.dropped + lost } := by
  obtain ⟨lost, more⟩ := Nat.exists_eq_add_of_le
    (offerAll_dropped_le s.limit ⟨s.db.queue, queuedSize s.db.queue, cp.dropped⟩ events)
  exact ⟨lost, by simp only [Spool.commit, Bool.not_true, Bool.false_eq_true, if_false]; rw [more]⟩

theorem collect_commits {s : Spool} {c : Collector} {dir : LogDir} {now : Int} {next : Checkpoint}
    {passed : List Group} (attached : Bool) (began : ((attach c s.cp dir).2 && !attached) = false)
    (got : read (attach c s.cp dir).1 dir now = .ok (next, passed)) :
    (s.collect c dir now attached true).1 = (if (attach c s.cp dir).2 then s.commit (attach c s.cp dir).1 [] true
      else s).commit next (groupEvents c passed) true := by
  cases fresh : (attach c s.cp dir).2 with
  | false => simp [Spool.collect, fresh, got]
  | true =>
    obtain rfl : attached = true := by simpa [fresh] using began
    simp [Spool.collect, fresh, got]

/-- A call fails, and has committed at most the attached checkpoint, or it commits
what its read passes on. -/
theorem collect_outcome (s : Spool) (c : Collector) (dir : LogDir) (now : Int) (attached stored : Bool) :
    ((s.collect c dir now attached stored).2 ≠ none ∧ ((s.collect c dir now attached stored).1 = s ∨
      (attach c s.cp dir).2 = true ∧ (s.collect c dir now attached stored).1 = s.commit (attach c s.cp dir).1 [] true)) ∨
    ((s.collect c dir now attached stored).2 = none ∧ stored = true ∧ ((attach c s.cp dir).2 && !attached) = false ∧
      ∃ next passed, read (attach c s.cp dir).1 dir now = .ok (next, passed) ∧
        (s.collect c dir now attached stored).1 = (if (attach c s.cp dir).2 then s.commit (attach c s.cp dir).1 [] true
          else s).commit next (groupEvents c passed) true) := by
  cases fresh : (attach c s.cp dir).2 <;> cases attached
  case true.false => exact Or.inl (by simp [Spool.collect, fresh, Spool.commit])
  all_goals
    cases got : read (attach c s.cp dir).1 dir now with
    | error problem => exact Or.inl (by simp [Spool.collect, fresh, got])
    | ok result =>
      cases stored with
      | false => exact Or.inl (by simp [Spool.collect, fresh, got, Spool.commit])
      | true =>
        refine Or.inr ⟨?_, rfl, rfl, result.1, result.2, rfl, ?_⟩
        · simp [Spool.collect, fresh, got]
        · simp [Spool.collect, fresh, got]

/-- The checkpoint in memory after a call: the old one, the attached one, or the
one the read computed, with the losses of its commit. -/
theorem collect_cp (c : Collector) (w : World) (now : Int) (attached stored : Bool) :
    (w.collect c now attached stored).spool.cp = w.spool.cp ∨
    (w.collect c now attached stored).spool.cp = w.start c ∨
    (stored = true ∧ ((attach c w.spool.cp w.dir).2 && !attached) = false ∧
      ∃ next passed lost, read (w.start c) w.dir now = .ok (next, passed) ∧
        (w.collect c now attached stored).spool.cp = { next with dropped := next.dropped + lost }) := by
  simp only [World.collect, World.start]
  rcases collect_outcome w.spool c w.dir now attached stored with
    ⟨-, same | ⟨-, same⟩⟩ | ⟨-, written, began, next, passed, got, same⟩
  · exact Or.inl (congrArg Spool.cp same)
  · exact Or.inr (Or.inl (congrArg Spool.cp same))
  · obtain ⟨lost, cp⟩ := commit_cp _ next (groupEvents c passed)
    exact Or.inr (Or.inr ⟨written, began, next, passed, lost, got, (congrArg Spool.cp same).trans cp⟩)

/-- A stored call reads these groups and commits the events `eventsFor` finds in
each of them, together with the next checkpoint. -/
def PassesOn (c : Collector) (t : Transition World LogAction) (next : Checkpoint) (passed : List Group) : Prop :=
  ∃ now attached, t.action = .collect now attached true ∧
    read (t.before.start c) t.before.dir now = .ok (next, passed) ∧
    ∃ s : Spool, (s = t.before.spool ∨ s = t.before.spool.commit (t.before.start c) [] true) ∧
      t.after.spool = s.commit next (passed.flatMap fun g => eventsFor g.records c.boot c.lookup) true

theorem collect_passesOn {c : Collector} {w : World} {now : Int} {attached : Bool} {next : Checkpoint}
    {passed : List Group} (began : ((attach c w.spool.cp w.dir).2 && !attached) = false)
    (got : read (w.start c) w.dir now = .ok (next, passed)) :
    PassesOn c ⟨w, .collect now attached true, w.collect c now attached true⟩ next passed := by
  refine ⟨now, attached, rfl, got, _, ?_, collect_commits _ began got⟩
  split
  · exact Or.inr rfl
  · exact Or.inl rfl

/-- A call that stores nothing starts the next one from the same checkpoint. -/
theorem start_kept {c : Collector} {w : World} (named : w.current.inode ≠ "") {now : Int} {attached stored : Bool}
    (kept : (w.collect c now attached stored).spool.cp = w.spool.cp ∨
      (w.collect c now attached stored).spool.cp = w.start c) :
    (w.collect c now attached stored).start c = w.start c := by
  have dir : (w.collect c now attached stored).dir = w.dir := rfl
  rcases kept with same | same
  · rw [World.start, same, dir, World.start]
  · have unmoved := @attach_attached _ _ w.dir (attach_inode named)
      (attach_boot c w.spool.cp w.dir)
    rw [World.start, same, dir, World.start, unmoved]

end SshLogger
