import SshLogger.Proofs.LogRuns
import SshLogger.Proofs.Records

/-! Incremental collection of an append-only log against one pass over the
whole file. The two agree as long as no call tears a command apart: a group is
passed on once its first line is settled, whether or not all its lines have been
read, and its later lines are read again as a group of their own. -/

namespace SshLogger
open Library Library.Lines Library.Grouping Library.History

/-- Nothing has been read of the log, and reading will begin at its first line. -/
def freshLog (c : Collector) (w : World) : Prop :=
  w.past = [] ∧ w.current.inode ≠ "" ∧
    ((w.spool.cp.inode = "" ∧ c.fromStart = true) ∨
      (w.spool.cp.inode = w.current.inode ∧ w.spool.cp.boot = c.boot ∧ w.spool.cp.offset = 0))

def AppendOnly (history : List (Transition World LogAction)) : Prop :=
  ∀ t ∈ history, ∀ inode, t.action ≠ .rotate inode

/-- The events a call offers to its last commit. -/
def offeredBy (c : Collector) (w : World) : LogAction → List Event
  | .collect now attached _ =>
    if (attach c w.spool.cp w.dir).2 && !attached then [] else offered c w.spool.cp w.dir now
  | _ => []

def Offered (c : Collector) (history : List (Transition World LogAction)) (ev : Event) : Prop :=
  ∃ t ∈ history, ev ∈ offeredBy c t.before t.action

/-- Grouping the whole file by audit id once. -/
def oneShot (c : Collector) (file : LogFile) : List Event :=
  (groups Record.id (recordsFrom file 0)).flatMap fun rows => eventsFor rows c.boot c.lookup

/-- A call tears a command apart: it passes on a group with a system call and its
arguments although some of them lie beyond the window, or it leaves both kinds
to be read again. `final` is the file as it is in the end. -/
def Torn (c : Collector) (final : LogFile) (before : World) (now : Int) : Prop :=
  let offset := (before.start c).offset
  let window := windowAt before.current offset
  let settled := settledAt before.current offset now
  ∃ id ∈ keys Record.id (records settled),
    hasExec (members Record.id id (recordsFrom final offset)) = true ∧
    ((members Record.id id (recordsFrom final (offset + window.flatten.length))).any isExecRecord = true ∨
      hasExec (members Record.id id (recordsFrom final (offset + settled.flatten.length))) = true)

def AtEnd (c : Collector) (w : World) : Prop := completeLines (w.current.content.drop (w.start c).offset) = []

theorem alike_members (id : Bytes) (file : LogFile) (offset : Nat) : Alike (members Record.id id (recordsFrom file offset)) := by
  intro a first b second
  obtain ⟨⟨there, rfl⟩, ⟨also, same⟩⟩ := mem_members.mp first, mem_members.mp second
  obtain ⟨_, _, parsed⟩ := List.mem_filterMap.mp there
  obtain ⟨_, _, parsed'⟩ := List.mem_filterMap.mp also
  exact ⟨same.symm, by rw [parseRecord_time parsed, parseRecord_time parsed', same]⟩

theorem Alike.sublist {rows others : List Record} (alike : Alike others) (part : ∀ r ∈ rows, r ∈ others) : Alike rows :=
  fun a first b second => alike a (part a first) b (part b second)

theorem mem_oneShot {c : Collector} {file : LogFile} {ev : Event} :
    ev ∈ oneShot c file ↔
      (∃ r ∈ recordsFrom file 0, sshEvent r c.boot c.lookup r = some ev) ∨
      ∃ r ∈ recordsFrom file 0, execEvent r c.boot c.lookup (members Record.id r.id (recordsFrom file 0)) = some ev := by
  simp only [oneShot, List.mem_flatMap, mem_groups]
  constructor
  · rintro ⟨_, ⟨id, _, rfl⟩, made⟩
    rcases (mem_eventsFor (alike_members id file 0)).mp made with ⟨r, member, made⟩ | ⟨r, member, made⟩
    · exact Or.inl ⟨r, (mem_members.mp member).1, made⟩
    · obtain ⟨inside, rfl⟩ := mem_members.mp member
      exact Or.inr ⟨r, inside, made⟩
  · intro made
    obtain ⟨r, inside, made⟩ : ∃ r ∈ recordsFrom file 0,
        ev ∈ eventsFor (members Record.id r.id (recordsFrom file 0)) c.boot c.lookup := by
      rcases made with ⟨r, inside, made⟩ | ⟨r, inside, made⟩
      · exact ⟨r, inside, (mem_eventsFor (alike_members r.id file 0)).mpr (Or.inl ⟨r, by simp [inside], made⟩)⟩
      · exact ⟨r, inside, (mem_eventsFor (alike_members r.id file 0)).mpr (Or.inr ⟨r, by simp [inside], made⟩)⟩
    exact ⟨_, ⟨r.id, mem_keys.mpr ⟨r, inside, rfl⟩, rfl⟩, made⟩

theorem hasExec_mono {rows others : List Record} (part : ∀ r ∈ rows, r ∈ others) (both : hasExec rows = true) :
    hasExec others = true := by
  simp only [hasExec, Bool.and_eq_true, List.any_eq_true] at both ⊢
  obtain ⟨⟨call, inside, isCall⟩, ⟨arguments, within, areArguments⟩⟩ := both
  exact ⟨⟨call, part call inside, isCall⟩, ⟨arguments, part arguments within, areArguments⟩⟩

/-- The records of a call: those settled, those left for the next call and those unread. -/
def Keeps (id : Bytes) (settled left unread : List Record) : Prop :=
  hasExec (members Record.id id (settled ++ left ++ unread)) = true →
    (members Record.id id unread).any isExecRecord = false ∧ hasExec (members Record.id id (left ++ unread)) = false

/-- What has been offered once the records `done` are settled. -/
structure Collected (c : Collector) (all : List Record) (given : Event → Prop) (done rest : List Record) : Prop where
  split : all = done ++ rest
  ssh : ∀ r ∈ done, ∀ ev, sshEvent r c.boot c.lookup r = some ev → given ev
  command : ∀ r ∈ done, ∀ ev, execEvent r c.boot c.lookup (members Record.id r.id all) = some ev → given ev
  spent : ∀ r ∈ done, hasExec (members Record.id r.id rest) = false

variable {c : Collector}

section
variable {all done settled left unread : List Record}

private theorem whole_command {id : Bytes} (split : all = done ++ (settled ++ left ++ unread))
    (fresh : id ∉ keys Record.id done) (keeps : Keeps id settled left unread)
    (both : hasExec (members Record.id id (settled ++ left ++ unread)) = true) :
    (members Record.id id all).filter isExecRecord =
      (members Record.id id (settled ++ left)).filter isExecRecord := by
  have nothing : (members Record.id id unread).filter isExecRecord = [] := by
    simpa [List.filter_eq_nil_iff] using (keeps both).1
  rw [split, members_append, members_eq_nil fresh, List.nil_append, members_append, List.filter_append, nothing,
    List.append_nil]

/-- What a call passes on belongs to the one pass over the whole log. -/
theorem Collected.sound {given : Event → Prop} (collected : Collected c all given done (settled ++ left ++ unread))
    (times : ∀ r ∈ all, r.time = stampTime r.id) {id : Bytes} (keeps : Keeps id settled left unread) {ev : Event}
    (made : ev ∈ eventsFor (members Record.id id (settled ++ left)) c.boot c.lookup) :
    (∃ r ∈ all, sshEvent r c.boot c.lookup r = some ev) ∨
      ∃ r ∈ all, execEvent r c.boot c.lookup (members Record.id r.id all) = some ev := by
  have inside : ∀ r ∈ members Record.id id (settled ++ left), r ∈ all ∧ r.id = id := by
    intro r member
    obtain ⟨member, same⟩ := mem_members.mp member
    exact ⟨by rw [collected.split]; simp only [List.mem_append] at member ⊢; tauto, same⟩
  have alike : Alike (members Record.id id (settled ++ left)) := by
    intro a first b second
    obtain ⟨⟨here, rfl⟩, ⟨there, same⟩⟩ := inside a first, inside b second
    exact ⟨same.symm, by rw [times a here, times b there, same]⟩
  rcases (mem_eventsFor alike).mp made with ⟨r, member, made⟩ | ⟨r, member, made⟩
  · exact Or.inl ⟨r, (inside r member).1, made⟩
  · obtain ⟨there, rfl⟩ := inside r member
    have both : hasExec (members Record.id r.id (settled ++ left ++ unread)) = true := by
      refine @hasExec_mono (members Record.id r.id (settled ++ left)) _ ?_ ?_
      · intro other inside
        rw [members_append]
        exact List.mem_append_left _ inside
      · by_contra lacking
        rw [execEvent_eq_none (by simpa using lacking)] at made
        cases made
    have fresh : r.id ∉ keys Record.id done := by
      intro seen
      obtain ⟨old, settledBefore, same⟩ := mem_keys.mp seen
      rw [← same, collected.spent old settledBefore] at both
      cases both
    exact Or.inr ⟨r, there, (execEvent_congr rfl rfl (whole_command collected.split fresh keeps both)).trans made⟩

/-- A call that offers the groups of its settled records settles them. -/
theorem Collected.settle {given more : Event → Prop}
    (collected : Collected c all given done (settled ++ left ++ unread))
    (times : ∀ r ∈ all, r.time = stampTime r.id) (keeps : ∀ r ∈ settled, Keeps r.id settled left unread)
    (older : ∀ ev, given ev → more ev)
    (newer : ∀ r ∈ settled, ∀ ev ∈ eventsFor (members Record.id r.id (settled ++ left)) c.boot c.lookup, more ev) :
    Collected c all more (done ++ settled) (left ++ unread) := by
  have alike : ∀ id, Alike (members Record.id id (settled ++ left)) := by
    intro id a first b second
    simp only [mem_members] at first second
    have here : a ∈ all := by rw [collected.split]; simp only [List.mem_append] at first ⊢; tauto
    have there : b ∈ all := by rw [collected.split]; simp only [List.mem_append] at second ⊢; tauto
    exact ⟨first.2.trans second.2.symm, by rw [times a here, times b there, first.2, second.2]⟩
  refine ⟨by rw [collected.split]; simp, ?_, ?_, ?_⟩
  · intro r member ev made
    rcases List.mem_append.mp member with before | now
    · exact older ev (collected.ssh r before ev made)
    · exact newer r now ev ((mem_eventsFor (alike r.id)).mpr (Or.inl ⟨r, by simp [now], made⟩))
  · intro r member ev made
    by_cases seen : r.id ∈ keys Record.id done
    · obtain ⟨old, before, same⟩ := mem_keys.mp seen
      have here : r ∈ all := by rw [collected.split]; simp only [List.mem_append] at member ⊢; tauto
      have there : old ∈ all := by rw [collected.split]; simp [before]
      refine older ev (collected.command old before ev ?_)
      rw [same]
      exact (execEvent_congr same (by rw [times old there, times r here, same]) rfl).trans made
    · have now : r ∈ settled := by
        rcases List.mem_append.mp member with before | now
        · exact absurd (mem_keys.mpr ⟨r, before, rfl⟩) seen
        · exact now
      have both : hasExec (members Record.id r.id (settled ++ left ++ unread)) = true := by
        by_contra lacking
        have whole : members Record.id r.id all = members Record.id r.id (settled ++ left ++ unread) := by
          rw [collected.split, members_append, members_eq_nil seen, List.nil_append]
        rw [whole, execEvent_eq_none (by simpa using lacking)] at made
        cases made
      refine newer r now ev ((mem_eventsFor (alike r.id)).mpr (Or.inr ⟨r, by simp [now], ?_⟩))
      exact (execEvent_congr rfl rfl (whole_command collected.split seen (keeps r now) both)).symm.trans made
  · intro r member
    have part : ∀ other ∈ members Record.id r.id (left ++ unread), other ∈ members Record.id r.id (settled ++ left ++ unread) := by
      intro other inside
      simp only [mem_members, List.mem_append] at inside ⊢
      tauto
    by_contra both
    have both := Bool.of_not_eq_false both
    rcases List.mem_append.mp member with before | now
    · have nothing := collected.spent r before
      rw [hasExec_mono part both] at nothing
      cases nothing
    · have nothing := (keeps r now (hasExec_mono part both)).2
      rw [both] at nothing
      cases nothing

end

structure Attached (c : Collector) (w : World) : Prop where
  past : w.past = []
  named : w.current.inode ≠ ""
  place : (w.spool.cp.inode = "" ∧ c.fromStart = true) ∨ (w.spool.cp.inode = w.current.inode ∧ w.spool.cp.boot = c.boot)
  inside : (w.start c).offset ≤ w.current.size

theorem Attached.start {w : World} (attached : Attached c w) :
    (w.start c).inode = w.current.inode ∧
      (w.spool.cp.inode ≠ "" → w.start c = w.spool.cp) ∧ (w.spool.cp.inode = "" → (w.start c).offset = 0) := by
  rcases attached.place with ⟨fresh, first⟩ | ⟨same, boot⟩
  · simp [World.start, attach, fresh, first, World.dir]
  · have unmoved : w.start c = w.spool.cp := start_attached (same ▸ attached.named) boot
    exact ⟨unmoved ▸ same, fun _ => unmoved, fun empty => absurd (same.symm.trans empty) attached.named⟩

theorem Attached.initial {w : World} (fresh : freshLog c w) : Attached c w := by
  obtain ⟨past, named, place⟩ := fresh
  refine ⟨past, named, ?_, ?_⟩
  · rcases place with fresh | ⟨same, boot, _⟩
    · exact Or.inl fresh
    · exact Or.inr ⟨same, boot⟩
  · rcases place with ⟨empty, first⟩ | ⟨same, boot, zero⟩
    · simp [World.start, attach, empty, first]
    · simp [World.start, attach, same, named, boot, zero]

theorem Attached.read {w : World} (attached : Attached c w) (now : Int) :
    SshLogger.read (w.start c) w.dir now = readFile (w.start c) w.current w.dir now := by
  have here : (w.start c).inode = w.dir.current.inode := attached.start.1
  simp [SshLogger.read, locate, here, World.dir]

/-- The events a call offers are those of the groups it passes on, if it reads anything. -/
theorem Attached.offered {w : World} (attached : Attached c w) (now : Int) :
    offered c w.spool.cp w.dir now = [] ∨ offered c w.spool.cp w.dir now =
      (passedAt w.current (w.start c).offset now).flatMap fun rows => eventsFor rows c.boot c.lookup := by
  have one := attached.read now
  simp only [World.start] at one
  simp only [SshLogger.offered, one]
  rcases readFile_settles (w.start c) w.current w.dir now attached.inside with ⟨problem, failed, _⟩ | ⟨next, passed, got, same, _⟩
  · left
    rw [World.start] at failed
    rw [failed]
  · right
    rw [World.start] at got
    rw [got, ← same]
    simp only [groupEvents, List.flatMap_map]

/-- The checkpoint of the next call: unmoved, or behind the settled lines. -/
theorem Attached.collect {w : World} (attached : Attached c w) (now : Int) (committed stored : Bool) :
    Attached c (w.collect c now committed stored) ∧
      (((w.collect c now committed stored).start c).offset = (w.start c).offset ∨
        (((w.collect c now committed stored).start c).offset =
            (w.start c).offset + (settledAt w.current (w.start c).offset now).flatten.length ∧
          offeredBy c w (.collect now committed stored) =
            (passedAt w.current (w.start c).offset now).flatMap fun rows => eventsFor rows c.boot c.lookup)) := by
  have keep : ∀ same : (w.collect c now committed stored).spool.cp = w.spool.cp ∨
      (w.collect c now committed stored).spool.cp = w.start c,
      Attached c (w.collect c now committed stored) ∧
        ((w.collect c now committed stored).start c).offset = (w.start c).offset := by
    intro same
    have start := start_kept attached.named same
    refine ⟨⟨attached.past, attached.named, ?_, start ▸ attached.inside⟩, by rw [start]⟩
    rcases same with same | same
    · exact same ▸ attached.place
    · exact Or.inr (same ▸ ⟨attached.start.1, attach_boot c w.spool.cp w.dir⟩)
  rcases collect_cp c w now committed stored with kept | kept | ⟨_, began, next, passed, lost, got, moved⟩
  · exact ⟨(keep (Or.inl kept)).1, Or.inl (keep (Or.inl kept)).2⟩
  · exact ⟨(keep (Or.inr kept)).1, Or.inl (keep (Or.inr kept)).2⟩
  · have one := (attached.read now).symm.trans got
    rcases readFile_settles (w.start c) w.current w.dir now attached.inside with
      ⟨problem, failed, _⟩ | ⟨next', passed', got', same, rfl⟩
    · rw [failed] at one
      cases one
    · obtain ⟨rfl, rfl⟩ := Prod.mk.inj (Except.ok.inj (got'.symm.trans one))
      have here : w.current.inode = w.dir.current.inode := rfl
      simp only [here, ne_eq, not_true, false_and, if_false] at moved
      have start : (w.collect c now committed stored).start c = (w.collect c now committed stored).spool.cp := by
        apply start_attached
        · rw [moved]
          exact attach_inode attached.named
        · rw [moved]
          exact attach_boot c w.spool.cp w.dir
      have offset : ((w.collect c now committed stored).start c).offset =
          (w.start c).offset + (settledAt w.current (w.start c).offset now).flatten.length := by
        rw [start, moved]
      refine ⟨⟨attached.past, attached.named, Or.inr ?_, ?_⟩, Or.inr ⟨offset, ?_⟩⟩
      · rw [moved]
        exact ⟨attached.start.1, attach_boot c w.spool.cp w.dir⟩
      · rw [offset]
        exact settledAt_inside attached.inside now
      · have made : SshLogger.offered c w.spool.cp w.dir now = groupEvents c passed' := by
          simp only [SshLogger.offered]
          rw [show SshLogger.read (attach c w.spool.cp w.dir).1 w.dir now = _ from got]
        simp only [offeredBy, began, Bool.false_eq_true, if_false]
        rw [made, ← same]
        simp only [groupEvents, List.flatMap_map]

def Becomes (file final : LogFile) : Prop := file.content <+: final.content

theorem recordsFrom_final {file final : LogFile} (grows : Becomes file final) {offset : Nat} (inside : offset ≤ file.size)
    {lines : List Bytes} (part : lines <+: completeLines (file.content.drop offset)) :
    recordsFrom final offset = records lines ++ recordsFrom final (offset + lines.flatten.length) := by
  obtain ⟨data, whole⟩ := grows
  refine recordsFrom_lines (part.trans ?_)
  rw [← whole, List.drop_append_of_le_length inside]
  exact completeLines_isPrefix (List.prefix_append _ _)

theorem parsed_time {file : LogFile} {offset : Nat} {r : Record} (member : r ∈ recordsFrom file offset) :
    r.time = stampTime r.id := by
  obtain ⟨_, _, parsed⟩ := List.mem_filterMap.mp member
  exact parseRecord_time parsed

structure Progress (c : Collector) (final : LogFile) (history : List (Transition World LogAction)) (w : World) : Prop where
  attached : Attached c w
  sound : ∀ ev, Offered c history ev → ev ∈ oneShot c final
  collected : ∃ done, Collected c (recordsFrom final 0) (Offered c history) done (recordsFrom final (w.start c).offset)

theorem Offered.older {history : List (Transition World LogAction)} {ev : Event} (offered : Offered c history ev)
    (t : Transition World LogAction) : Offered c (t :: history) ev := by
  obtain ⟨other, member, made⟩ := offered
  exact ⟨other, by simp [member], made⟩

/-- A step that offers nothing and keeps the checkpoint keeps the invariant. -/
private theorem Progress.quiet {final : LogFile} {history : List (Transition World LogAction)} {w after : World}
    {action : LogAction} (progress : Progress c final history w) (attached : Attached c after)
    (nothing : ∀ ev ∈ offeredBy c w action, ev ∈ oneShot c final)
    (start : (after.start c).offset = (w.start c).offset) : Progress c final (⟨w, action, after⟩ :: history) after := by
  refine ⟨attached, ?_, ?_⟩
  · rintro ev ⟨t, member, made⟩
    rcases List.mem_cons.mp member with rfl | member
    · exact nothing ev made
    · exact progress.sound ev ⟨t, member, made⟩
  · obtain ⟨done, collected⟩ := progress.collected
    rw [start]
    exact ⟨done, collected.split, fun r member ev made => (collected.ssh r member ev made).older _,
      fun r member ev made => (collected.command r member ev made).older _, collected.spent⟩

private theorem Progress.collect {final : LogFile} {history : List (Transition World LogAction)} {w : World}
    (progress : Progress c final history w) (grows : Becomes w.current final) {now : Int} {committed stored : Bool}
    (untorn : ¬Torn c final w now) :
    Progress c final (⟨w, .collect now committed stored, w.collect c now committed stored⟩ :: history)
      (w.collect c now committed stored) := by
  obtain ⟨done, collected⟩ := progress.collected
  have attached := progress.attached
  obtain ⟨rest, window⟩ := settledAt_isPrefix w.current (w.start c).offset now
  have read := recordsFrom_final grows attached.inside (windowAt_isPrefix w.current (w.start c).offset)
  have first := recordsFrom_final grows attached.inside
    ((settledAt_isPrefix w.current (w.start c).offset now).trans (windowAt_isPrefix w.current (w.start c).offset))
  have split := read
  rw [← window, records_append, window] at split
  have next := List.append_cancel_left (first.symm.trans (split.trans (List.append_assoc _ _ _)))
  have keeps : ∀ r ∈ records (settledAt w.current (w.start c).offset now),
      Keeps r.id (records (settledAt w.current (w.start c).offset now)) (records rest)
        (recordsFrom final ((w.start c).offset + (windowAt w.current (w.start c).offset).flatten.length)) := by
    intro r member both
    rw [← split] at both
    rw [← next]
    by_contra torn
    refine untorn ⟨r.id, mem_keys.mpr ⟨r, member, rfl⟩, both, ?_⟩
    simp only [not_and_or, Bool.not_eq_false] at torn
    exact torn
  rw [split] at collected
  have passed : ∀ rows ∈ passedAt w.current (w.start c).offset now, ∃ r ∈ records (settledAt w.current (w.start c).offset now),
      rows = members Record.id r.id (records (settledAt w.current (w.start c).offset now) ++ records rest) := by
    intro rows member
    obtain ⟨id, inside, rfl⟩ := List.mem_map.mp member
    obtain ⟨r, there, rfl⟩ := mem_keys.mp inside
    exact ⟨r, there, by rw [← records_append, window]⟩
  have sound : ∀ ev ∈ (passedAt w.current (w.start c).offset now).flatMap fun rows => eventsFor rows c.boot c.lookup,
      ev ∈ oneShot c final := by
    intro ev made
    obtain ⟨rows, member, made⟩ := List.mem_flatMap.mp made
    obtain ⟨r, there, rfl⟩ := passed rows member
    exact mem_oneShot.mpr (collected.sound (fun r => parsed_time) (keeps r there) made)
  have offered : ∀ ev ∈ offeredBy c w (.collect now committed stored), ev ∈ oneShot c final := by
    intro ev made
    simp only [offeredBy] at made
    split at made
    · cases made
    · rcases attached.offered now with none | all
      · rw [none] at made
        cases made
      · exact sound ev (all ▸ made)
  obtain ⟨still, same | ⟨moved, all⟩⟩ := attached.collect now committed stored
  · exact progress.quiet still offered same
  · refine ⟨still, ?_, done ++ records (settledAt w.current (w.start c).offset now), ?_⟩
    · rintro ev ⟨t, member, made⟩
      rcases List.mem_cons.mp member with rfl | member
      · exact offered ev made
      · exact progress.sound ev ⟨t, member, made⟩
    · rw [moved, next]
      refine collected.settle (fun r => parsed_time) keeps (fun ev given => given.older _) ?_
      intro r there ev made
      refine ⟨_, List.mem_cons_self, ?_⟩
      simp only [all, List.mem_flatMap]
      refine ⟨_, List.mem_map.mpr ⟨r.id, mem_keys.mpr ⟨r, there, rfl⟩, rfl⟩, ?_⟩
      rwa [← window, records_append]

private theorem Attached.append {w : World} (attached : Attached c w) (data : Bytes) :
    let after := { w with current := { w.current with content := w.current.content ++ data } }
    Attached c after ∧ (after.start c).offset = (w.start c).offset := by
  intro after
  have offset : (after.start c).offset = (w.start c).offset := by
    rcases attached.place with ⟨fresh, first⟩ | ⟨same, boot⟩
    · simp [after, World.start, attach, fresh, first]
    · have named : w.spool.cp.inode ≠ "" := same ▸ attached.named
      simp [after, World.start, attach, named, boot]
  refine ⟨⟨attached.past, attached.named, attached.place, ?_⟩, offset⟩
  have inside := attached.inside
  simp only [offset, after, LogFile.size, List.length_append] at inside ⊢
  omega

/-- The untorn calls of a run, judged by the file as it is in the end. -/
def Untorn (c : Collector) (final : LogFile) (history : List (Transition World LogAction)) : Prop :=
  ∀ t ∈ history, ∀ now committed stored, t.action = .collect now committed stored → ¬Torn c final t.before now

theorem progress_of_run {history : List (Transition World LogAction)} {w : World}
    (run : Run (logSystem c (freshLog c)) history w) : ∀ final, Becomes w.current final →
      AppendOnly history → Untorn c final history → Progress c final history w := by
  refine run.induct (fun history w => ∀ final, Becomes w.current final →
    AppendOnly history → Untorn c final history → Progress c final history w) ?_ ?_
  · intro w fresh final _ _ _
    have attached := Attached.initial fresh
    have zero : (w.start c).offset = 0 := by
      rcases fresh.2.2 with ⟨empty, _⟩ | ⟨same, _, zero⟩
      · exact attached.start.2.2 empty
      · rw [attached.start.2.1 (same ▸ attached.named), zero]
    refine ⟨attached, ?_, [], ?_⟩
    · rintro ev ⟨t, member, _⟩
      cases member
    · rw [zero]
      exact ⟨rfl, by simp, by simp, by simp⟩
  · intro history w action after earlier ih moved final grows appended untorn
    have earlierAppended : AppendOnly history := fun t member => appended t (by simp [member])
    have earlierUntorn : Untorn c final history := fun t member => untorn t (by simp [member])
    cases action with
    | append data =>
      obtain rfl : after = { w with current := { w.current with content := w.current.content ++ data } } := moved
      have before := ih final ((List.prefix_append _ _).trans grows) earlierAppended earlierUntorn
      have next := before.attached.append data
      exact before.quiet next.1 (by simp [offeredBy]) next.2
    | rotate inode => exact absurd rfl (appended _ List.mem_cons_self inode)
    | expire =>
      obtain ⟨some, rfl⟩ := moved
      have before := ih final grows earlierAppended earlierUntorn
      rw [before.attached.past] at some
      cases some
    | collect now committed stored =>
      obtain rfl : after = w.collect c now committed stored := moved
      have before := ih final grows earlierAppended earlierUntorn
      exact before.collect grows (untorn _ List.mem_cons_self now committed stored rfl)

/-- The window stops short of the file's end and holds one group only, which
begins with the window and has no end record. -/
def Stuck (file : LogFile) (offset : Nat) : Prop :=
  stopsShort file offset = true ∧ ∃ line rest r, windowAt file offset = line :: rest ∧ parseRecord line = some r ∧
    ∀ other ∈ records (windowAt file offset), other.id = r.id ∧ isEnd other = false

/-- A call that both of its transactions survive, later than three seconds after
every record still to be read, and not stuck. -/
def LateCall (c : Collector) (t : Transition World LogAction) : Prop :=
  ∃ now, t.action = .collect now true true ∧
    (∀ r ∈ recordsFrom t.before.current (t.before.start c).offset, r.time ≤ now - 3000) ∧
    ¬Stuck t.before.current (t.before.start c).offset

theorem window_ne_nil {lines : List Bytes} (some : lines ≠ []) : window lines ≠ [] := by
  cases lines with
  | nil => exact absurd rfl some
  | cons line rest => simp [window, windowFrom, maxLines, maxChunk]

/-- A late call settles a line if there is one. -/
theorem settledAt_ne_nil {file : LogFile} {offset : Nat} {now : Int}
    (late : ∀ r ∈ recordsFrom file offset, r.time ≤ now - 3000) (free : ¬Stuck file offset)
    (some : completeLines (file.content.drop offset) ≠ []) : settledAt file offset now ≠ [] := by
  intro nothing
  have window : windowAt file offset ≠ [] := window_ne_nil some
  obtain ⟨line, rest, id, split, named, held⟩ := @settled_stops (now - 3000) (stopsShort file offset)
    (windowAt file offset) (fun all => window (all.symm.trans nothing))
  rw [show settled (now - 3000) (stopsShort file offset) (windowAt file offset) = [] from nothing, List.nil_append] at split
  obtain ⟨r, parsed, rfl⟩ := Option.map_eq_some_iff.mp named
  have old : ∀ other ∈ members Record.id r.id (records (windowAt file offset)), other.time ≤ now - 3000 := by
    intro other member
    obtain ⟨lines, same, parsed⟩ := List.mem_filterMap.mp (mem_members.mp member).1
    exact late other (List.mem_filterMap.mpr ⟨lines, (windowAt_isPrefix file offset).subset same, parsed⟩)
  have begins : ∃ others, keys Record.id (records (windowAt file offset)) = r.id :: others := by
    rw [split]
    simp [records, parsed, keys]
  obtain ⟨others, first⟩ := begins
  simp only [isHeld, Bool.and_eq_true, Bool.not_eq_true', List.any_eq_false, Bool.or_eq_true, beq_iff_eq] at held
  obtain ⟨unfinished, recent | ⟨short, last⟩⟩ := held
  · cases head : (members Record.id r.id (records (windowAt file offset))).head? with
    | none => simp [head] at recent
    | some other =>
      have := old other (List.mem_of_mem_head? head)
      simp only [head, Option.any_some, decide_eq_true_eq] at recent
      omega
  · -- The group is the first and the last one to begin in the window, so it is the only one.
    have only : others = [] := by
      have distinct : (keys Record.id (records (windowAt file offset))).Nodup := keys_nodup _
      rw [first] at last distinct
      cases others with
      | nil => rfl
      | cons next more =>
        rw [List.getLast?_cons_cons] at last
        exact absurd (List.mem_of_getLast? last) (List.nodup_cons.mp distinct).1
    refine free ⟨short, line, rest, r, split, parsed, fun other member => ?_⟩
    have same : other.id = r.id := by
      have key : other.id ∈ keys Record.id (records (windowAt file offset)) := mem_keys.mpr ⟨other, member, rfl⟩
      rw [first, only] at key
      exact List.mem_singleton.mp key
    exact ⟨same, by simpa using unfinished other (mem_members.mpr ⟨member, same⟩)⟩

def remaining (c : Collector) (w : World) : Nat := (completeLines (w.current.content.drop (w.start c).offset)).length

/-- A call that nothing stops commits the groups it passes on and settles its lines. -/
theorem Attached.stores {w : World} (attached : Attached c w) (now : Int)
    (fits : ∀ line ∈ windowAt w.current (w.start c).offset, line.length ≤ maxLine) :
    (w.collect c now true true).spool = (if (attach c w.spool.cp w.dir).2 then w.spool.commit (w.start c) [] true else w.spool).commit
      { w.start c with offset := (w.start c).offset + (settledAt w.current (w.start c).offset now).flatten.length }
      ((passedAt w.current (w.start c).offset now).flatMap fun rows => eventsFor rows c.boot c.lookup) true ∧
    offeredBy c w (.collect now true true) =
      ((passedAt w.current (w.start c).offset now).flatMap fun rows => eventsFor rows c.boot c.lookup) ∧
    ((w.collect c now true true).start c).offset =
      (w.start c).offset + (settledAt w.current (w.start c).offset now).flatten.length := by
  rcases readFile_settles (w.start c) w.current w.dir now attached.inside with
    ⟨problem, failed, line, member, long⟩ | ⟨next, passed, got, same, rfl⟩
  · have := fits line member
    omega
  · have here : w.current.inode = w.dir.current.inode := rfl
    simp only [here, ne_eq, not_true, false_and, if_false] at got
    have stored := collect_commits true (Bool.and_false _) ((attached.read now).trans got)
    have events : groupEvents c passed =
        (passedAt w.current (w.start c).offset now).flatMap fun rows => eventsFor rows c.boot c.lookup := by
      rw [← same]
      simp only [groupEvents, List.flatMap_map]
    rw [events] at stored
    have made : SshLogger.offered c w.spool.cp w.dir now = groupEvents c passed := by
      have read : SshLogger.read (attach c w.spool.cp w.dir).1 w.dir now = _ := (attached.read now).trans got
      simp only [SshLogger.offered, read]
    refine ⟨stored, by simp [offeredBy, made, events], ?_⟩
    have boot := attach_boot c w.spool.cp w.dir
    have named : (w.start c).inode ≠ "" := attach_inode attached.named
    have cp := congrArg Spool.cp stored
    simp only [Spool.commit, Bool.not_true, Bool.false_eq_true, if_false] at cp
    rw [start_attached]
    · exact congrArg Checkpoint.offset cp
    · exact fun empty => named ((congrArg Checkpoint.inode cp).symm.trans empty)
    · exact (congrArg Checkpoint.boot cp).trans boot

theorem Attached.late {w : World} (attached : Attached c w) {now : Int}
    (fits : ∀ line ∈ completeLines w.current.content, line.length ≤ maxLine)
    (old : ∀ r ∈ recordsFrom w.current (w.start c).offset, r.time ≤ now - 3000)
    (free : ¬Stuck w.current (w.start c).offset) :
    remaining c (w.collect c now true true) = 0 ∨ remaining c (w.collect c now true true) < remaining c w := by
  have short : ∀ line ∈ windowAt w.current (w.start c).offset, line.length ≤ maxLine := by
    intro line member
    obtain ⟨whole, inside, le⟩ := (completeLines_drop_le w.current.content (w.start c).offset).2 line
      ((windowAt_isPrefix w.current (w.start c).offset).subset member)
    exact Nat.le_trans le (fits whole inside)
  have start := (attached.stores now short).2.2
  obtain ⟨others, split⟩ := (settledAt_isPrefix w.current (w.start c).offset now).trans
    (windowAt_isPrefix w.current (w.start c).offset)
  have rest := completeLines_drop (w.current.content.drop (w.start c).offset)
    (settledAt w.current (w.start c).offset now).length
  rw [← split, List.take_left, List.drop_left, List.drop_drop] at rest
  have current : (w.collect c now true true).current = w.current := rfl
  simp only [remaining, current]
  rw [start, rest, ← split, List.length_append]
  by_cases none : completeLines (w.current.content.drop (w.start c).offset) = []
  · left
    rw [none] at split
    simpa using (List.append_eq_nil_iff.mp split).2
  · right
    have progress := List.length_pos_iff.mpr (settledAt_ne_nil old free none)
    omega

private theorem late_calls {w : World} {calls earlier : List (Transition World LogAction)}
    (run : Run (logSystem c (freshLog c)) (calls ++ earlier) w) (appended : AppendOnly (calls ++ earlier))
    (untorn : Untorn c w.current (calls ++ earlier)) (late : ∀ t ∈ calls, LateCall c t)
    (fits : ∀ line ∈ completeLines w.current.content, line.length ≤ maxLine) :
    remaining c w = 0 ∨ remaining c w + calls.length ≤ (completeLines w.current.content).length := by
  induction calls generalizing w with
  | nil => exact Or.inr (completeLines_drop_le w.current.content (w.start c).offset).1
  | cons t calls ih =>
    obtain ⟨rfl, before, moved⟩ := run.newest
    obtain ⟨now, action, old, free⟩ := late t (by simp)
    rw [action] at moved
    have after : t.after = t.before.collect c now true true := moved
    have same : t.after.current = t.before.current := by rw [after]; rfl
    rw [same] at fits untorn ⊢
    have attached := (progress_of_run before t.before.current (List.prefix_refl _)
      (fun other member => appended other (List.mem_cons_of_mem t member))
      (fun other member => untorn other (List.mem_cons_of_mem t member))).attached
    have earlier := ih before (fun other member => appended other (List.mem_cons_of_mem t member))
      (fun other member => untorn other (List.mem_cons_of_mem t member))
      (fun other member => late other (List.mem_cons_of_mem t member)) fits
    have shrinks := attached.late fits old free
    rw [after]
    simp only [List.length_cons]
    omega

/-- Incremental collection agrees with one pass over the whole file in every run
whose calls tear no command apart: nothing else is ever offered, and once the
end has been reached nothing is missing. As many late calls as the file has
lines reach the end. -/
theorem incremental_collection {history : List (Transition World LogAction)} {w : World}
    (run : Run (logSystem c (freshLog c)) history w) (appended : AppendOnly history)
    (untorn : Untorn c w.current history) :
    (∀ ev, Offered c history ev → ev ∈ oneShot c w.current) ∧
    (AtEnd c w → ∀ ev ∈ oneShot c w.current, Offered c history ev) ∧
    ((∀ line ∈ completeLines w.current.content, line.length ≤ maxLine) →
      ∀ calls earlier, history = calls ++ earlier → (∀ t ∈ calls, LateCall c t) →
        (completeLines w.current.content).length ≤ calls.length → AtEnd c w) := by
  have progress := progress_of_run run w.current (List.prefix_refl _) appended untorn
  refine ⟨progress.sound, ?_, ?_⟩
  · intro ended ev made
    obtain ⟨done, collected⟩ := progress.collected
    have all : recordsFrom w.current 0 = done := by
      have nothing : recordsFrom w.current (w.start c).offset = [] := by
        rw [recordsFrom, show completeLines _ = [] from ended]
        rfl
      rw [collected.split, nothing, List.append_nil]
    rcases mem_oneShot.mp made with ⟨r, member, made⟩ | ⟨r, member, made⟩
    · exact collected.ssh r (all ▸ member) ev made
    · exact collected.command r (all ▸ member) ev made
  · rintro fits calls earlier rfl late enough
    have counted := late_calls run appended untorn late fits
    have finished : remaining c w = 0 := by omega
    exact List.length_eq_zero_iff.mp finished

theorem windowFrom_take {remaining size : Nat} {lines : List Bytes} (room : size + lines.flatten.length < maxChunk) :
    windowFrom remaining size lines = lines.take remaining := by
  induction remaining generalizing size lines with
  | zero => simp [windowFrom]
  | succ remaining ih =>
    cases lines with
    | nil => simp [windowFrom]
    | cons line rest =>
      simp only [List.flatten_cons, List.length_append] at room
      rw [windowFrom, if_pos (by omega), ih (by omega), List.take_succ_cons]

structure Sample where
  line : Bytes
  record : Record
  deriving DecidableEq

def sample (text : String) : Sample :=
  let line := Bytes.utf8 text ++ [newline]
  ⟨line, (parseRecord line).getD ⟨[], [], 0, []⟩⟩

def callSample : Sample :=
  sample "type=SYSCALL msg=audit(1.000:1): success=yes ppid=1 pid=2 auid=1000 euid=0 ses=3 exe=\"/bin/ls\""
def argSample : Sample := sample "type=EXECVE msg=audit(1.000:1): argc=2 a0=\"ls\""
def moreSample : Sample := sample "type=EXECVE msg=audit(1.000:1): a1=\"-l\""
def endSample : Sample := sample "type=EOE msg=audit(1.000:1): "
def fillSample : Sample := sample "type=CWD msg=audit(1.000:2): cwd=\"/\""

def longHead : List Sample := [callSample, argSample]
def longTail : List Sample := [moreSample, endSample]
def longLog (count : Nat) : List Sample := longHead ++ (List.replicate count fillSample ++ longTail)

def headRecords : List Record := longHead.map Sample.record

def tailRecords : List Record := longTail.map Sample.record

def linesOf (samples : List Sample) : List Bytes := samples.map Sample.line

/-- The command with one argument of two. -/
def tornEvents : List Event := eventsFor headRecords (Bytes.utf8 "b") id

structure SampleFacts : Prop where
  parsed : ∀ one ∈ longHead ++ [fillSample] ++ longTail, parseRecord one.line = some one.record ∧
    completeLines one.line = [one.line] ∧ one.record.time = 1000 ∧
    sshEvent one.record (Bytes.utf8 "b") id one.record = none
  lengths : ∀ one ∈ longHead ++ [fillSample] ++ longTail, one.line.length ≤ maxLine
  sizes : (linesOf longHead).flatten.length = 142 ∧ (linesOf longTail).flatten.length = 70 ∧ fillSample.line.length = 37
  head : longHead.map (fun one => one.record.id) = [Bytes.utf8 "1.000:1", Bytes.utf8 "1.000:1"]
  command : ∀ r ∈ headRecords ++ tailRecords, r.id = Bytes.utf8 "1.000:1" ∧ r.time = 1000
  fill : fillSample.record.id = Bytes.utf8 "1.000:2" ∧ fillSample.record.time = 1000 ∧
    isEnd fillSample.record = false ∧ isKind "SYSCALL" fillSample.record = false
  apart : Bytes.utf8 "1.000:1" ≠ Bytes.utf8 "1.000:2"
  headKeys : keys Record.id headRecords = [Bytes.utf8 "1.000:1"]
  tailKeys : keys Record.id tailRecords = [Bytes.utf8 "1.000:1"]
  old : (headRecords.head?.any fun r => r.time > 1000000 - 3000) = false
  tail : eventsFor tailRecords (Bytes.utf8 "b") id = []
  admitted : (offerAll (64 * 1024 * 1024) ⟨[], 0, 0⟩ tornEvents).dropped = 0
  torn : tornEvents ≠ [] ∧ ∀ ev ∈ tornEvents, ∀ r ∈ headRecords ++ tailRecords,
    execEvent r (Bytes.utf8 "b") id (headRecords ++ tailRecords) ≠ some ev

theorem sample_facts : SampleFacts where
  parsed := by decide +kernel
  lengths := by decide +kernel
  sizes := by decide +kernel
  head := by decide +kernel
  command := by decide +kernel
  fill := by decide +kernel
  apart := by decide +kernel
  headKeys := by decide +kernel
  tailKeys := by decide +kernel
  old := by decide +kernel
  tail := by decide +kernel
  admitted := by decide +kernel
  torn := by decide +kernel

def Known (samples : List Sample) : Prop := ∀ one ∈ samples, one ∈ longHead ++ [fillSample] ++ longTail

theorem known_longLog (count : Nat) : Known (longLog count) := by
  intro one member
  simp only [longLog, List.mem_append, List.mem_replicate] at member ⊢
  rcases member with inHead | ⟨_, rfl⟩ | inTail
  · exact Or.inl (Or.inl inHead)
  · exact Or.inl (Or.inr (by simp))
  · exact Or.inr inTail

theorem completeLines_linesOf {samples : List Sample} (known : Known samples) :
    completeLines (linesOf samples).flatten = linesOf samples := by
  have facts := sample_facts
  have shapes : ∀ line ∈ linesOf samples, IsLine line := by
    intro line member
    obtain ⟨one, inside, rfl⟩ := List.mem_map.mp member
    have whole := (facts.parsed one (known one inside)).2.1
    exact @isLine_of_mem one.line _ (by rw [whole]; simp)
  simpa [completeLines] using completeLines_flatten_append shapes []

theorem records_linesOf {samples : List Sample} (known : Known samples) :
    records (linesOf samples) = samples.map Sample.record := by
  have facts := sample_facts
  induction samples with
  | nil => rfl
  | cons one rest ih =>
    have later := ih fun other member => known other (by simp [member])
    have parsed := (facts.parsed one (known one (by simp))).1
    simp only [records, linesOf, List.map_cons, List.filterMap_cons, parsed] at later ⊢
    rw [later]

def longFile (count : Nat) : LogFile := ⟨"1:1", (linesOf (longLog count)).flatten⟩

theorem longFile_split (count : Nat) : (longFile count).content = (linesOf longHead).flatten ++
    (linesOf (List.replicate count fillSample ++ longTail)).flatten := by
  simp only [longFile, longLog, linesOf, List.map_append, List.flatten_append]

theorem flatten_fill (count : Nat) :
    (linesOf (List.replicate count fillSample)).flatten.length = count * fillSample.line.length := by
  simp [linesOf, List.length_flatten, List.map_replicate]

def fillRecords (count : Nat) : List Record := List.replicate count fillSample.record

theorem members_call (count : Nat) (rows : List Record) (part : ∀ r ∈ rows, r ∈ headRecords ++ tailRecords) :
    members Record.id (Bytes.utf8 "1.000:1") (fillRecords count) = [] ∧
      members Record.id (Bytes.utf8 "1.000:1") rows = rows ∧ members Record.id (Bytes.utf8 "1.000:2") rows = [] := by
  have facts := sample_facts
  refine ⟨?_, ?_, ?_⟩
  · simp [members, fillRecords, facts.fill.1, facts.apart.symm]
  · exact List.filter_eq_self.mpr fun r member => by simp [(facts.command r (part r member)).1]
  · exact List.filter_eq_nil_iff.mpr fun r member => by
      simpa [(facts.command r (part r member)).1] using facts.apart

theorem keys_fill (count : Nat) : keys Record.id (fillRecords (count + 1)) = [Bytes.utf8 "1.000:2"] := by
  have facts := sample_facts
  induction count with
  | zero => simp [fillRecords, keys, facts.fill.1]
  | succ count ih =>
    rw [fillRecords, List.replicate_succ, keys]
    simp only [fillRecords] at ih
    simp [ih, facts.fill.1]

theorem first_window {count : Nat} (full : count + 2 = maxLines) (small : count * 37 + 212 < maxChunk) :
    windowAt (longFile count) 0 = linesOf (longHead ++ List.replicate count fillSample) := by
  have facts := sample_facts
  have lines : completeLines (longFile count).content = linesOf (longLog count) := completeLines_linesOf (known_longLog count)
  rw [windowAt, window, List.drop_zero, lines, windowFrom_take]
  · simp only [longLog, linesOf, ← List.append_assoc, List.map_append]
    exact List.take_left' (by simp [longHead, ← full])
  · have sizes := facts.sizes
    have fill := flatten_fill count
    simp only [longLog, linesOf, List.map_append, List.flatten_append, List.length_append] at sizes fill ⊢
    rw [fill, sizes.2.2]
    omega

def longAgent : Collector := ⟨Bytes.utf8 "b", true, id⟩

/-- The whole log is written, and two calls read it long after. -/
def longStart : World := ⟨[], 0, ⟨"1:1", []⟩, openSpool ⟨none, [], none⟩ (64 * 1024 * 1024)⟩

def longWritten (count : Nat) : World := { longStart with current := longFile count }

def longFirst (count : Nat) : World := (longWritten count).collect longAgent 1000000 true true

def longSecond (count : Nat) : World := (longFirst count).collect longAgent 1000000 true true

def longHistory (count : Nat) : List (Transition World LogAction) :=
  [⟨longFirst count, .collect 1000000 true true, longSecond count⟩,
    ⟨longWritten count, .collect 1000000 true true, longFirst count⟩,
    ⟨longStart, .append (longFile count).content, longWritten count⟩]

theorem longRun (count : Nat) :
    Run (logSystem longAgent (freshLog longAgent)) (longHistory count) (longSecond count) := by
  refine .next (.next (.next (.start ⟨rfl, by decide, Or.inl ⟨rfl, rfl⟩⟩) ?_) rfl) rfl
  simp [logSystem, logStep, longWritten, longStart, longFile]

theorem attached_written (count : Nat) : Attached longAgent (longWritten count) := by
  have fresh : freshLog longAgent longStart := ⟨rfl, by decide, Or.inl ⟨rfl, rfl⟩⟩
  exact ⟨rfl, (by decide : "1:1" ≠ ""), Or.inl ⟨rfl, rfl⟩, Nat.zero_le _⟩

theorem first_records {count : Nat} : records (linesOf (longHead ++ List.replicate count fillSample)) =
    headRecords ++ fillRecords count := by
  rw [records_linesOf, List.map_append, List.map_replicate]
  · rfl
  · intro one member
    exact known_longLog count one (by simp only [longLog, List.mem_append] at member ⊢; tauto)

theorem first_keys (count : Nat) : keys Record.id (headRecords ++ fillRecords (count + 1)) =
    [Bytes.utf8 "1.000:1", Bytes.utf8 "1.000:2"] := by
  have facts := sample_facts
  rw [keys_append, keys_fill, facts.headKeys]
  simp [facts.apart.symm]

theorem first_settled (count : Nat) : settled (1000000 - 3000) true (linesOf (longHead ++ List.replicate (count + 1) fillSample)) =
    linesOf longHead := by
  have facts := sample_facts
  have heldCall : isHeld (1000000 - 3000) true (headRecords ++ fillRecords (count + 1)) (Bytes.utf8 "1.000:1") = false := by
    have apart := members_call (count + 1) headRecords (fun r member => List.mem_append_left _ member)
    rw [isHeld, members_append, apart.1, apart.2.1, List.append_nil, first_keys, facts.old]
    simp [facts.apart.symm]
  have heldFill : isHeld (1000000 - 3000) true (headRecords ++ fillRecords (count + 1)) (Bytes.utf8 "1.000:2") = true := by
    have apart := members_call (count + 1) headRecords (fun r member => List.mem_append_left _ member)
    have whole : members Record.id (Bytes.utf8 "1.000:2") (fillRecords (count + 1)) = fillRecords (count + 1) :=
      List.filter_eq_self.mpr fun r member => by simp [List.eq_of_mem_replicate member, facts.fill.1]
    rw [isHeld, members_append, apart.2.2, List.nil_append, whole, first_keys]
    simp [fillRecords, facts.fill.2.2.1]
  have parsed := fun one (member : one ∈ longHead ++ [fillSample] ++ longTail) => (facts.parsed one member).1
  have ids := facts.head
  have fill := facts.fill.1
  simp only [longHead, List.map_cons, List.map_nil, List.cons.injEq, and_true] at ids
  rw [settled, first_records]
  simp only [longHead, linesOf, List.replicate_succ, List.map_cons, List.map_nil, List.cons_append, List.nil_append,
    List.takeWhile_cons, waits, parsed callSample (by simp [longHead]), parsed argSample (by simp [longHead]),
    parsed fillSample (by simp), ids, fill, heldCall, heldFill, Bool.not_false, Bool.not_true, if_true, if_false,
    Bool.false_eq_true]

theorem first_call {count : Nat} (full : count + 1 + 2 = maxLines) (small : (count + 1) * 37 + 212 < maxChunk) :
    settledAt (longFile (count + 1)) 0 1000000 = linesOf longHead ∧
      passedAt (longFile (count + 1)) 0 1000000 = [headRecords] := by
  have facts := sample_facts
  have window := first_window full small
  have short : stopsShort (longFile (count + 1)) 0 = true := by
    have tail := facts.sizes.2.1
    rw [stopsShort, window, decide_eq_true_eq]
    simp only [LogFile.size, longFile, longLog, linesOf, List.map_append, List.flatten_append, List.length_append] at tail ⊢
    omega
  have first := first_settled count
  refine ⟨by rw [settledAt, short, window, first], ?_⟩
  have apart := members_call (count + 1) headRecords (fun r member => List.mem_append_left _ member)
  have ids := facts.headKeys
  have head : records (linesOf longHead) = headRecords :=
    records_linesOf fun one member => by simp only [List.mem_append]; exact Or.inl (Or.inl member)
  rw [passedAt, short, window, passedOn, first, first_records, head, ids]
  simp only [List.map_cons, List.map_nil, members_append, apart, List.append_nil]

def restOf (count : Nat) : List Sample := List.replicate count fillSample ++ longTail

theorem second_call {count : Nat} (full : count + 1 + 2 = maxLines) (small : (count + 1) * 37 + 212 < maxChunk) :
    settledAt (longFile (count + 1)) 142 1000000 = linesOf (restOf (count + 1)) ∧
      passedAt (longFile (count + 1)) 142 1000000 = [fillRecords (count + 1), tailRecords] := by
  have facts := sample_facts
  have known : Known (restOf (count + 1)) := fun one member => known_longLog (count + 1) one (List.mem_append_right _ member)
  have rest : (longFile (count + 1)).content.drop 142 = (linesOf (restOf (count + 1))).flatten := by
    rw [longFile_split, ← facts.sizes.1, List.drop_left]
    rfl
  have size : (linesOf (restOf (count + 1))).flatten.length = (count + 1) * 37 + 70 := by
    have sizes := facts.sizes
    have fill := flatten_fill (count + 1)
    simp only [restOf, linesOf, List.map_append, List.flatten_append, List.length_append] at sizes fill ⊢
    rw [fill, sizes.2.1, sizes.2.2]
  have window : windowAt (longFile (count + 1)) 142 = linesOf (restOf (count + 1)) := by
    rw [windowAt, rest, completeLines_linesOf known, SshLogger.window, windowFrom_take (by omega)]
    exact List.take_of_length_le (by simp [restOf, linesOf, longTail, ← full])
  have short : stopsShort (longFile (count + 1)) 142 = false := by
    have whole := congrArg List.length (longFile_split (count + 1))
    rw [List.length_append, facts.sizes.1] at whole
    rw [stopsShort, window, decide_eq_false_iff_not, Nat.not_lt]
    exact Nat.le_of_eq whole
  have rows : records (linesOf (restOf (count + 1))) = fillRecords (count + 1) ++ tailRecords := by
    rw [records_linesOf known, restOf, List.map_append, List.map_replicate]
    rfl
  have all : settled (1000000 - 3000) false (linesOf (restOf (count + 1))) = linesOf (restOf (count + 1)) := by
    apply settled_all
    intro r member
    rw [rows] at member
    rcases List.mem_append.mp member with inFill | inTail
    · rw [List.eq_of_mem_replicate inFill, facts.fill.2.1]
      decide
    · rw [(facts.command r (List.mem_append_right _ inTail)).2]
      decide
  refine ⟨by rw [settledAt, short, window, all], ?_⟩
  have apart := members_call (count + 1) tailRecords (fun r member => List.mem_append_right _ member)
  have whole : members Record.id (Bytes.utf8 "1.000:2") (fillRecords (count + 1)) = fillRecords (count + 1) :=
    List.filter_eq_self.mpr fun r member => by simp [List.eq_of_mem_replicate member, facts.fill.1]
  have ids : keys Record.id (fillRecords (count + 1) ++ tailRecords) = [Bytes.utf8 "1.000:2", Bytes.utf8 "1.000:1"] := by
    rw [keys_append, keys_fill, facts.tailKeys]
    simp [facts.apart]
  rw [passedAt, short, window, passedOn, all, rows, ids]
  simp only [List.map_cons, List.map_nil, members_append, apart, whole, List.append_nil, List.nil_append]

theorem fill_events (count : Nat) : eventsFor (fillRecords (count + 1)) (Bytes.utf8 "b") id = [] := by
  have facts := sample_facts
  have plain : sshEvent fillSample.record (Bytes.utf8 "b") id fillSample.record = none :=
    (facts.parsed fillSample (by simp)).2.2.2
  have kind := facts.fill.2.2.2
  have command : execEvent fillSample.record (Bytes.utf8 "b") id (fillRecords (count + 1)) = none :=
    execEvent_eq_none (by simp [hasExec, fillRecords, kind])
  simp only [fillRecords, List.replicate_succ] at command ⊢
  simp [eventsFor, command, plain, List.filterMap_replicate_of_none]

theorem long_records (count : Nat) : recordsFrom (longFile count) 0 = headRecords ++ (fillRecords count ++ tailRecords) := by
  have lines : completeLines (longFile count).content = linesOf (longLog count) := completeLines_linesOf (known_longLog count)
  rw [recordsFrom, List.drop_zero, lines, records_linesOf (known_longLog count)]
  simp [longLog, headRecords, fillRecords, tailRecords]

theorem torn_not_oneShot {count : Nat} : ∀ ev ∈ tornEvents, ev ∉ oneShot longAgent (longFile (count + 1)) := by
  have facts := sample_facts
  intro ev torn whole
  have known : ∀ r ∈ recordsFrom (longFile (count + 1)) 0, r ∈ headRecords ++ tailRecords ∨ r = fillSample.record := by
    intro r member
    rw [long_records] at member
    simp only [List.mem_append, fillRecords, List.mem_replicate] at member ⊢
    rcases member with inHead | ⟨_, same⟩ | inTail
    · exact Or.inl (Or.inl inHead)
    · exact Or.inr same
    · exact Or.inl (Or.inr inTail)
  rcases mem_oneShot.mp whole with ⟨r, member, made⟩ | ⟨r, member, made⟩
  · have plain : sshEvent r (Bytes.utf8 "b") id r = none := by
      rcases known r member with inside | rfl
      · obtain ⟨one, there, rfl⟩ : ∃ one ∈ longHead ++ longTail, one.record = r := by
          simpa [headRecords, tailRecords, ← List.map_append] using inside
        have listed : one ∈ longHead ++ [fillSample] ++ longTail := by
          rcases List.mem_append.mp there with inHead | inTail
          · exact List.mem_append_left _ (List.mem_append_left _ inHead)
          · exact List.mem_append_right _ inTail
        exact (facts.parsed one listed).2.2.2
      · exact (facts.parsed fillSample (by simp)).2.2.2
    rw [show sshEvent r longAgent.boot longAgent.lookup r = none from plain] at made
    cases made
  · have first := members_call (count + 1) headRecords (fun r member => List.mem_append_left _ member)
    have last := members_call (count + 1) tailRecords (fun r member => List.mem_append_right _ member)
    rw [long_records] at made
    rcases known r member with inside | rfl
    · rw [(facts.command r inside).1, members_append, members_append, first.1, first.2.1, last.2.1, List.nil_append] at made
      exact facts.torn.2 ev torn r inside made
    · have kind := facts.fill.2.2.2
      rw [facts.fill.1, members_append, members_append, first.2.2, last.2.2, List.nil_append, List.append_nil,
        execEvent_eq_none] at made
      · cases made
      · simp only [hasExec, Bool.and_eq_false_iff, List.any_eq_false]
        refine Or.inl fun other inside => ?_
        rw [List.eq_of_mem_replicate (mem_members.mp inside).1, kind]
        decide

theorem long_fits {count : Nat} : ∀ line ∈ completeLines (longFile count).content, line.length ≤ maxLine := by
  have facts := sample_facts
  intro line member
  rw [show completeLines (longFile count).content = linesOf (longLog count) from
    completeLines_linesOf (known_longLog count)] at member
  obtain ⟨one, inside, rfl⟩ := List.mem_map.mp member
  exact facts.lengths one (known_longLog count one inside)

theorem window_fits {count : Nat} (offset : Nat) :
    ∀ line ∈ windowAt (longFile (count + 1)) offset, line.length ≤ maxLine := by
  intro line member
  obtain ⟨whole, inside, le⟩ := (completeLines_drop_le (longFile (count + 1)).content offset).2 line
    ((windowAt_isPrefix (longFile (count + 1)) offset).subset member)
  exact Nat.le_trans le (long_fits whole inside)

theorem commit_dropped (s : Spool) (cp : Checkpoint) (events : List Event) : (s.commit cp events true).cp.dropped =
    (offerAll s.limit ⟨s.db.queue, queuedSize s.db.queue, cp.dropped⟩ events).dropped := rfl

theorem first_torn {count : Nat} (full : count + 1 + 2 = maxLines) (small : (count + 1) * 37 + 212 < maxChunk) :
    offeredBy longAgent (longWritten (count + 1)) (.collect 1000000 true true) = tornEvents ∧
      Attached longAgent (longFirst (count + 1)) ∧ ((longFirst (count + 1)).start longAgent).offset = 142 ∧
      ((longFirst (count + 1)).start longAgent).dropped = 0 := by
  have facts := sample_facts
  have start : (longWritten (count + 1)).start longAgent = ⟨"1:1", 0, Bytes.utf8 "b", 0⟩ := by
    simp [World.start, attach, longWritten, longStart, openSpool, noCheckpoint, longAgent, World.dir, longFile]
  have fresh : (attach longAgent (longWritten (count + 1)).spool.cp (longWritten (count + 1)).dir).2 = true := rfl
  have current : (longWritten (count + 1)).current = longFile (count + 1) := rfl
  obtain ⟨settled, passed⟩ := first_call full small
  obtain ⟨stored, offered, moved⟩ := (attached_written (count + 1)).stores 1000000 (window_fits _)
  have events : (passedAt (longFile (count + 1)) 0 1000000).flatMap
      (fun rows => eventsFor rows longAgent.boot longAgent.lookup) = tornEvents := by
    rw [passed]
    exact List.append_nil _
  rw [start, current] at offered moved
  rw [start, current, events, if_pos fresh] at stored
  have attached := ((attached_written (count + 1)).collect 1000000 true true).1
  have cp : (longFirst (count + 1)).spool.cp.inode = "1:1" ∧ (longFirst (count + 1)).spool.cp.dropped = 0 := by
    rw [longFirst, stored, commit_dropped]
    exact ⟨rfl, facts.admitted⟩
  have named : (longFirst (count + 1)).spool.cp.inode ≠ "" := by
    rw [cp.1]
    decide
  refine ⟨offered.trans events, attached, ?_, ?_⟩
  · rw [longFirst, moved, settled, facts.sizes.1]
  · exact (congrArg Checkpoint.dropped (attached.start.2.1 named)).trans cp.2

theorem second_ends {count : Nat} (full : count + 1 + 2 = maxLines) (small : (count + 1) * 37 + 212 < maxChunk) :
    (longSecond (count + 1)).spool.cp.dropped = 0 ∧ AtEnd longAgent (longSecond (count + 1)) := by
  have facts := sample_facts
  obtain ⟨_, attached, offset, dropped⟩ := first_torn full small
  obtain ⟨settled, passed⟩ := second_call full small
  have current : (longFirst (count + 1)).current = longFile (count + 1) := rfl
  have fits : ∀ line ∈ windowAt (longFirst (count + 1)).current ((longFirst (count + 1)).start longAgent).offset,
    line.length ≤ maxLine := window_fits _
  obtain ⟨stored, _, moved⟩ := attached.stores 1000000 fits
  have events : (passedAt (longFile (count + 1)) 142 1000000).flatMap
      (fun rows => eventsFor rows longAgent.boot longAgent.lookup) = [] := by
    have fill := fill_events count
    have tail := facts.tail
    rw [passed]
    simp only [longAgent, List.flatMap_cons, List.flatMap_nil, fill, tail, List.append_nil]
  rw [offset, current, settled] at moved
  rw [offset, current, events] at stored
  have ended : ((longSecond (count + 1)).start longAgent).offset = (longFile (count + 1)).content.length := by
    have whole := congrArg List.length (longFile_split (count + 1))
    rw [List.length_append, facts.sizes.1] at whole
    rw [longSecond, moved, whole]
    rfl
  refine ⟨?_, ?_⟩
  · rw [longSecond, stored, commit_nothing]
    exact dropped
  · rw [AtEnd, ended, show (longSecond (count + 1)).current = longFile (count + 1) from rfl, List.drop_length]
    rfl

def shortHistory : List (Transition World LogAction) :=
  [⟨longWritten 0, .collect 1000000 true true, longFirst 0⟩, ⟨longStart, .append (longFile 0).content, longWritten 0⟩]

/-- Without the long group the command is offered whole. -/
theorem incremental_collection_short : AtEnd longAgent (longFirst 0) ∧
    ∀ ev, Offered longAgent shortHistory ev ↔ ev ∈ oneShot longAgent (longFirst 0).current := by
  have run : Run (logSystem longAgent (freshLog longAgent)) shortHistory (longFirst 0) := by
    refine .next (.next (.start ⟨rfl, by decide, Or.inl ⟨rfl, rfl⟩⟩) ?_) rfl
    simp [logSystem, logStep, longWritten, longStart, longFile]
  have appended : AppendOnly shortHistory := by
    intro t member inode
    simp only [shortHistory, List.mem_cons, List.not_mem_nil, or_false] at member
    rcases member with rfl | rfl <;> simp
  have whole : ¬Torn longAgent (longFirst 0).current (longWritten 0) 1000000 := by
    unfold Torn
    decide +kernel
  have untorn : Untorn longAgent (longFirst 0).current shortHistory := by
    intro t member now committed stored action
    simp only [shortHistory, List.mem_cons, List.not_mem_nil, or_false] at member
    rcases member with rfl | rfl
    · obtain ⟨rfl, -, -⟩ := LogAction.collect.inj action
      exact whole
    · cases action
  have ended : AtEnd longAgent (longFirst 0) := by
    unfold AtEnd
    decide +kernel
  obtain ⟨sound, complete, _⟩ := incremental_collection run appended untorn
  exact ⟨ended, fun ev => ⟨sound ev, complete ended ev⟩⟩

/-- Two calls read a log in which a group of 9998 lines lies between the two
argument records of a command. Every group is complete and old, yet a command
with half its arguments is offered. -/
theorem long_group_tears_command : ∃ (c : Collector) (history : List (Transition World LogAction)) (w : World),
    Run (logSystem c (freshLog c)) history w ∧ AppendOnly history ∧
    (∀ line ∈ completeLines w.current.content, line.length ≤ maxLine) ∧ w.spool.cp.dropped = 0 ∧
    (∀ t ∈ history, ∀ now committed stored, t.action = .collect now committed stored →
      t.before.current = w.current ∧ ∀ r ∈ recordsFrom w.current 0, r.time ≤ now - 3000) ∧
    AtEnd c w ∧ ¬∀ ev, Offered c history ev ↔ ev ∈ oneShot c w.current := by
  have facts := sample_facts
  have full : 9997 + 1 + 2 = maxLines := rfl
  have small : (9997 + 1) * 37 + 212 < maxChunk := by decide
  generalize 9997 = count at full small
  obtain ⟨offered, -⟩ := first_torn full small
  obtain ⟨kept, ended⟩ := second_ends full small
  have current : (longSecond (count + 1)).current = longFile (count + 1) := rfl
  have times : ∀ r ∈ recordsFrom (longFile (count + 1)) 0, r.time = 1000 := by
    intro r member
    simp only [long_records, List.mem_append, fillRecords, List.mem_replicate] at member
    rcases member with inHead | ⟨_, rfl⟩ | inTail
    · exact (facts.command r (List.mem_append_left _ inHead)).2
    · exact facts.fill.2.1
    · exact (facts.command r (List.mem_append_right _ inTail)).2
  refine ⟨longAgent, longHistory (count + 1), _, longRun (count + 1), ?_, long_fits, kept, ?_, ended, ?_⟩
  · intro t member inode
    simp only [longHistory, List.mem_cons, List.not_mem_nil, or_false] at member
    rcases member with rfl | rfl | rfl <;> simp
  · intro t member now committed stored action
    simp only [longHistory, List.mem_cons, List.not_mem_nil, or_false] at member
    rcases member with rfl | rfl | rfl
    · obtain ⟨rfl, -, -⟩ := LogAction.collect.inj action
      exact ⟨rfl, fun r inside => by rw [times r inside]; decide⟩
    · obtain ⟨rfl, -, -⟩ := LogAction.collect.inj action
      exact ⟨rfl, fun r inside => by rw [times r inside]; decide⟩
    · cases action
  · intro same
    obtain ⟨ev, torn⟩ := List.exists_mem_of_ne_nil _ facts.torn.1
    have given : Offered longAgent (longHistory (count + 1)) ev :=
      ⟨_, List.mem_cons_of_mem _ List.mem_cons_self, offered ▸ torn⟩
    exact torn_not_oneShot ev torn ((same ev).mp given)

end SshLogger
