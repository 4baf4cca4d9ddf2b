import SshLogger.Collect
import SshLogger.Library.Grouping
import Mathlib.Data.List.TakeWhile

/-! One read of the audit log, in terms of lines. The read loop sees a window of
the complete lines after the checkpoint; the lines before the first line of a
held group are settled, and every group that begins among them is passed on. -/

namespace SshLogger
open Library Library.Lines Library.Grouping

def records (lines : List Bytes) : List Record := lines.filterMap parseRecord

@[simp] theorem records_append (first second : List Bytes) :
    records (first ++ second) = records first ++ records second := by
  simp [records]

/-- The lines one call may read: at most `remaining` of them, and none once
`maxChunk` bytes have been read. -/
def windowFrom : Nat → Nat → List Bytes → List Bytes
  | 0, _, _ => []
  | _ + 1, _, [] => []
  | remaining + 1, size, line :: rest =>
    if size < maxChunk then line :: windowFrom remaining (size + line.length) rest else []

def window (lines : List Bytes) : List Bytes := windowFrom maxLines 0 lines

def isEnd (r : Record) : Bool := r.kind == Bytes.utf8 "EOE"

/-- A group of the window that waits for a later call: it has no end record, and
it is recent or the last one to begin in a window that stops `short` of the
file's end. -/
def isHeld (cutoff : Int) (short : Bool) (rows : List Record) (id : Bytes) : Bool :=
  !(members Record.id id rows).any isEnd &&
    ((members Record.id id rows).head?.any (fun r => r.time > cutoff) ||
      short && (keys Record.id rows).getLast? == some id)

def waits (cutoff : Int) (short : Bool) (rows : List Record) (line : Bytes) : Bool :=
  match parseRecord line with
  | none => false
  | some r => isHeld cutoff short rows r.id

/-- The lines of a window that lie before the next checkpoint. -/
def settled (cutoff : Int) (short : Bool) (lines : List Bytes) : List Bytes :=
  lines.takeWhile fun line => !waits cutoff short (records lines) line

theorem windowFrom_isPrefix (remaining size : Nat) (lines : List Bytes) : windowFrom remaining size lines <+: lines := by
  induction remaining generalizing size lines with
  | zero => simp [windowFrom]
  | succ remaining ih =>
    cases lines with
    | nil => simp [windowFrom]
    | cons line rest =>
      simp only [windowFrom]
      split
      · exact List.prefix_cons_inj line |>.mpr (ih _ _)
      · exact List.nil_prefix

theorem window_isPrefix (lines : List Bytes) : window lines <+: lines := windowFrom_isPrefix _ _ _

theorem settled_isPrefix (cutoff : Int) (short : Bool) (lines : List Bytes) : settled cutoff short lines <+: lines :=
  List.takeWhile_prefix _

/-- The first line of a group stands at `start`, counted from `base`. -/
def Starts (base : Nat) (lines : List Bytes) (id : Bytes) (start : Nat) : Prop :=
  ∃ before line after, lines = before ++ line :: after ∧ start = base + before.flatten.length ∧
    (parseRecord line).map Record.id = some id ∧ id ∉ keys Record.id (records before)

theorem Starts.append {base : Nat} {lines : List Bytes} {id : Bytes} {start : Nat} (starts : Starts base lines id start)
    (more : List Bytes) : Starts base (lines ++ more) id start := by
  obtain ⟨before, line, after, rfl, place⟩ := starts
  exact ⟨before, line, after ++ more, by simp, place⟩

/-- The group map after some lines, the first of which stands at `base`. -/
structure Grouped (base : Nat) (lines : List Bytes) (groups : Groups) : Prop where
  order : groups.map Prod.fst = keys Record.id (records lines)
  whole : ∀ id g, (id, g) ∈ groups → g.records = members Record.id id (records lines)
  ended : ∀ id g, (id, g) ∈ groups → g.ended = g.records.any isEnd
  start : ∀ id g, (id, g) ∈ groups → Starts base lines id g.start

theorem addRecord_fresh {start : Nat} {r : Record} {groups : Groups} (fresh : r.id ∉ groups.map Prod.fst) :
    addRecord start r groups = groups ++ [(r.id, ⟨r, [], start, isEnd r⟩)] := by
  induction groups with
  | nil => rfl
  | cons entry rest ih =>
    simp only [List.map_cons, List.mem_cons, not_or] at fresh
    simp [addRecord, Ne.symm fresh.1, ih fresh.2]

def Group.add (g : Group) (r : Record) : Group := { g with more := g.more ++ [r], ended := g.ended || isEnd r }

theorem addRecord_ids {start : Nat} {r : Record} {groups : Groups} (seen : r.id ∈ groups.map Prod.fst) :
    (addRecord start r groups).map Prod.fst = groups.map Prod.fst := by
  induction groups with
  | nil => simp at seen
  | cons entry rest ih =>
    by_cases same : entry.1 = r.id
    · simp [addRecord, same]
    · have later : r.id ∈ rest.map Prod.fst := by simpa [Ne.symm same] using seen
      simp [addRecord, same, ih later]

theorem mem_addRecord {start : Nat} {r : Record} {groups : Groups} (seen : r.id ∈ groups.map Prod.fst)
    (distinct : (groups.map Prod.fst).Nodup) {id : Bytes} {g : Group} (member : (id, g) ∈ addRecord start r groups) :
    (id ≠ r.id ∧ (id, g) ∈ groups) ∨ (id = r.id ∧ ∃ old, (id, old) ∈ groups ∧ g = old.add r) := by
  induction groups with
  | nil => simp at seen
  | cons entry rest ih =>
    obtain ⟨first, old⟩ := entry
    simp only [List.map_cons, List.nodup_cons] at distinct
    by_cases same : first = r.id
    · subst same
      simp only [addRecord, if_true, List.mem_cons] at member
      rcases member with here | later
      · obtain ⟨rfl, rfl⟩ := Prod.mk.inj here
        exact Or.inr ⟨rfl, old, by simp, rfl⟩
      · refine Or.inl ⟨?_, by simp [later]⟩
        rintro rfl
        exact distinct.1 (List.mem_map_of_mem later)
    · have other : r.id ∈ rest.map Prod.fst := by simpa [Ne.symm same] using seen
      simp only [addRecord, same, if_false, List.mem_cons] at member
      rcases member with here | later
      · obtain ⟨rfl, rfl⟩ := Prod.mk.inj here
        exact Or.inl ⟨same, by simp⟩
      · rcases ih other distinct.2 later with ⟨different, found⟩ | ⟨equal, found, inside, changed⟩
        · exact Or.inl ⟨different, by simp [found]⟩
        · exact Or.inr ⟨equal, found, by simp [inside], changed⟩

theorem Grouped.nil (base : Nat) : Grouped base [] [] := by
  constructor <;> simp [records, keys]

private theorem records_singleton {line : Bytes} {r : Record} (parsed : parseRecord line = some r) :
    records [line] = [r] := by
  simp [records, parsed]

theorem Grouped.addLine {base : Nat} {lines : List Bytes} {groups : Groups} (grouped : Grouped base lines groups)
    (line : Bytes) : Grouped base (lines ++ [line]) (addLine (base + lines.flatten.length) line groups) := by
  cases parsed : parseRecord line with
  | none =>
    have same : records (lines ++ [line]) = records lines := by simp [records, parsed]
    simp only [SshLogger.addLine, parsed]
    exact ⟨same ▸ grouped.order, same ▸ grouped.whole, grouped.ended,
      fun id g member => (grouped.start id g member).append [line]⟩
  | some r =>
    have more : records (lines ++ [line]) = records lines ++ [r] := by rw [records_append, records_singleton parsed]
    simp only [SshLogger.addLine, parsed]
    by_cases seen : r.id ∈ keys Record.id (records lines)
    · have present : r.id ∈ groups.map Prod.fst := grouped.order ▸ seen
      have distinct : (groups.map Prod.fst).Nodup := grouped.order ▸ keys_nodup _
      have cases := fun id g => @mem_addRecord (base + lines.flatten.length) _ _ present distinct id g
      refine ⟨?_, ?_, ?_, ?_⟩
      · rw [addRecord_ids present, more, keys_concat_of_mem seen, grouped.order]
      · intro id g member
        rcases cases id g member with ⟨different, found⟩ | ⟨rfl, old, found, rfl⟩
        · simp [more, grouped.whole id g found, members, Ne.symm different]
        · have whole := grouped.whole _ old found
          simp only [Group.records] at whole
          rw [more, members_append, ← whole]
          simp [Group.records, Group.add, members]
      · intro id g member
        rcases cases id g member with ⟨_, found⟩ | ⟨_, old, found, rfl⟩
        · exact grouped.ended id g found
        · have ended := grouped.ended _ old found
          simp only [Group.records] at ended
          simp [Group.add, Group.records, ended, Bool.or_assoc]
      · intro id g member
        rcases cases id g member with ⟨_, found⟩ | ⟨_, old, found, rfl⟩
        · exact (grouped.start id g found).append [line]
        · exact (grouped.start id old found).append [line]
    · have fresh : r.id ∉ groups.map Prod.fst := grouped.order ▸ seen
      have cases : ∀ id g, (id, g) ∈ groups ++ [(r.id, ⟨r, [], base + lines.flatten.length, isEnd r⟩)] →
          (id ≠ r.id ∧ (id, g) ∈ groups) ∨ (id = r.id ∧ g = ⟨r, [], base + lines.flatten.length, isEnd r⟩) := by
        intro id g member
        rcases List.mem_append.mp member with earlier | added
        · refine Or.inl ⟨?_, earlier⟩
          rintro rfl
          exact fresh (List.mem_map_of_mem earlier)
        · exact Or.inr (Prod.mk.inj (List.mem_singleton.mp added))
      rw [addRecord_fresh fresh]
      refine ⟨?_, ?_, ?_, ?_⟩
      · rw [more, keys_concat_of_not_mem seen, List.map_append, grouped.order]
        rfl
      · intro id g member
        rcases cases id g member with ⟨different, found⟩ | ⟨rfl, rfl⟩
        · simp [more, grouped.whole id g found, members, Ne.symm different]
        · rw [more, members_append, members_eq_nil seen]
          simp [Group.records, members]
      · intro id g member
        rcases cases id g member with ⟨_, found⟩ | ⟨_, rfl⟩
        · exact grouped.ended id g found
        · simp [Group.records]
      · intro id g member
        rcases cases id g member with ⟨_, found⟩ | ⟨rfl, rfl⟩
        · exact (grouped.start id g found).append [line]
        · exact ⟨lines, line, [], rfl, rfl, by simp [parsed], seen⟩

/-- A window is read unless one of its lines is too long. -/
theorem readLoop_window (remaining base : Nat) (seen : List Bytes) (groups : Groups) (lines : List Bytes)
    (grouped : Grouped base seen groups) :
    (∃ problem, readLoop remaining base (base + seen.flatten.length) groups lines = .error problem ∧
      ∃ line ∈ windowFrom remaining seen.flatten.length lines, maxLine < line.length) ∨
    ∃ out, Grouped base (seen ++ windowFrom remaining seen.flatten.length lines) out ∧
      readLoop remaining base (base + seen.flatten.length) groups lines =
        .ok (base + (seen ++ windowFrom remaining seen.flatten.length lines).flatten.length, out) := by
  induction remaining generalizing seen groups lines with
  | zero => exact Or.inr ⟨groups, by simpa [windowFrom] using grouped, by simp [readLoop, windowFrom]⟩
  | succ remaining ih =>
    cases lines with
    | nil => exact Or.inr ⟨groups, by simpa [windowFrom] using grouped, by simp [readLoop, windowFrom]⟩
    | cons line rest =>
      simp only [readLoop, windowFrom, Nat.add_sub_cancel_left]
      split
      · split
        next long => exact Or.inl ⟨_, rfl, line, by simp, long⟩
        next fits =>
          have longer : (seen ++ [line]).flatten.length = seen.flatten.length + line.length := by simp
          have later := ih (seen ++ [line]) _ rest (grouped.addLine line)
          simp only [longer, ← Nat.add_assoc, List.append_assoc, List.singleton_append] at later
          rcases later with ⟨problem, failed, other, member, long⟩ | done
          · exact Or.inl ⟨problem, failed, other, List.mem_cons_of_mem _ member, long⟩
          · exact Or.inr done
      · exact Or.inr ⟨groups, by simpa using grouped, by simp⟩

theorem flatten_length_mono {first second : List Bytes} (shorter : first <+: second) :
    first.flatten.length ≤ second.flatten.length := by
  obtain ⟨rest, rfl⟩ := shorter
  simp

/-- Whether the group map's loop holds an entry back. -/
def heldEntry (cutoff : Int) (short : Bool) (groups : Groups) (entry : Bytes × Group) : Bool :=
  isOpen cutoff entry.2 || (short && !entry.2.ended && (groups.getLast?.map Prod.fst == some entry.1))

theorem Grouped.held {base : Nat} {lines : List Bytes} {groups : Groups} (grouped : Grouped base lines groups)
    {id : Bytes} {g : Group} (member : (id, g) ∈ groups) (cutoff : Int) (short : Bool) :
    heldEntry cutoff short groups (id, g) = isHeld cutoff short (records lines) id := by
  have whole := grouped.whole id g member
  have last : groups.getLast?.map Prod.fst = (keys Record.id (records lines)).getLast? := by
    rw [← grouped.order, List.getLast?_map]
  simp only [heldEntry, isHeld, isOpen, last, ← whole, grouped.ended id g member, Group.records, List.head?_cons,
    Option.any_some]
  cases (g.first :: g.more).any isEnd <;> cases short <;> simp

private theorem least_start (cutoff : Int) (groups : Groups) (offset : Nat) :
    groups.foldl (holdBack cutoff) offset ≤ offset ∧
    (∀ entry ∈ groups, isOpen cutoff entry.2 = true → groups.foldl (holdBack cutoff) offset ≤ entry.2.start) ∧
    (groups.foldl (holdBack cutoff) offset = offset ∨
      ∃ entry ∈ groups, isOpen cutoff entry.2 = true ∧ groups.foldl (holdBack cutoff) offset = entry.2.start) := by
  induction groups generalizing offset with
  | nil => simp
  | cons entry rest ih =>
    obtain ⟨below, least, reached⟩ := ih (holdBack cutoff offset entry)
    have first : holdBack cutoff offset entry ≤ offset ∧
        (isOpen cutoff entry.2 = true → holdBack cutoff offset entry ≤ entry.2.start) ∧
        (holdBack cutoff offset entry = offset ∨
          isOpen cutoff entry.2 = true ∧ holdBack cutoff offset entry = entry.2.start) := by
      cases growing : isOpen cutoff entry.2 with
      | false => simp [holdBack, growing]
      | true => simp only [holdBack, growing, Bool.true_and, decide_eq_true_eq]; split <;> simp <;> omega
    simp only [List.foldl_cons]
    refine ⟨Nat.le_trans below first.1, ?_, ?_⟩
    · intro other member growing
      rcases List.mem_cons.mp member with rfl | member
      · exact Nat.le_trans below (first.2.1 growing)
      · exact least other member growing
    · rcases reached with same | ⟨other, member, rest⟩
      · rcases first.2.2 with kept | ⟨growing, lowered⟩
        · exact Or.inl (same.trans kept)
        · exact Or.inr ⟨entry, by simp, growing, same.trans lowered⟩
      · exact Or.inr ⟨other, by simp [member], rest⟩

/-- The safe offset is the least start of a held entry, or the end of the window. -/
theorem safeOffset_least (cutoff : Int) (size offset : Nat) (groups : Groups)
    (distinct : (groups.map Prod.fst).Nodup) :
    safeOffset cutoff size offset groups ≤ offset ∧
    (∀ entry ∈ groups, heldEntry cutoff (offset < size) groups entry = true →
      safeOffset cutoff size offset groups ≤ entry.2.start) ∧
    (safeOffset cutoff size offset groups = offset ∨
      ∃ entry ∈ groups, heldEntry cutoff (offset < size) groups entry = true ∧
        safeOffset cutoff size offset groups = entry.2.start) := by
  obtain ⟨below, least, reached⟩ := least_start cutoff groups offset
  have early : groups.foldl (holdBack cutoff) offset = offset ∨
      ∃ entry ∈ groups, heldEntry cutoff (offset < size) groups entry = true ∧
        groups.foldl (holdBack cutoff) offset = entry.2.start := by
    rcases reached with same | ⟨entry, member, growing, same⟩
    · exact Or.inl same
    · exact Or.inr ⟨entry, member, by simp [heldEntry, growing], same⟩
  cases final : groups.getLast? with
  | none =>
    rw [List.getLast?_eq_none_iff] at final
    subst final
    simp [safeOffset]
  | some last =>
    have member : last ∈ groups := List.mem_of_getLast? final
    have only : ∀ entry ∈ groups, entry.1 = last.1 → entry = last :=
      fun entry inside same => List.inj_on_of_nodup_map distinct inside member same
    have lastHeld : ∀ entry ∈ groups, heldEntry cutoff (offset < size) groups entry = true →
        isOpen cutoff entry.2 = true ∨ (offset < size ∧ last.2.ended = false ∧ entry = last) := by
      intro entry inside held
      simp only [heldEntry, final, Option.map_some, Bool.or_eq_true, Bool.and_eq_true, decide_eq_true_eq,
        Bool.not_eq_true', beq_iff_eq, Option.some.injEq] at held
      rcases held with growing | ⟨⟨short, unfinished⟩, same⟩
      · exact Or.inl growing
      · have equal := only entry inside same.symm
        exact Or.inr ⟨short, equal ▸ unfinished, equal⟩
    simp only [safeOffset, final]
    split
    next lowered =>
      simp only [Bool.and_eq_true, decide_eq_true_eq, Bool.not_eq_true'] at lowered
      refine ⟨by omega, ?_, Or.inr ⟨last, member, by simp [heldEntry, final, lowered], rfl⟩⟩
      intro entry inside held
      rcases lastHeld entry inside held with growing | ⟨_, _, rfl⟩
      · exact Nat.le_trans (Nat.le_of_lt lowered.2) (least entry inside growing)
      · exact Nat.le_refl _
    next kept =>
      simp only [Bool.and_eq_true, decide_eq_true_eq, Bool.not_eq_true', not_and, Nat.not_lt] at kept
      refine ⟨below, ?_, early⟩
      intro entry inside held
      rcases lastHeld entry inside held with growing | ⟨short, unfinished, rfl⟩
      · exact least entry inside growing
      · exact kept ⟨short, unfinished⟩

@[simp] theorem parseRecord_nil : parseRecord [] = none := rfl

theorem keys_of_line {lines : List Bytes} {line id : Bytes} (member : line ∈ lines)
    (named : (parseRecord line).map Record.id = some id) : id ∈ keys Record.id (records lines) := by
  obtain ⟨r, parsed, same⟩ := Option.map_eq_some_iff.mp named
  exact mem_keys.mpr ⟨r, List.mem_filterMap.mpr ⟨line, member, parsed⟩, same⟩

theorem line_of_keys {lines : List Bytes} {id : Bytes} (member : id ∈ keys Record.id (records lines)) :
    ∃ line ∈ lines, (parseRecord line).map Record.id = some id := by
  obtain ⟨r, inside, same⟩ := mem_keys.mp member
  obtain ⟨line, there, parsed⟩ := List.mem_filterMap.mp inside
  exact ⟨line, there, by simp [parsed, same]⟩

/-- A group begins among the first lines exactly when it starts before their end. -/
theorem Starts.lt_iff {base : Nat} {lines first : List Bytes} {id : Bytes} {start : Nat}
    (starts : Starts base lines id start) (part : first <+: lines) :
    start < base + first.flatten.length ↔ id ∈ keys Record.id (records first) := by
  obtain ⟨before, line, after, rfl, rfl, named, fresh⟩ := starts
  have size : 0 < line.length := by
    cases line with
    | nil => simp at named
    | cons _ _ => simp
  constructor
  · intro earlier
    rcases List.prefix_or_prefix_of_prefix part (List.prefix_append before (line :: after)) with inside | ⟨rest, rfl⟩
    · have := flatten_length_mono inside
      omega
    · cases rest with
      | nil => simp at earlier
      | cons head rest =>
        obtain ⟨rfl, _⟩ := List.cons_prefix_cons.mp ((List.prefix_append_right_inj before).mp part)
        exact keys_of_line (by simp) named
  · intro inside
    rcases List.prefix_or_prefix_of_prefix part (List.prefix_append before (line :: after)) with ⟨rest, rfl⟩ | ⟨rest, rfl⟩
    · exact absurd (by simp [keys_append, inside]) fresh
    · cases rest with
      | nil => exact absurd (by simpa using inside) fresh
      | cons head rest =>
        obtain ⟨rfl, _⟩ := List.cons_prefix_cons.mp ((List.prefix_append_right_inj before).mp part)
        simp only [List.flatten_append, List.flatten_cons, List.length_append]
        omega

theorem waits_of_named {cutoff : Int} {short : Bool} {rows : List Record} {line id : Bytes}
    (named : (parseRecord line).map Record.id = some id) : waits cutoff short rows line = isHeld cutoff short rows id := by
  obtain ⟨r, parsed, rfl⟩ := Option.map_eq_some_iff.mp named
  simp [waits, parsed]

theorem not_held_of_settled {cutoff : Int} {short : Bool} {lines : List Bytes} {id : Bytes}
    (member : id ∈ keys Record.id (records (settled cutoff short lines))) :
    isHeld cutoff short (records lines) id = false := by
  obtain ⟨line, inside, named⟩ := line_of_keys member
  have kept := List.all_eq_true.mp List.all_takeWhile line inside
  rw [waits_of_named named] at kept
  simpa using kept

/-- Nothing waits in a window without recent records that reaches the file's end. -/
theorem settled_all {cutoff : Int} {lines : List Bytes} (old : ∀ r ∈ records lines, r.time ≤ cutoff) :
    settled cutoff false lines = lines := by
  refine List.takeWhile_eq_self_iff.mpr fun line member => ?_
  cases parsed : parseRecord line with
  | none => simp [waits, parsed]
  | some r =>
    have recent : (members Record.id r.id (records lines)).head?.any (fun r => decide (r.time > cutoff)) = false := by
      cases head : (members Record.id r.id (records lines)).head? with
      | none => rfl
      | some other =>
        have := old other (mem_members.mp (List.mem_of_mem_head? head)).1
        simp [this]
    simp [waits, parsed, isHeld, recent]

/-- When a line is left over, the first one belongs to a held group that begins there. -/
theorem settled_stops {cutoff : Int} {short : Bool} {lines : List Bytes}
    (stops : settled cutoff short lines ≠ lines) :
    ∃ line after id, lines = settled cutoff short lines ++ line :: after ∧
      (parseRecord line).map Record.id = some id ∧ isHeld cutoff short (records lines) id = true := by
  have split := List.takeWhile_append_dropWhile (p := fun line => !waits cutoff short (records lines) line) (l := lines)
  cases rest : lines.dropWhile fun line => !waits cutoff short (records lines) line with
  | nil =>
    rw [rest, List.append_nil] at split
    exact absurd split stops
  | cons line after =>
    have first := List.head?_dropWhile_not (fun line => !waits cutoff short (records lines) line) lines
    rw [rest] at first split
    have waiting : waits cutoff short (records lines) line = true := by simpa using first
    cases parsed : parseRecord line with
    | none => simp [waits, parsed] at waiting
    | some r => exact ⟨line, after, r.id, split.symm, by simp [parsed], by simpa [waits, parsed] using waiting⟩

/-- The safe offset is the end of the settled lines. -/
theorem Grouped.safeOffset {base : Nat} {lines : List Bytes} {groups : Groups}
    (grouped : Grouped base lines groups) (size : Nat) (cutoff : Int) :
    SshLogger.safeOffset cutoff size (base + lines.flatten.length) groups =
      base + (settled cutoff (base + lines.flatten.length < size) lines).flatten.length := by
  have distinct : (groups.map Prod.fst).Nodup := grouped.order ▸ keys_nodup _
  obtain ⟨below, least, reached⟩ := safeOffset_least cutoff size (base + lines.flatten.length) groups distinct
  generalize short : decide (base + lines.flatten.length < size) = unread at *
  have held := fun {id g} (member : (id, g) ∈ groups) => grouped.held member cutoff unread
  have part : settled cutoff unread lines <+: lines := settled_isPrefix _ _ _
  apply Nat.le_antisymm
  · by_cases all : settled cutoff unread lines = lines
    · rw [all]
      exact below
    · obtain ⟨line, after, id, split, named, waiting⟩ := settled_stops all
      have present : id ∈ groups.map Prod.fst :=
        grouped.order ▸ keys_of_line (by rw [split]; simp) named
      obtain ⟨⟨_, g⟩, member, rfl⟩ := List.mem_map.mp present
      have atMost := least _ member ((held member).trans waiting)
      obtain ⟨before, other, rest, whole, start, _, fresh⟩ := grouped.start _ _ member
      have inside : before <+: lines := ⟨other :: rest, whole.symm⟩
      suffices before <+: settled cutoff unread lines by
        have := flatten_length_mono this
        simp only at start atMost
        omega
      rcases List.prefix_or_prefix_of_prefix inside part with shorter | ⟨extra, longer⟩
      · exact shorter
      · cases extra with
        | nil => exact ⟨[], by simpa using longer.symm⟩
        | cons head extra =>
          rw [split, ← longer] at inside
          obtain ⟨rfl, _⟩ := List.cons_prefix_cons.mp ((List.prefix_append_right_inj _).mp inside)
          exact absurd (keys_of_line (by simp [← longer]) named) fresh
  · rcases reached with same | ⟨⟨id, g⟩, member, holding, same⟩
    · have := flatten_length_mono part
      omega
    · rw [same]
      by_contra earlier
      have inside := ((grouped.start id g member).lt_iff part).mp (by simpa using earlier)
      have free := not_held_of_settled inside
      rw [held member, free] at holding
      simp at holding

/-- What a read passes on: for each id among the settled lines, its records in
the whole window. -/
def passedOn (cutoff : Int) (short : Bool) (lines : List Bytes) : List (List Record) :=
  (keys Record.id (records (settled cutoff short lines))).map fun id => members Record.id id (records lines)

theorem Grouped.passed {base : Nat} {lines : List Bytes} {groups : Groups} (grouped : Grouped base lines groups)
    (cutoff : Int) (short : Bool) :
    ((groups.map Prod.snd).filter fun g => g.start < base + (settled cutoff short lines).flatten.length).map
      Group.records = passedOn cutoff short lines := by
  have part : settled cutoff short lines <+: lines := settled_isPrefix _ _ _
  obtain ⟨rest, split⟩ := part
  have begins : ∀ entry ∈ groups,
      (decide (entry.2.start < base + (settled cutoff short lines).flatten.length)) =
        decide (entry.1 ∈ keys Record.id (records (settled cutoff short lines))) :=
    fun entry member => decide_eq_decide.mpr ((grouped.start entry.1 entry.2 member).lt_iff ⟨rest, split⟩)
  have earliest : (keys Record.id (records lines)).filter
      (· ∈ keys Record.id (records (settled cutoff short lines))) =
        keys Record.id (records (settled cutoff short lines)) := by
    conv => lhs; arg 2; rw [← split]
    rw [records_append, keys_append, List.filter_append, List.filter_eq_self.mpr (by simp), List.filter_eq_nil_iff.mpr,
      List.append_nil]
    simp
  calc ((groups.map Prod.snd).filter fun g => g.start < base + (settled cutoff short lines).flatten.length).map
        Group.records
      = (groups.filter fun entry => entry.1 ∈ keys Record.id (records (settled cutoff short lines))).map
          (fun entry => entry.2.records) := by
        rw [List.filter_map, List.map_map]
        congr 1
        exact List.filter_congr begins
    _ = (groups.filter fun entry => entry.1 ∈ keys Record.id (records (settled cutoff short lines))).map
          (fun entry => members Record.id entry.1 (records lines)) :=
        List.map_congr_left fun entry member => grouped.whole entry.1 entry.2 (List.mem_filter.mp member).1
    _ = passedOn cutoff short lines := by
        have chosen := congrArg (List.map fun id => members Record.id id (records lines)) (grouped.order ▸ earliest)
        rwa [List.filter_map, List.map_map] at chosen

/-- The complete lines a read of the file finds after the checkpoint, as far as it goes. -/
def windowAt (file : LogFile) (offset : Nat) : List Bytes := window (completeLines (file.content.drop offset))

def stopsShort (file : LogFile) (offset : Nat) : Bool :=
  offset + (windowAt file offset).flatten.length < file.size

def settledAt (file : LogFile) (offset : Nat) (now : Int) : List Bytes :=
  settled (now - 3000) (stopsShort file offset) (windowAt file offset)

def passedAt (file : LogFile) (offset : Nat) (now : Int) : List (List Record) :=
  passedOn (now - 3000) (stopsShort file offset) (windowAt file offset)

theorem windowAt_isPrefix (file : LogFile) (offset : Nat) :
    windowAt file offset <+: completeLines (file.content.drop offset) := window_isPrefix _

theorem settledAt_isPrefix (file : LogFile) (offset : Nat) (now : Int) :
    settledAt file offset now <+: windowAt file offset := settled_isPrefix _ _ _

theorem settledAt_inside {file : LogFile} {offset : Nat} (inside : offset ≤ file.size) (now : Int) :
    offset + (settledAt file offset now).flatten.length ≤ file.size := by
  have part := flatten_length_mono ((settledAt_isPrefix file offset now).trans (windowAt_isPrefix file offset))
  have whole := flatten_length_le (file.content.drop offset) (completeLines (file.content.drop offset)).length
  simp only [List.take_length, List.length_drop] at whole
  simp only [LogFile.size] at inside ⊢
  omega

theorem checkTruncated_inside (cp : Checkpoint) (file : LogFile) :
    (checkTruncated cp file).offset ≤ file.size ∧ (checkTruncated cp file).inode = cp.inode := by
  unfold checkTruncated
  split
  · exact ⟨Nat.zero_le _, rfl⟩
  next fits => exact ⟨by omega, rfl⟩

theorem checkTruncated_kept {cp : Checkpoint} {file : LogFile} (inside : cp.offset ≤ file.size) : checkTruncated cp file = cp := by
  simp [checkTruncated, Nat.not_lt.mpr inside]

theorem readFile_checked (cp : Checkpoint) (file : LogFile) (dir : LogDir) (now : Int) :
    readFile cp file dir now = readFile (checkTruncated cp file) file dir now := by
  simp only [readFile, checkTruncated_kept (checkTruncated_inside cp file).1]

/-- One read settles lines, passes on the groups that begin among them and moves
the checkpoint behind them, or to the current file once a rotated one is settled. -/
theorem readFile_settles (cp : Checkpoint) (file : LogFile) (dir : LogDir) (now : Int)
    (inside : cp.offset ≤ file.size) :
    (∃ problem, readFile cp file dir now = .error problem ∧
      ∃ line ∈ windowAt file cp.offset, maxLine < line.length) ∨
    ∃ next passed, readFile cp file dir now = .ok (next, passed) ∧
      passed.map Group.records = passedAt file cp.offset now ∧
      next = if file.inode ≠ dir.current.inode ∧
          file.size ≤ cp.offset + (settledAt file cp.offset now).flatten.length
        then { cp with inode := dir.current.inode, offset := 0 }
        else { cp with offset := cp.offset + (settledAt file cp.offset now).flatten.length } := by
  simp only [readFile, checkTruncated_kept inside]
  rcases readLoop_window maxLines cp.offset [] [] (completeLines (file.content.drop cp.offset)) (Grouped.nil _) with
    ⟨problem, failed, long⟩ | ⟨groups, grouped, read⟩
  · simp only [List.flatten_nil, List.length_nil, Nat.add_zero] at failed long
    exact Or.inl ⟨problem, by rw [failed], long⟩
  · simp only [List.flatten_nil, List.length_nil, Nat.add_zero, List.nil_append] at read grouped
    have safe := grouped.safeOffset file.size (now - 3000)
    have passed := grouped.passed (now - 3000) (stopsShort file cp.offset)
    refine Or.inr ⟨_, _, ?_, passed, rfl⟩
    rw [read]
    simp only [safe]
    by_cases finished : file.inode ≠ dir.current.inode ∧
        file.size ≤ cp.offset + (settledAt file cp.offset now).flatten.length
    · rw [if_pos finished]
      exact if_pos (Bool.and_eq_true_iff.mpr ⟨bne_iff_ne.mpr finished.1, decide_eq_true finished.2⟩)
    · rw [if_neg finished]
      refine if_neg fun both => finished ?_
      obtain ⟨rotated, ended⟩ := Bool.and_eq_true_iff.mp both
      exact ⟨bne_iff_ne.mp rotated, of_decide_eq_true ended⟩

end SshLogger
