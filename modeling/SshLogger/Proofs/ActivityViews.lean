import SshLogger.Views
import SshLogger.Library.Numerals
import SshLogger.Proofs.RoutineText
import SshLogger.Proofs.Serving

/-! The pages of the activity views. Every event an administrator may see is in one
of the two views, and the pages put together are the view in order, as far as page
numbers go. -/

namespace SshLogger
open Library Library.Bytes Library.Select Views

structure Storage.Keyed (s : Storage) : Prop where
  servers : Rows.Unique ServerRow.id s.db.servers
  sessions : Rows.Unique SessionRow.key s.db.sessions

def Query.set (q : Query) (key : String) (value : Bytes) : Query := ⟨(key, value) :: q.entries⟩

theorem Query.get_set (q : Query) (key : String) (value : Bytes) : (q.set key value).get key = value := by
  simp [Query.set, Query.get]

theorem Query.get_set_of_ne (q : Query) {key other : String} (differ : key ≠ other) (value : Bytes) :
    (q.set key value).get other = q.get other := by
  simp [Query.set, Query.get, differ]

/-- What a page shows: its last row, if there are more than fifty, only tells that
there is another page. -/
def pageItems (s : Storage) (who : Principal) (q : Query) (now : Int) (page : Nat) : List EventItem :=
  match events s who (q.set "page" (numeral page)) now none with
  | .ok (.items items) => items.take 50
  | .ok (.summary items ..) => items.take 50
  | .error _ => []

def viewRows (s : Storage) (who : Principal) (isMatch : ActivityRow → Bool) (activity : Activity) : List ActivityRow :=
  orderBy isNewer (((activityRows s).filter fun row => isMatch row && isReadable s who row.1.2).filter activity.shows)

/-- The later event first; of two at one time, the one stored later. -/
def ComesBefore (a b : ActivityRow) : Prop :=
  b.1.1.row.event.time < a.1.1.row.event.time ∨ a.1.1.row.event.time = b.1.1.row.event.time ∧ b.1.1.seq < a.1.1.seq

section
variable {s : Storage} (keyed : s.Keyed)
include keyed

theorem activityRows_fst : (activityRows s).map Prod.fst =
    innerJoin (fun e server => server.id == e.row.serverId) s.log s.db.servers := by
  refine leftJoin_fst fun pair _ => ?_
  have own : ∀ se : SessionRow, (se.serverId == pair.1.row.serverId && se.id == pair.1.row.event.sessionId) = true →
      se.key = (pair.1.row.serverId, pair.1.row.event.sessionId) := by
    intro se chosen
    simp only [Bool.and_eq_true, beq_iff_eq] at chosen
    rw [SessionRow.key, chosen.1, chosen.2]
  exact atMostOne_of_key keyed.sessions fun se _ chosen => own se chosen

theorem activityRows_events : ((activityRows s).map fun row => row.1.1).Sublist s.log := by
  have single : ∀ e ∈ s.log, AtMostOne (fun server : ServerRow => server.id == e.row.serverId) s.db.servers := by
    intro e _
    exact atMostOne_of_key keyed.servers fun server _ chosen => eq_of_beq chosen
  have joined := innerJoin_fst single
  rwa [← activityRows_fst keyed, List.map_map] at joined

theorem mem_activityRows {e : LogRow} (stored : e ∈ s.log) {server : ServerRow} (there : server ∈ s.db.servers)
    (own : server.id = e.row.serverId) : ∃ se, ((e, server), se) ∈ activityRows s := by
  have joined : (e, server) ∈ (activityRows s).map Prod.fst := by
    rw [activityRows_fst keyed]
    exact mem_innerJoin.mpr ⟨stored, there, beq_iff_eq.mpr own⟩
  obtain ⟨⟨pair, se⟩, member, rfl⟩ := List.mem_map.mp joined
  exact ⟨se, member⟩

theorem activityRows_distinct : (activityRows s).Pairwise fun a b => a.1.1.seq ≠ b.1.1.seq := by
  have rising := s.rising.sublist ((activityRows_events keyed).map LogRow.seq)
  rw [List.map_map] at rising
  exact (List.pairwise_map.mp rising).imp Nat.ne_of_lt

end

section
variable {s : Storage} {who : Principal} {isMatch : ActivityRow → Bool} {activity : Activity}

structure IsVisible (s : Storage) (who : Principal) (isMatch : ActivityRow → Bool) (row : ActivityRow) : Prop where
  stored : row ∈ activityRows s
  passes : isMatch row = true
  readable : isReadable s who row.1.2 = true

theorem mem_viewRows {row : ActivityRow} :
    row ∈ viewRows s who isMatch activity ↔ IsVisible s who isMatch row ∧ activity.shows row = true := by
  simp only [viewRows, mem_orderBy, List.mem_filter, Bool.and_eq_true]
  constructor
  · rintro ⟨⟨stored, passes, readable⟩, shows⟩
    exact ⟨⟨stored, passes, readable⟩, shows⟩
  · rintro ⟨⟨stored, passes, readable⟩, shows⟩
    exact ⟨⟨stored, passes, readable⟩, shows⟩

theorem isNewer_iff {a b : ActivityRow} : isNewer a b = true ↔ b.1.1.row.event.time < a.1.1.row.event.time ∨
    a.1.1.row.event.time = b.1.1.row.event.time ∧ b.1.1.seq ≤ a.1.1.seq := by
  simp [isNewer]

theorem viewRows_distinct (keyed : s.Keyed) :
    (viewRows s who isMatch activity).Pairwise fun a b => a.1.1.seq ≠ b.1.1.seq := by
  apply ((List.perm_insertionSort _ _).pairwise_iff fun {_ _} differ => differ.symm).mpr
  exact ((activityRows_distinct keyed).sublist List.filter_sublist).sublist List.filter_sublist

theorem viewRows_ordered (keyed : s.Keyed) : (viewRows s who isMatch activity).Pairwise ComesBefore := by
  have newer : (viewRows s who isMatch activity).Pairwise fun a b => isNewer a b = true := by
    apply pairwise_orderBy
    · intro a b
      rw [isNewer_iff, isNewer_iff]
      omega
    · intro a b c first second
      rw [isNewer_iff] at first second ⊢
      omega
  apply newer.imp₂ _ (viewRows_distinct keyed)
  intro a b before differ
  have cases := isNewer_iff.mp before
  unfold ComesBefore
  omega

theorem viewItems_nodup (keyed : s.Keyed) : ((viewRows s who isMatch activity).map eventItem).Nodup := by
  apply List.pairwise_map.mpr
  apply (viewRows_distinct keyed).imp
  intro a b differ same
  exact differ (congrArg EventItem.seq same)

theorem viewRows_split {row : ActivityRow} (listed : row ∈ viewRows s who isMatch .all) :
    Xor (row ∈ viewRows s who isMatch .important) (row ∈ viewRows s who isMatch .routine) := by
  have visible := (mem_viewRows.mp listed).1
  have important : row ∈ viewRows s who isMatch .important ↔ isRoutine row = false := by
    simp [mem_viewRows, visible, Activity.shows]
  have routine : row ∈ viewRows s who isMatch .routine ↔ isRoutine row = true := by
    simp [mem_viewRows, visible, Activity.shows]
  rw [important, routine]
  cases isRoutine row
  · exact Or.inl ⟨rfl, by decide⟩
  · exact Or.inr ⟨rfl, by decide⟩

theorem length_viewRows : (viewRows s who isMatch activity).length =
    count activity.shows ((activityRows s).filter fun row => isMatch row && isReadable s who row.1.2) := by
  rw [viewRows, orderBy, List.length_insertionSort, count]

end

section
variable {s : Storage} {who : Principal} {q : Query} {now : Int} {isMatch : ActivityRow → Bool} {activity : Activity}

theorem page_set (q : Query) (n : Nat) : page (q.set "page" (numeral n)) = min n 100000 := by
  simp only [page, Query.get_set, atoi_numeral]
  split
  · omega
  · split
    · omega
    · omega

theorem filters_set (q : Query) (n : Nat) : filters (q.set "page" (numeral n)) now = filters q now := by
  simp (disch := decide) only [filters, timeOf, List.all_cons, List.all_nil, Query.get_set_of_ne]

theorem length_all : (viewRows s who isMatch .all).length =
    ((activityRows s).filter fun row => isMatch row && isReadable s who row.1.2).length := by
  have shown : Activity.all.shows = fun _ => true := rfl
  rw [length_viewRows, count, shown, List.filter_true]

theorem length_important : (viewRows s who isMatch .important).length =
    (viewRows s who isMatch .all).length - (viewRows s who isMatch .routine).length := by
  have parts := List.length_eq_length_filter_add
    (l := (activityRows s).filter fun row => isMatch row && isReadable s who row.1.2) isRoutine
  have shown : Activity.important.shows = fun row => !isRoutine row := rfl
  have own : Activity.routine.shows = isRoutine := rfl
  rw [length_all, length_viewRows, length_viewRows, count, count, shown, own]
  omega

/-- What is answered when no statement fails. -/
theorem events_answer (accepted : filters q now = some isMatch) (asked : activityOf (q.get "activity") = some activity) :
    events s who q now none =
      if q.get "summary" != utf8 "1" then .ok (.items ((paged q (viewRows s who isMatch activity)).map eventItem))
      else .ok (.summary ((paged q (viewRows s who isMatch activity)).map eventItem)
        (viewRows s who isMatch .all).length (viewRows s who isMatch .routine).length
        (viewRows s who isMatch activity).length activity) := by
  have routine : (viewRows s who isMatch .routine).length =
      count isRoutine ((activityRows s).filter fun row => isMatch row && isReadable s who row.1.2) := length_viewRows
  rw [events, accepted]
  simp only [asked]
  split
  · rfl
  · cases activity with
    | all =>
      rw [length_all, routine]
      rfl
    | important =>
      rw [length_important, length_all, routine]
      rfl
    | routine =>
      rw [length_all, routine]
      rfl

theorem pageItems_slice (accepted : filters q now = some isMatch)
    (asked : activityOf (q.get "activity") = some activity) (n : Nat) : pageItems s who q now n = (slice 50 (min n 100000 * 50) (viewRows s who isMatch activity)).map eventItem := by
  have again : activityOf ((q.set "page" (numeral n)).get "activity") = some activity := by
    rwa [q.get_set_of_ne (by decide)]
  have first_fifty : ((paged (q.set "page" (numeral n)) (viewRows s who isMatch activity)).map eventItem).take 50 =
      (slice 50 (min n 100000 * 50) (viewRows s who isMatch activity)).map eventItem := by
    rw [paged, page_set, ← List.map_take, slice_take (by decide)]
  rw [pageItems, events_answer ((filters_set q n).trans accepted) again]
  cases (q.set "page" (numeral n)).get "summary" != utf8 "1" with
  | true => exact first_fifty
  | false => exact first_fifty

def pagedLimit : Nat := 5000050

theorem pages_take (accepted : filters q now = some isMatch)
    (asked : activityOf (q.get "activity") = some activity) {n : Nat} (few : n ≤ 100001) : (List.range n).flatMap (pageItems s who q now) =
      ((viewRows s who isMatch activity).map eventItem).take (n * 50) := by
  rw [← flatMap_slices]
  apply List.flatMap_congr
  intro page listed
  have counts : min page 100000 = page := by
    have below := List.mem_range.mp listed
    omega
  rw [pageItems_slice accepted asked, counts, slice, slice, List.map_take, List.map_drop]

/-- No number of pages makes up for a page number that does not count. -/
theorem pages_whole_iff (keyed : s.Keyed) (accepted : filters q now = some isMatch)
    (asked : activityOf (q.get "activity") = some activity) :
    (∃ n, (List.range n).flatMap (pageItems s who q now) = (viewRows s who isMatch activity).map eventItem) ↔
      (viewRows s who isMatch activity).length ≤ pagedLimit := by
  constructor
  · rintro ⟨n, whole⟩
    by_contra long
    by_cases few : n ≤ 100001
    · have sizes := congrArg List.length whole
      rw [pages_take accepted asked few, List.length_take, List.length_map] at sizes
      simp only [pagedLimit] at long
      omega
    · -- Pages 100000 and 100001 are the same.
      have distinct := @viewItems_nodup s who isMatch activity keyed
      rw [← whole, List.nodup_flatMap] at distinct
      have apart := List.pairwise_iff_getElem.mp distinct.2 100000 100001
        (by rw [List.length_range]; omega) (by rw [List.length_range]; omega) (by omega)
      have same : pageItems s who q now 100000 = pageItems s who q now 100001 := by
        rw [pageItems_slice accepted asked, pageItems_slice accepted asked]
        rfl
      simp only [List.getElem_range, Function.onFun, same] at apart
      have none_left : pageItems s who q now 100001 = [] := by
        apply List.eq_nil_iff_forall_not_mem.mpr
        intro item member
        exact apart member member
      rw [pageItems_slice accepted asked] at none_left
      have empty := congrArg List.length none_left
      simp only [slice, List.length_map, List.length_take, List.length_drop, List.length_nil] at empty
      simp only [pagedLimit] at long
      omega
  · intro short
    refine ⟨100001, ?_⟩
    rw [pages_take accepted asked (Nat.le_refl _), List.take_of_length_le]
    rw [List.length_map]
    exact short

end

/-- An event of a server with as many of them as there are numbers below a bound. -/
def pastEvent (n : Nat) : LogRow where
  seq := n + 1
  row := ⟨"s1", 1000, ⟨numeral n, 1000, .exec, [], utf8 "alice", [], utf8 "alice", [], utf8 "/usr/bin/cat", [utf8 "cat"],
    utf8 "yes", none, none⟩, utf8 "cat"⟩

def longServer : ServerRow := ⟨"s1", "web", "t1", 0, 1000, utf8 "ok", 0, 0, false⟩

def longStorage (count : Nat) : Storage where
  db := { newStore with
    servers := [longServer]
    events := ((List.range count).map pastEvent).map LogRow.row }
  log := (List.range count).map pastEvent
  whole := rfl
  rising := by
    rw [List.map_map]
    exact List.pairwise_map.mpr (List.pairwise_lt_range.imp fun less => Nat.succ_lt_succ less)

theorem longStorage_keyed (count : Nat) : (longStorage count).Keyed where
  servers := List.nodup_singleton _
  sessions := List.nodup_nil

theorem longStorage_rows (count : Nat) :
    activityRows (longStorage count) = (List.range count).map fun n => ((pastEvent n, longServer), none) := by
  have joined : innerJoin (fun e server => server.id == e.row.serverId) ((List.range count).map pastEvent) [longServer] =
      (List.range count).map fun n => (pastEvent n, longServer) := by
    rw [innerJoin, List.flatMap_map, List.map_eq_flatMap]
    rfl
  change leftJoin _ (innerJoin _ ((List.range count).map pastEvent) [longServer]) [] = _
  rw [joined, leftJoin, List.flatMap_map, List.map_eq_flatMap]
  rfl

def rootCaller : Principal := ⟨"root", "super_admin"⟩

def anyQuery : Query := ⟨[]⟩

/-- The last day, when the events are as old as that. -/
theorem anyQuery_accepted : ∃ isMatch, filters anyQuery 86401000 = some isMatch := Option.isSome_iff_exists.mp rfl

theorem longStorage_view {isMatch : ActivityRow → Bool} (accepted : filters anyQuery 86401000 = some isMatch) (count : Nat) :
    (viewRows (longStorage count) rootCaller isMatch .all).length = count := by
  obtain rfl := Option.some.inj accepted.symm
  rw [length_all, longStorage_rows, List.filter_eq_self.mpr, List.length_map, List.length_range]
  intro row member
  obtain ⟨n, _, rfl⟩ := List.mem_map.mp member
  rfl

/-- The views of one caller under one filter. -/
structure ExactViews (s : Storage) (who : Principal) (q : Query) (now : Int) (isMatch : ActivityRow → Bool) : Prop where
  compared : ∀ e, routineReasonSQL e = routineReason e
  classified : ∀ row : ActivityRow, isRoutine row = true ↔ ∃ rule ∈ routineRules, IsRoutine row.1.1.row.event rule
  joined : ∀ e ∈ s.log, ∀ server ∈ s.db.servers, server.id = e.row.serverId → ∃ se, ((e, server), se) ∈ activityRows s
  listed : ∀ activity row, row ∈ viewRows s who isMatch activity ↔ IsVisible s who isMatch row ∧ activity.shows row = true
  ordered : ∀ activity, (viewRows s who isMatch activity).Pairwise ComesBefore
  split : ∀ row ∈ viewRows s who isMatch .all,
    Xor (row ∈ viewRows s who isMatch .important) (row ∈ viewRows s who isMatch .routine)
  counted : ∀ activity, activityOf (q.get "activity") = some activity → q.get "summary" = utf8 "1" →
    ∃ items, events s who q now none = .ok (.summary items (viewRows s who isMatch .all).length
      (viewRows s who isMatch .routine).length (viewRows s who isMatch activity).length activity)
  paged : ∀ activity, activityOf (q.get "activity") = some activity → ∀ n ≤ 100001,
    (List.range n).flatMap (pageItems s who q now) = ((viewRows s who isMatch activity).map eventItem).take (n * 50)
  whole : ∀ activity, activityOf (q.get "activity") = some activity →
    ((∃ n, (List.range n).flatMap (pageItems s who q now) = (viewRows s who isMatch activity).map eventItem) ↔
      (viewRows s who isMatch activity).length ≤ pagedLimit)

theorem activity_views_exact {s : Storage} (keyed : s.Keyed) {q : Query} {now : Int} {isMatch : ActivityRow → Bool}
    (accepted : filters q now = some isMatch) (who : Principal) : ExactViews s who q now isMatch where
  compared := routineReasonSQL_eq
  classified row := by
    rw [isRoutine, bne_iff_ne]
    exact routineReason_iff _
  joined _ stored _ there own := mem_activityRows keyed stored there own
  listed _ _ := mem_viewRows
  ordered _ := viewRows_ordered keyed
  split _ listed := viewRows_split listed
  counted activity asked summary := by
    refine ⟨_, (events_answer accepted asked).trans (if_neg ?_)⟩
    simp [summary]
  paged _ asked _ few := pages_take accepted asked few
  whole _ asked := pages_whole_iff keyed accepted asked

theorem activity_views_exact_three : ∃ isMatch, filters anyQuery 86401000 = some isMatch ∧
    ExactViews (longStorage 3) rootCaller anyQuery 86401000 isMatch ∧
    (viewRows (longStorage 3) rootCaller isMatch .all).length = 3 := by
  obtain ⟨isMatch, accepted⟩ := anyQuery_accepted
  exact ⟨isMatch, accepted, activity_views_exact (longStorage_keyed 3) accepted rootCaller, longStorage_view accepted 3⟩

/-- With one event more than the pages have room for, no pages are the whole view. -/
theorem pages_miss_event : ∃ isMatch, filters anyQuery 86401000 = some isMatch ∧ (longStorage 5000051).Keyed ∧
    ∀ n, (List.range n).flatMap (pageItems (longStorage 5000051) rootCaller anyQuery 86401000) ≠
      (viewRows (longStorage 5000051) rootCaller isMatch .all).map eventItem := by
  obtain ⟨isMatch, accepted⟩ := anyQuery_accepted
  refine ⟨isMatch, accepted, longStorage_keyed _, fun n whole => ?_⟩
  have short := (pages_whole_iff (longStorage_keyed _) accepted rfl).mp ⟨n, whole⟩
  rw [longStorage_view accepted, pagedLimit] at short
  omega

end SshLogger
