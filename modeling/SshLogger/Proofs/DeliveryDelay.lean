import SshLogger.Proofs.Delivery
import SshLogger.Proofs.Queue

/-! How long a record waits. Batches take the oldest rows of the queue, and the
queue stands still between a batch and its acknowledgement; so every acknowledged
batch brings each row at least four places closer to the server, whatever is lost,
repeated or restarted in between. -/

namespace SshLogger
open Library Library.History

variable {hash owner : String → String} {home : String} {w after : Deployment} {act : Act}

theorem takeBatch_extends (size : Nat) (out : List Event) (rows : List QueueRow) :
    ∃ more, Spool.takeBatch size out rows = out ++ more := by
  induction rows generalizing size out with
  | nil => exact ⟨[], by simp [Spool.takeBatch]⟩
  | cons row rest ih =>
    rw [Spool.takeBatch]
    split
    · exact ⟨[], by simp⟩
    · obtain ⟨more, taken⟩ := ih (size + row.payload.size) (out ++ [row.payload.event])
      exact ⟨row.payload.event :: more, by simp [taken]⟩

/-- A mebibyte has room for four events of the largest size. -/
theorem takeBatch_four (size : Nat) (out : List Event) (rows : List QueueRow) (within : size ≤ 256 * 1024 * out.length)
    (each : ∀ row ∈ rows, row.payload.size ≤ 256 * 1024) :
    ∀ row ∈ rows.take (4 - out.length), row.payload.event ∈ Spool.takeBatch size out rows := by
  induction rows generalizing size out with
  | nil => simp
  | cons row rest ih =>
    by_cases full : 4 ≤ out.length
    · simp [Nat.sub_eq_zero_of_le full]
    · have small := each row List.mem_cons_self
      have roomy : ¬ size + row.payload.size > 1024 * 1024 := by
        have most : 256 * 1024 * out.length ≤ 256 * 1024 * 3 := Nat.mul_le_mul_left _ (by omega)
        omega
      have left : 4 - out.length = (4 - (out ++ [row.payload.event]).length) + 1 := by
        simp only [List.length_append, List.length_singleton]
        omega
      have step : Spool.takeBatch size out (row :: rest) =
          Spool.takeBatch (size + row.payload.size) (out ++ [row.payload.event]) rest := by
        rw [Spool.takeBatch]
        simp only [decide_eq_false roomy, Bool.false_and, Bool.false_eq_true, if_false]
      rw [left, step, List.take_succ_cons, List.forall_mem_cons]
      refine ⟨?_, ih _ _ ?_ fun other member => each other (List.mem_cons_of_mem _ member)⟩
      · obtain ⟨more, taken⟩ := takeBatch_extends (size + row.payload.size) (out ++ [row.payload.event]) rest
        rw [taken]
        simp
      · rw [List.length_append, List.length_singleton, Nat.mul_add_one]
        omega

/-- The four oldest rows are in every batch. -/
theorem batch_oldest {s : Spool} (each : ∀ row ∈ s.db.queue, row.payload.size ≤ 256 * 1024) :
    ∀ row ∈ s.db.queue.take 4, row.payload.event ∈ s.batch.1 := by
  have four := takeBatch_four 0 [] (s.db.queue.take 100) (by simp) fun row member => each row (List.mem_of_mem_take member)
  intro row member
  refine four row ?_
  rwa [List.take_take]

theorem batch_congr {s t : Spool} (same : s.db.queue = t.db.queue) : s.batch = t.batch := by
  simp only [Spool.batch, same]

theorem ack_filter (s : Spool) (events : List Event) :
    (s.ack events true).db.queue = s.db.queue.filter fun row => !(events.map Event.id).contains row.id := by
  simp only [Spool.ack, Bool.not_true, Bool.false_eq_true, if_false]
  generalize s.db.queue = queue
  induction events generalizing queue with
  | nil => simp
  | cons e rest ih =>
    rw [List.foldl_cons, ih, Rows.delete, List.filter_filter]
    refine List.filter_congr fun row _ => ?_
    rw [List.map_cons, List.contains_cons, Bool.not_or, Bool.and_comm]

/-- The events of the request under way are a batch of the queue as it stands, and rows are
small enough for one. -/
structure InHand (w : Deployment) : Prop where
  asked : ∀ n events, w.agent.phase.request = some (n, events) → events = w.agent.spool.batch.1
  answered : ∀ rest, w.agent.phase.answer = some rest → rest.events = w.agent.spool.batch.1
  small : ∀ row ∈ w.agent.spool.db.queue, row.payload.size ≤ 256 * 1024

theorem InHand.quiet (hand : InHand w) {agent : Agent}
    (queue : ∀ row ∈ agent.spool.db.queue, row ∈ w.agent.spool.db.queue ∨
      ∃ ev : Event, row.payload = marshal ev ∧ exceedsLimits (marshal ev) ev = false)
    (phase : agent.phase.request = none ∧ agent.phase.answer = none) : InHand { w with agent } := by
  refine ⟨fun n events asked => ?_, fun rest asked => ?_, fun row member => ?_⟩
  · rw [phase.1] at asked
    cases asked
  · rw [phase.2] at asked
    cases asked
  · rcases queue row member with old | ⟨ev, same, fits⟩
    · exact hand.small row old
    · rw [same]
      simp only [exceedsLimits, Bool.or_eq_false_iff, decide_eq_false_iff_not] at fits
      omega

theorem InHand.same (hand : InHand w) {agent : Agent} (queue : agent.spool.db.queue = w.agent.spool.db.queue)
    (request : ∀ n events, agent.phase.request = some (n, events) → events = w.agent.spool.batch.1)
    (answer : ∀ rest, agent.phase.answer = some rest → rest.events = w.agent.spool.batch.1) : InHand { w with agent } := by
  refine ⟨fun n events asked => ?_, fun rest asked => ?_, fun row member => hand.small row (queue ▸ member)⟩
  · exact (request n events asked).trans (congrArg Prod.fst (batch_congr queue.symm))
  · exact (answer rest asked).trans (congrArg Prod.fst (batch_congr queue.symm))

theorem InHand.step (hand : InHand w) (moved : Deployment.Step hash owner home w act after) : InHand after := by
  cases moved with
  | start _ down =>
    refine hand.quiet (fun row member => .inl ?_) (w.agent.start_phase _)
    rwa [Agent.start_spool] at member
  | stop => exact hand.quiet (fun _ => .inl) ⟨rfl, rfl⟩
  | collect => exact hand.quiet (fun _ => mem_collect) ⟨rfl, rfl⟩
  | wait => exact hand.quiet (fun _ => .inl) ⟨rfl, rfl⟩
  | beat =>
    refine ⟨fun n events asked => ?_, by simp [Phase.answer], hand.small⟩
    exact (Prod.mk.inj (Option.some.inj asked)).2.symm
  | deliver => exact ⟨hand.asked, hand.answered, hand.small⟩
  | @receive response request events waiting =>
    obtain ⟨spool, none_waiting, answer⟩ := w.agent.receive_frame events response
    refine hand.same (by rw [spool]) (by simp [none_waiting]) fun rest asked => ?_
    obtain rfl := Option.some.inj (answer.symm.trans asked)
    exact hand.asked request events (by simp [waiting, Phase.request])
  | fail => exact hand.quiet (fun row member => .inl (w.agent.fail_frame.1 ▸ member)) w.agent.fail_frame.2
  | @save stored p rest saving =>
    obtain ⟨queue, -, none_waiting, answer⟩ := w.agent.save_frame p rest stored
    refine hand.same queue (by simp [none_waiting]) fun other asked => hand.answered other ?_
    rwa [saving, Phase.answer, ← answer]
  | @apply outcome p rest applying =>
    obtain ⟨spool, none_waiting, answer⟩ := w.agent.apply_frame p rest outcome
    refine hand.same (by rw [spool]) (by simp [none_waiting]) fun other asked => hand.answered other ?_
    rwa [applying, Phase.answer, ← answer]
  | finish => exact hand.quiet (fun row member => .inl (Spool.of_mem_ack member)) ⟨rfl, rfl⟩
  | serve => exact ⟨hand.asked, hand.answered, hand.small⟩

theorem inHand_of_run {history : List (Transition Deployment Act)} (run : Run (deployment hash owner home) history w) :
    InHand w := by
  refine run.invariant InHand ?_ fun _ _ _ hand moved => hand.step moved
  rintro w ⟨-, ⟨limit, installed⟩, -, -⟩
  constructor <;> simp [installed, Agent.installed, openSpool, Phase.request, Phase.answer]

def Acknowledges (t : Transition Deployment Act) : Bool :=
  match t.action with
  | .finish _ stored => stored
  | _ => false

/-- At most so many rows are before this one, and each is deleted by the id its event is sent with. -/
def PlacedWithin (row : QueueRow) (places : Nat) (w : Deployment) : Prop :=
  ∃ front rest, w.agent.spool.db.queue = front ++ row :: rest ∧ front.length ≤ places ∧
    ∀ r ∈ front ++ [row], r.payload.event.id = r.id

theorem collect_appends (s : Spool) (c : Collector) (dir : LogDir) (now : Int) (attached stored : Bool) :
    ∃ added, (s.collect c dir now attached stored).1.db.queue = s.db.queue ++ added := by
  rcases collect_cases s c dir now attached stored with same | ⟨-, same⟩ | ⟨next, passed, -, same | same⟩
  · exact ⟨[], by rw [same, List.append_nil]⟩
  all_goals
    rw [same]
    exact ⟨_, (offerAll_counts _ _ _).1⟩

/-- An answer that is acknowledged covers the row or brings it four places forward. -/
theorem PlacedWithin.acknowledged (hand : InHand w) (valid : DeliveryValid owner hash home w) {row : QueueRow} {places : Nat}
    (placed : PlacedWithin row places w) {rest : Answered} (answered : w.agent.phase = .answered rest)
    (outcome : Termination → Bytes) :
    Stored home w.db.toFleet row.id ∨
      ∃ fewer, PlacedWithin row fewer { w with agent := w.agent.finish rest outcome true } ∧ fewer + 4 ≤ places := by
  obtain ⟨front, back, queue, within, named⟩ := placed
  have batch : rest.events = w.agent.spool.batch.1 := hand.answered rest (by simp [answered, Phase.answer])
  have covered : ∀ r ∈ w.agent.spool.db.queue.take 4, r ∈ front ++ [row] → r.id ∈ rest.events.map Event.id := by
    intro r oldest before
    exact List.mem_map.mpr ⟨_, batch ▸ batch_oldest hand.small r oldest, named r before⟩
  by_cases mine : row.id ∈ rest.events.map Event.id
  · obtain ⟨e, listed, same⟩ := List.mem_map.mp mine
    exact .inl (same ▸ valid.answered rest (by simp [answered, Phase.answer]) e listed)
  · right
    have four : 4 ≤ front.length := by
      by_contra few
      refine mine (covered row ?_ (by simp))
      rw [queue, List.take_append, List.mem_append]
      right
      obtain ⟨n, left⟩ : ∃ n, 4 - front.length = n + 1 := ⟨3 - front.length, by omega⟩
      rw [left, List.take_succ_cons]
      exact List.mem_cons_self
    have kept : (!(rest.events.map Event.id).contains row.id) = true := by simpa using mine
    refine ⟨places - 4, ⟨front.filter fun r => !(rest.events.map Event.id).contains r.id,
      back.filter fun r => !(rest.events.map Event.id).contains r.id, ?_, ?_, ?_⟩, by omega⟩
    · simp only [Agent.finish]
      rw [ack_filter, queue, List.filter_append, List.filter_cons_of_pos (by exact kept)]
    · -- none of the first four is left
      have gone : (front.take 4).filter (fun r => !(rest.events.map Event.id).contains r.id) = [] := by
        rw [List.filter_eq_nil_iff]
        intro r oldest
        have taken : r ∈ w.agent.spool.db.queue.take 4 := by
          rw [queue, List.take_append_of_le_length four]
          exact oldest
        simpa using covered r taken (List.mem_append_left _ (List.mem_of_mem_take oldest))
      have split := congrArg (List.filter fun r => !(rest.events.map Event.id).contains r.id) (List.take_append_drop 4 front)
      rw [List.filter_append, gone, List.nil_append] at split
      have shorter := List.length_filter_le (fun r => !(rest.events.map Event.id).contains r.id) (front.drop 4)
      rw [split, List.length_drop] at shorter
      omega
    · intro r member
      refine named r ?_
      rcases List.mem_append.mp member with before | own
      · exact List.mem_append_left _ (List.mem_of_mem_filter before)
      · exact List.mem_append_right _ own

theorem PlacedWithin.same {row : QueueRow} {places : Nat} (placed : PlacedWithin row places w)
    (queue : ∃ added, after.agent.spool.db.queue = w.agent.spool.db.queue ++ added) : PlacedWithin row places after := by
  obtain ⟨front, rest, here, within, named⟩ := placed
  obtain ⟨added, appended⟩ := queue
  exact ⟨front, rest ++ added, by rw [appended, here, List.append_assoc, List.cons_append], within, named⟩

theorem PlacedWithin.step (hand : InHand w) (valid : DeliveryValid owner hash home w) {row : QueueRow} {places : Nat}
    (placed : PlacedWithin row places w) (moved : Deployment.Step hash owner home w act after) :
    Stored home after.db.toFleet row.id ∨
      ∃ fewer, PlacedWithin row fewer after ∧ fewer + (if Acknowledges ⟨w, act, after⟩ then 4 else 0) ≤ places := by
  have still : ∀ {other : Deployment}, (∃ added, other.agent.spool.db.queue = w.agent.spool.db.queue ++ added) →
      ∃ fewer, PlacedWithin row fewer other ∧ fewer + 0 ≤ places :=
    fun queue => ⟨places, placed.same queue, Nat.le_refl _⟩
  cases moved with
  | start => exact .inr (still ⟨[], by rw [Agent.start_spool, List.append_nil]⟩)
  | collect c dir now attached stored => exact .inr (still (collect_appends w.agent.spool c dir now attached stored))
  | @receive response request events =>
    exact .inr (still ⟨[], by rw [(w.agent.receive_frame events response).1, List.append_nil]⟩)
  | fail => exact .inr (still ⟨[], by rw [w.agent.fail_frame.1, List.append_nil]⟩)
  | @save stored p rest => exact .inr (still ⟨[], by rw [(w.agent.save_frame p rest stored).1, List.append_nil]⟩)
  | @apply outcome p rest => exact .inr (still ⟨[], by rw [(w.agent.apply_frame p rest outcome).1, List.append_nil]⟩)
  | @finish outcome stored rest answered =>
    cases stored with
    | false => exact .inr (still ⟨[], by simp [Agent.finish, Spool.ack]⟩)
    | true => exact placed.acknowledged hand valid answered outcome
  | _ => exact .inr (still ⟨[], by simp [Agent.stop, Agent.wait, Deployment.deliver]⟩)

/-- A row with fewer than `4 * n` rows before it is on the server once `n` more batches have been
acknowledged. -/
theorem delivered_within {t : Transition Deployment Act} {later older : List (Transition Deployment Act)}
    (run : Run (deployment hash owner home) (later ++ t :: older) w) {front rest : List QueueRow} {row : QueueRow}
    (queued : t.after.agent.spool.db.queue = front ++ row :: rest)
    (named : ∀ r ∈ front ++ [row], r.payload.event.id = r.id)
    (acknowledged : front.length < 4 * (later.filter Acknowledges).length) : Stored home w.db.toFleet row.id := by
  refine run.within (fun w => Stored home w.db.toFleet row.id) (PlacedWithin row) Acknowledges 4
    ⟨front, rest, queued, Nat.le_refl _, named⟩ ?_ ?_ acknowledged
  · intro history state action after _ stored moved
    cases moved with
    | @deliver request now fresh written token b =>
      exact stored.serve (serve_effect hash state.db now written (.ingest token b.coerced fresh))
    | @serve request now written => exact stored.serve (serve_effect hash state.db now written request)
    | _ => exact stored
  · intro history state action after places before placed moved
    exact placed.step (inHand_of_run before) (delivery_valid before) moved

theorem delivered_within_login : ∃ (history : List (Transition Deployment Act)) (w : Deployment),
    Run (deployment id deliveryOwner "s1") history w ∧
      Stored "s1" w.db.toFleet (Bytes.utf8 "b:1.000:1:login_success") := by
  have fresh : Run (deployment id deliveryOwner "s1") [] deliveryStart := .start ⟨rfl, ⟨67108864, rfl⟩, rfl, rfl⟩
  have registered := fresh.next (.serve (.createServer ⟨"root", "super_admin"⟩ "web" "s1" "t1") 1000 true ⟨rfl, rfl⟩)
  have started := registered.next (.start true rfl)
  have read := started.next (.collect ⟨Bytes.utf8 "b", true, id⟩ deliveryLog 1000000 true true rfl)
  have sent := read.next (.beat "t1" false false (some []) rfl rfl)
  have stored := sent.next (.deliver 0 1000000 "p1" true rfl ⟨by decide, by decide⟩)
  have answered := stored.next (.receive ⟨none, 1, []⟩ rfl (by decide +kernel))
  have acknowledged := answered.next (.finish (fun _ => []) true rfl)
  have ids : (((Agent.installed 67108864).start true).collect ⟨Bytes.utf8 "b", true, id⟩ deliveryLog 1000000 true true).spool.db.queue.map
      (fun row => (row.id, row.payload.event.id)) =
        [(Bytes.utf8 "b:1.000:1:login_success", Bytes.utf8 "b:1.000:1:login_success")] := by decide +kernel
  obtain ⟨row, queued, same⟩ := List.map_eq_singleton_iff.mp ids
  obtain ⟨mine, own⟩ := Prod.mk.inj same
  refine ⟨_, _, acknowledged, mine ▸ @delivered_within id deliveryOwner "s1" _ _ [_, _, _, _] _ acknowledged [] [] row queued
    ?_ (by decide)⟩
  simpa using own.trans mine.symm

end SshLogger
