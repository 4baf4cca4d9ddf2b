import SshLogger.Proofs.Acknowledgement
import SshLogger.Proofs.PolicyCache

/-! The kernel never goes back to an older policy. Revisions are ranked by when
they were drawn; the loaded, the cached, the desired policy and the answers to
come stand in this order, whatever fails and whenever the agent is restarted. -/

namespace SshLogger
open Library Library.History

/-- Later draws rank higher. The newest draw stands first. -/
def rank (drawn : List String) (revision : String) : Nat := drawn.length - drawn.idxOf revision

def Extends (drawn next : List String) : Prop := next = drawn ∨ ∃ revision, IsFresh drawn revision ∧ next = revision :: drawn

section
variable {drawn next : List String} {revision other : String}

theorem rank_extends (extends_to : Extends drawn next) (known : revision ∈ drawn) : rank next revision = rank drawn revision := by
  rcases extends_to with rfl | ⟨new, fresh, rfl⟩
  · rfl
  · have different : new ≠ revision := fun same => fresh.2 (same ▸ known)
    simp [rank, List.idxOf_cons_ne _ different]

theorem rank_new (known : revision ∈ drawn) (fresh : IsFresh drawn other) :
    rank (other :: drawn) revision ≤ rank (other :: drawn) other := by
  rw [rank_extends (Or.inr ⟨other, fresh, rfl⟩) known]
  simp [rank]
  omega

theorem rank_inj (known : revision ∈ drawn) (known' : other ∈ drawn) (same : rank drawn revision = rank drawn other) :
    revision = other := by
  have first := List.idxOf_lt_length_of_mem known
  have second := List.idxOf_lt_length_of_mem known'
  simp only [rank] at same
  exact (List.idxOf_inj known).mp (by omega)

theorem Extends.draws {request : Request} (draws : Draws drawn request next) (extends_to : Extends drawn next)
    (draw : request.draw = some revision) : next = revision :: drawn := by
  obtain ⟨fresh, member⟩ := draws.fresh revision draw
  rcases extends_to with rfl | ⟨new, -, rfl⟩
  · exact absurd member fresh.2
  · rcases List.mem_cons.mp member with rfl | old
    · rfl
    · exact absurd old fresh.2

theorem Admissible.extends {hash owner : String → String} {home : String} {request : Request}
    (allowed : Admissible hash owner home drawn request next) : Extends drawn next := by
  cases request with
  | ingest =>
    obtain ⟨-, fresh, rfl⟩ := allowed
    exact Or.inr ⟨_, fresh, rfl⟩
  | requestFirewall =>
    obtain ⟨fresh, rfl⟩ := allowed
    exact Or.inr ⟨_, fresh, rfl⟩
  | createServer => exact Or.inl allowed.2
  | changeToken => exact Or.inl allowed.2
  | _ => exact Or.inl allowed

end

theorem keyed_delete {p : FirewallPolicy} (keyed : p.Keyed) (selected : String × String → Bool) :
    ((Rows.delete selected p.allowedNames).map Prod.fst).Nodup :=
  keyed.sublist (List.filter_sublist.map Prod.fst)

theorem setAllowedName_keyed {p : FirewallPolicy} (keyed : p.Keyed) (ip : String) (name : Option String) :
    (setAllowedName p ip name).Keyed := by
  cases name with
  | none => exact keyed
  | some name =>
    simp only [setAllowedName]
    split
    · exact keyed_delete keyed _
    · simp only [FirewallPolicy.Keyed, List.map_append, List.map_cons, List.map_nil]
      refine List.nodup_append.mpr ⟨keyed_delete keyed _, by simp, ?_⟩
      rintro address there _ (⟨⟩ | ⟨_, ⟨⟩⟩) rfl
      obtain ⟨entry, left, same⟩ := List.mem_map.mp there
      simp only [Rows.delete, List.mem_filter] at left
      simp [same] at left

theorem FirewallChange.apply_keyed {p q : FirewallPolicy} {change : FirewallChange} (keyed : p.Keyed)
    (changed : change.apply p = .ok q) : q.Keyed := by
  cases change with
  | ban ip disconnect =>
    simp only [apply] at changed
    split at changed
    · cases changed
    · exact Except.ok.inj changed ▸ keyed
  | unban ip => exact Except.ok.inj changed ▸ keyed
  | settings ports protectedIPs mode =>
    simp only [apply] at changed
    split at changed
    · exact Except.ok.inj changed ▸ keyed
    · split at changed
      · cases changed
      · exact Except.ok.inj changed ▸ keyed
  | allow ip name =>
    have named := setAllowedName_keyed keyed ip name
    simp only [apply] at changed
    split at changed
    · exact Except.ok.inj changed ▸ named
    · exact Except.ok.inj changed ▸ named
  | updateAllow ip name =>
    simp only [apply] at changed
    split at changed
    · exact Except.ok.inj changed ▸ setAllowedName_keyed keyed ip name
    · cases changed
  | removeAllow ip => exact Except.ok.inj changed ▸ keyed_delete keyed _

/-- What the empty policy has and every change keeps holds of every stored policy. -/
theorem ServeEffect.keeps {hash : String → String} {db : Db} {now : Int} {request : Request} {after : Fleet}
    {good : FirewallPolicy → Prop} (empty : ∀ revision, good (emptyPolicy revision))
    (changes : ∀ p q revision, ∀ change : FirewallChange, good p → change.apply p = .ok q → good { q with revision })
    (effect : ServeEffect hash db now request after) (unique : Rows.Unique PolicyRow.serverId db.firewallPolicies)
    (before : ∀ row ∈ db.firewallPolicies, good row.policy) : ∀ row ∈ after.firewallPolicies, good row.policy := by
  intro row member
  have read : ∀ server fresh, good (readPolicy db.toFleet server fresh) := by
    intro server fresh
    simp only [readPolicy]
    split
    next found => exact before _ (List.mem_of_find?_eq_some found)
    · exact empty fresh
  cases (effect.policies unique).2 row member with
  | kept old there same => exact same.policy ▸ before old there
  | confirmed old there same => exact same.policy ▸ before old there
  | created _ _ _ is_empty => exact is_empty ▸ empty _
  | @changed server username ids asked =>
    cases effect with
    | quiet => exact before row member
    | @changed _ _ _ _ r p _ target done =>
      rw [done.stored] at member
      obtain ⟨change, q, changed, rfl⟩ := done.derived
      have made := changes _ _ ids.revision change (read _ _) changed
      rcases Rows.mem_upsert member with ⟨there, -⟩ | ⟨-, rfl⟩ | ⟨old, there, own, rfl⟩
      · exact before row there
      · exact made
      · exact made

/-- The policies the server has sent its agent, in the order it issued them. -/
def Deployment.issued (w : Deployment) : List FirewallPolicy := w.responses.filterMap fun answer => answer.2.firewall

def Deployment.rank (w : Deployment) (p : FirewallPolicy) : Nat := SshLogger.rank w.drawn p.revision

structure OrderValid (home : String) (w : Deployment) : Prop where
  desired : ∀ p, w.Has p → ∃ row ∈ w.db.firewallPolicies, row.serverId = home ∧ w.rank p ≤ w.rank row.policy
  issued : w.issued.Pairwise fun p q => w.rank p ≤ w.rank q
  distinct : ∀ p q, w.Has p → w.Has q → p.revision = q.revision → p = q
  held : ∀ p, w.agent.Holds p → p ∈ w.issued
  loaded : ∀ p, w.agent.table = some p → ∃ q, w.agent.spool.db.firewallCache = some q ∧ w.rank p ≤ w.rank q
  cached : ∀ p, w.agent.spool.db.firewallCache = some p →
    p.validate = .ok () ∧ ∃ q, w.agent.cached = some q ∧ w.rank p ≤ w.rank q
  awaited : ∀ p q, w.Awaits p → w.agent.cached = some q → w.rank q ≤ w.rank p
  keyed : ∀ row ∈ w.db.firewallPolicies, row.policy.Keyed
  named : ∀ p ∈ w.issued, p.Keyed

section Order
variable {hash owner : String → String} {home : String} {w after : Deployment} {act : Act}

theorem Deployment.mem_issued {p : FirewallPolicy} :
    p ∈ w.issued ↔ ∃ n response, (n, response) ∈ w.responses ∧ response.firewall = some p := by
  simp [Deployment.issued]

theorem OrderValid.has (valid : OrderValid home w) {p : FirewallPolicy} : w.Has p ↔ p ∈ w.issued := by
  constructor
  · rintro (held | answer)
    · exact valid.held p held
    · exact Deployment.mem_issued.mpr answer
  · exact fun issued => Or.inr (Deployment.mem_issued.mp issued)

/-- A step of the agent: its policies come from an answer it awaited, and it awaits none afterwards. -/
theorem OrderValid.agent (valid : OrderValid home w) {agent : Agent}
    (holds : ∀ p, agent.Holds p → w.agent.Holds p ∨ w.Awaits p) (request : agent.phase.request = none)
    (loaded : ∀ p, agent.table = some p → ∃ q, agent.spool.db.firewallCache = some q ∧ w.rank p ≤ w.rank q)
    (cached : ∀ p, agent.spool.db.firewallCache = some p →
      p.validate = .ok () ∧ ∃ q, agent.cached = some q ∧ w.rank p ≤ w.rank q) :
    OrderValid home { w with agent } := by
  have has : ∀ p, ({ w with agent } : Deployment).Has p → w.Has p := by
    rintro p (held | answer)
    · exact (holds p held).elim Or.inl Deployment.Awaits.has
    · exact Or.inr answer
  refine { valid with desired := ?_, distinct := ?_, held := ?_, loaded, cached, awaited := ?_ }
  · exact fun p there => valid.desired p (has p there)
  · exact fun p q first second => valid.distinct p q (has p first) (has q second)
  · exact fun p held => valid.has.mp (has p (Or.inl held))
  · rintro p q ⟨n, events, response, asked, -⟩
    simp [request] at asked

/-- A step that changes no policy. -/
theorem OrderValid.idle (valid : OrderValid home w) {agent : Agent}
    (cache : agent.spool.db.firewallCache = w.agent.spool.db.firewallCache) (table : agent.table = w.agent.table)
    (memory : agent.cached = w.agent.cached) (policy : agent.phase.policy = none) (request : agent.phase.request = none) :
    OrderValid home { w with agent } := by
  refine valid.agent ?_ request ?_ ?_
  · rintro p (held | held | held | held)
    · exact Or.inl (Or.inl (cache ▸ held))
    · exact Or.inl (Or.inr (Or.inl (table ▸ held)))
    · exact Or.inl (Or.inr (Or.inr (Or.inl (memory ▸ held))))
    · simp [policy] at held
  · rw [cache, table]
    exact valid.loaded
  · rw [cache, memory]
    exact valid.cached

theorem OrderValid.start (valid : OrderValid home w) (canTerminate : Bool) :
    OrderValid home { w with agent := w.agent.start canTerminate } := by
  refine valid.agent (fun p held => Or.inl (Agent.holds_start held)) (by simp [(Agent.start_phase w.agent _).1]) ?_ ?_
  · intro p loaded
    have same : (w.agent.start canTerminate).spool.db.firewallCache = w.agent.spool.db.firewallCache ∧
        (w.agent.start canTerminate).table = w.agent.table := by
      simp only [Agent.start]
      split
      · exact ⟨rfl, rfl⟩
      · split <;> exact ⟨rfl, rfl⟩
    rw [same.1]
    exact valid.loaded p (same.2 ▸ loaded)
  · intro p
    simp only [Agent.start]
    split
    next none => exact fun cached => absurd (none.symm.trans cached) (by simp)
    next q found =>
      split
      · intro cached
        obtain rfl : q = p := Option.some.inj (found.symm.trans cached)
        exact ⟨(valid.cached q found).1, q, rfl, Nat.le_refl _⟩
      · exact fun cached => valid.cached p cached

theorem OrderValid.fail (valid : OrderValid home w) : OrderValid home { w with agent := w.agent.fail } := by
  refine valid.agent (fun p held => Or.inl (Agent.holds_fail held)) (by simp [(Agent.fail_frame w.agent).2.1]) ?_ ?_
  all_goals
    simp only [Agent.fail]
    split
  · exact valid.loaded
  · exact valid.loaded
  · exact valid.cached
  · exact valid.cached

theorem OrderValid.receive (valid : OrderValid home w) {request : Nat} {events : List Event} {response : IngestResponse}
    (waiting : w.agent.phase = .waiting request events) (arrived : (request, response) ∈ w.responses) :
    OrderValid home { w with agent := w.agent.receive events response } := by
  have awaits : ∀ p, response.firewall = some p → w.Awaits p :=
    fun p carries => ⟨request, events, response, by simp [waiting, Phase.request], arrived, carries⟩
  refine valid.agent (fun p held => (Agent.holds_receive held).imp id (awaits p))
    (by simp [(Agent.receive_frame w.agent _ _).2.1]) ?_ ?_
  all_goals
    simp only [Agent.receive]
    split
  · exact valid.loaded
  · exact valid.loaded
  · exact valid.cached
  next p carries =>
    intro q cached
    obtain ⟨checked, c, memory, below⟩ := valid.cached q cached
    exact ⟨checked, p, rfl, Nat.le_trans below (valid.awaited p c (awaits p carries) memory)⟩

theorem OrderValid.save (valid : OrderValid home w) (staged : w.agent.Staged) {p : FirewallPolicy} {rest : Option Answered}
    (saving : w.agent.phase = .saving p rest) (stored : Bool) :
    OrderValid home { w with agent := w.agent.save p rest stored } := by
  have memory : w.agent.cached = some p := by rwa [Agent.Staged, saving] at staged
  refine valid.agent (fun q held => Or.inl (Agent.holds_save saving held))
    (by simp [(Agent.save_frame w.agent p rest stored).2.2.1]) ?_ ?_
  all_goals
    simp only [Agent.save]
    split
  · intro q loaded
    obtain ⟨old, cached, below⟩ := valid.loaded q loaded
    obtain ⟨-, c, same, above⟩ := valid.cached old cached
    obtain rfl : p = c := Option.some.inj (memory.symm.trans same)
    exact ⟨p, rfl, Nat.le_trans below above⟩
  · exact valid.loaded
  next written =>
    intro q cached
    obtain rfl := Option.some.inj cached
    have checked : p.isValid = true := by
      simp only [Bool.and_eq_true] at written
      exact written.1
    refine ⟨?_, p, memory, Nat.le_refl _⟩
    simp only [FirewallPolicy.isValid] at checked
    split at checked
    next valid => exact valid
    · cases checked
  · exact valid.cached

theorem OrderValid.apply (valid : OrderValid home w) (staged : w.agent.Staged) {p : FirewallPolicy} {rest : Option Answered}
    (applying : w.agent.phase = .applying p rest) (outcome : NftOutcome) :
    OrderValid home { w with agent := w.agent.apply p rest outcome } := by
  obtain ⟨memory, cache⟩ : w.agent.cached = some p ∧ w.agent.spool.db.firewallCache = some p := by
    rwa [Agent.Staged, applying] at staged
  refine valid.agent (fun q held => Or.inl (Agent.holds_apply applying held))
    (by simp [(Agent.apply_frame w.agent p rest outcome).2.1]) ?_ ?_
  · have now : ∀ q, some p = some q → ∃ r, w.agent.spool.db.firewallCache = some r ∧ w.rank q ≤ w.rank r :=
      fun q same => ⟨p, cache, Option.some.inj same ▸ Nat.le_refl _⟩
    cases outcome with
    | loaded => exact now
    | killed => exact now
    | failed => exact valid.loaded
  · cases outcome <;> exact valid.cached

/-- A new request has no answer yet. -/
theorem OrderValid.beat (valid : OrderValid home w) (delivery : DeliveryValid owner hash home w) (token : String) (b : Batch)
    (events : List Event) : OrderValid home { w with
      sent := w.sent ++ [(token, b)], agent := { w.agent with phase := .waiting w.sent.length events } } := by
  let next : Deployment := { w with
    sent := w.sent ++ [(token, b)], agent := { w.agent with phase := .waiting w.sent.length events } }
  have holds : ∀ p, next.agent.Holds p → w.agent.Holds p := fun _ => Agent.holds_waiting
  have has : ∀ p, next.Has p → w.Has p := fun p => Or.imp (holds p) id
  exact { valid with
    desired := fun p there => valid.desired p (has p there)
    distinct := fun p q first second => valid.distinct p q (has p first) (has q second)
    held := fun p held => valid.held p (holds p held)
    awaited := by
      rintro p q ⟨n, _, response, asked, answer, -⟩
      obtain ⟨rfl, -⟩ := Prod.mk.inj (Option.some.inj asked)
      obtain ⟨_, _, there, -⟩ := delivery.responses _ response answer
      simp at there }

def Answers (home : String) (w : Deployment) (db : Db) (responses : List (Nat × IngestResponse)) : Prop :=
  responses = w.responses ∨ ∃ n response, responses = w.responses ++ [(n, response)] ∧
    ∀ p, response.firewall = some p → ∃ row ∈ db.firewallPolicies, row.serverId = home ∧ row.policy = p

theorem Answers.sends {db : Db} {responses : List (Nat × IngestResponse)} (answers : Answers home w db responses) :
    Sends home w db responses := by
  rcases answers with rfl | ⟨last, answer, rfl, carries⟩
  · exact fun _ _ => Or.inl
  · intro n response member
    rcases List.mem_append.mp member with old | new
    · exact Or.inl old
    · obtain ⟨rfl, rfl⟩ := Prod.mk.inj (List.mem_singleton.mp new)
      exact Or.inr carries

theorem rank_kept (firewall : FirewallValid home w) {next : List String} (extends_to : Extends w.drawn next) {db : Db}
    {responses : List (Nat × IngestResponse)} {p : FirewallPolicy} (there : w.Has p) :
    ({ w with db, responses, drawn := next } : Deployment).rank p = w.rank p :=
  rank_extends extends_to (firewall.drawn p there)

/-- The desired policy only moves up. -/
theorem OrderValid.rises (valid : OrderValid home w) (firewall : FirewallValid home w) {now : Int} {request : Request} {db : Db}
    {responses : List (Nat × IngestResponse)} {next : List String} (draws : Draws w.drawn request next)
    (extends_to : Extends w.drawn next) (effect : ServeEffect hash w.db now request db.toFleet) {p : FirewallPolicy}
    (there : w.Has p) {row : PolicyRow} (member : row ∈ db.firewallPolicies) (own : row.serverId = home) :
    ({ w with db, responses, drawn := next } : Deployment).rank p ≤
      ({ w with db, responses, drawn := next } : Deployment).rank row.policy := by
  let after : Deployment := { w with db, responses, drawn := next }
  change after.rank p ≤ after.rank row.policy
  obtain ⟨old, stored, old_own, below⟩ := valid.desired p there
  have known := (firewall.rows.known old stored).1
  have old_rank : after.rank old.policy = w.rank old.policy :=
    rank_extends extends_to (firewall.rows.named old stored ▸ known)
  have same_row : ∀ other ∈ w.db.firewallPolicies, other.Same row → after.rank p ≤ after.rank row.policy := by
    intro other listed same
    have one := firewall.rows.unique.eq listed stored ((same.serverId.symm.trans own).trans old_own.symm)
    rw [same.policy, one, old_rank, rank_kept firewall extends_to there]
    exact below
  cases (effect.policies firewall.rows.unique).2 row member with
  | kept other listed same => exact same_row other listed same
  | confirmed other listed same => exact same_row other listed same
  | created absent => exact absurd (old_own.trans own.symm) (absent old stored)
  | changed _ _ revision named =>
    have newest := extends_to.draws draws rfl
    have fresh := (draws.fresh _ rfl).1
    have above := rank_new (firewall.drawn p there) fresh
    rw [← newest, ← named] at above
    exact above

theorem OrderValid.serve (valid : OrderValid home w) (firewall : FirewallValid home w) {now : Int} {request : Request} {db : Db}
    {responses : List (Nat × IngestResponse)} {next : List String} (draws : Draws w.drawn request next)
    (extends_to : Extends w.drawn next) (effect : ServeEffect hash w.db now request db.toFleet)
    (later : FirewallValid home { w with db, responses, drawn := next }) (answers : Answers home w db responses) :
    OrderValid home { w with db, responses, drawn := next } := by
  let after : Deployment := { w with db, responses, drawn := next }
  have rises : ∀ p, w.Has p → ∀ row ∈ db.firewallPolicies, row.serverId = home → after.rank p ≤ after.rank row.policy :=
    fun p there row member own => valid.rises firewall draws extends_to effect there member own
  have desired : ∀ p, after.Has p → ∃ row ∈ db.firewallPolicies, row.serverId = home ∧ after.rank p ≤ after.rank row.policy := by
    intro p there
    rcases answers.sends.has there with before | ⟨row, member, own, rfl⟩
    · obtain ⟨old, stored, old_own, -⟩ := valid.desired p before
      obtain ⟨row, member, same⟩ := effect.keeps_policies stored
      exact ⟨row, member, same.trans old_own, rises p before row member (same.trans old_own)⟩
    · exact ⟨row, member, own, Nat.le_refl _⟩
  have held_issued : ∀ p, w.Has p → p ∈ after.issued := by
    intro p there
    obtain ⟨n, response, member, carries⟩ := Deployment.mem_issued.mp (valid.has.mp there)
    have longer : (n, response) ∈ responses := by
      rcases answers with rfl | ⟨_, _, rfl, -⟩
      · exact member
      · exact List.mem_append_left _ member
    exact Deployment.mem_issued.mpr ⟨n, response, longer, carries⟩
  have keyed : ∀ row ∈ db.firewallPolicies, row.policy.Keyed := by
    refine effect.keeps (fun _ => List.nodup_nil) ?_ firewall.rows.unique valid.keyed
    intro p q revision change keyed changed
    have again : q.Keyed := FirewallChange.apply_keyed keyed changed
    exact again
  have below : ∀ p q, w.Has p → w.Has q → w.rank p ≤ w.rank q → after.rank p ≤ after.rank q := by
    intro p q first second less
    rw [rank_kept firewall extends_to first, rank_kept firewall extends_to second]
    exact less
  refine ⟨desired, ?_, ?_, ?_, ?_, ?_, ?_, keyed, ?_⟩
  · have old : w.issued.Pairwise fun p q => after.rank p ≤ after.rank q :=
      valid.issued.imp_of_mem fun first second => below _ _ (valid.has.mpr first) (valid.has.mpr second)
    rcases answers with rfl | ⟨n, response, rfl, carries⟩
    · exact old
    · have longer : after.issued = w.issued ++ response.firewall.toList := by
        cases sent : response.firewall <;> simp [after, Deployment.issued, sent]
      rw [longer]
      refine List.pairwise_append.mpr ⟨old, ?_, fun p listed q sent => ?_⟩
      · cases response.firewall <;> simp
      · obtain ⟨row, member, own, rfl⟩ := carries q (Option.mem_toList.mp sent)
        exact rises p (valid.has.mpr listed) row member own
  · intro p q first second same
    rcases answers.sends.has second with known | ⟨row, member, own, rfl⟩
    · rcases answers.sends.has first with known' | ⟨row, member, own, rfl⟩
      · exact valid.distinct p q known' known same
      · exact (later.current q second row member own (same.symm.trans (later.rows.named row member))).symm
    · exact later.current p first row member own (same.trans (later.rows.named row member))
  · exact fun p held => held_issued p (Or.inl held)
  · intro p loaded
    obtain ⟨q, cached, less⟩ := valid.loaded p loaded
    exact ⟨q, cached, below p q (Or.inl (Or.inr (Or.inl loaded))) (Or.inl (Or.inl cached)) less⟩
  · intro p cached
    obtain ⟨checked, q, memory, less⟩ := valid.cached p cached
    exact ⟨checked, q, memory, below p q (Or.inl (Or.inl cached)) (Or.inl (Or.inr (Or.inr (Or.inl memory)))) less⟩
  · rintro p q ⟨n, events, response, asked, answer, carries⟩ memory
    have holds : w.Has q := Or.inl (Or.inr (Or.inr (Or.inl memory)))
    rcases answers.sends n response answer with before | sent
    · have awaits : w.Awaits p := ⟨n, events, response, asked, before, carries⟩
      exact below q p holds awaits.has (valid.awaited p q awaits memory)
    · obtain ⟨row, member, own, rfl⟩ := sent p carries
      exact rises q holds row member own
  · intro p listed
    obtain ⟨n, response, member, carries⟩ := Deployment.mem_issued.mp listed
    rcases answers.sends n response member with before | sent
    · exact valid.named p (Deployment.mem_issued.mpr ⟨n, response, before, carries⟩)
    · obtain ⟨row, stored, -, rfl⟩ := sent p carries
      exact keyed row stored

theorem OrderValid.step (valid : OrderValid home w) (delivery : DeliveryValid owner hash home w)
    (firewall : FirewallValid home w) (later : FirewallValid home after)
    (moved : Deployment.Step hash owner home w act after) : OrderValid home after := by
  cases moved with
  | start canTerminate => exact valid.start canTerminate
  | stop => exact valid.idle rfl rfl rfl rfl rfl
  | collect => exact valid.idle (collect_cache _ _ _ _ _ _) rfl rfl rfl rfl
  | wait => exact valid.idle rfl rfl rfl rfl rfl
  | beat token => exact valid.beat delivery token _ _
  | receive _ waiting arrived => exact valid.receive waiting arrived
  | fail => exact valid.fail
  | save stored saving => exact valid.save firewall.staged saving stored
  | apply outcome applying => exact valid.apply firewall.staged applying outcome
  | finish => exact valid.idle (ack_cache _ _ _) rfl rfl rfl rfl
  | @deliver request now fresh stored token b there isFresh =>
    obtain ⟨own, -⟩ := delivery.sent (token, b) (List.mem_of_getElem? there)
    have effect := serve_effect hash w.db now stored (.ingest token b.coerced fresh)
    refine valid.serve firewall (.new rfl isFresh) (Or.inr ⟨fresh, isFresh, rfl⟩) effect later ?_
    simp only [Answers]
    cases answer : (ingest hash w.db.toFleet token b.coerced now fresh stored).1 with
    | error problem => exact Or.inl rfl
    | ok answered => exact Or.inr ⟨request, answered, rfl, ingest_sends firewall.rows.unique delivery.tokens own answer⟩
  | serve request now stored allowed =>
    exact valid.serve firewall allowed.draws allowed.extends (serve_effect hash w.db now stored request) later (Or.inl rfl)

theorem order_valid {history : List (Transition Deployment Act)} (run : Run (deployment hash owner home) history w) :
    OrderValid home w := by
  refine run.induct (fun _ => OrderValid home) ?_ fun history w act after before valid moved =>
    valid.step (delivery_valid before) (firewall_valid before) (firewall_valid (before.next moved)) moved
  rintro w ⟨empty, ⟨limit, installed⟩, -, responses⟩
  have policies : w.db.firewallPolicies = [] := congrArg Fleet.firewallPolicies empty
  have nothing : w.issued = [] := by simp [Deployment.issued, responses]
  have silent : ∀ p, ¬ w.agent.Holds p := by
    rintro p held
    simp [Agent.Holds, installed, Agent.installed, openSpool, Phase.policy] at held
  have none_has : ∀ p, ¬ w.Has p := by
    rintro p (held | ⟨n, response, member, -⟩)
    · exact silent p held
    · simp [responses] at member
  exact {
    desired := fun p there => (none_has p there).elim
    issued := by simp [nothing]
    distinct := fun p _ there => (none_has p there).elim
    held := fun p held => (silent p held).elim
    loaded := fun p loaded => (silent p (Or.inr (Or.inl loaded))).elim
    cached := fun p cached => (silent p (Or.inl cached)).elim
    awaited := fun p _ awaits => (none_has p awaits.has).elim
    keyed := by simp [policies]
    named := by simp [nothing] }

/-- The transition runs `nft` for the policy, and it may have loaded it. -/
def Loads (t : Transition Deployment Act) (p : FirewallPolicy) : Prop :=
  ∃ outcome rest, t.action = .apply outcome ∧ (∀ message, outcome ≠ .failed message) ∧ t.before.agent.phase = .applying p rest

theorem Loads.table {p : FirewallPolicy} (loads : Loads ⟨w, act, after⟩ p) (moved : Deployment.Step hash owner home w act after) :
    after.agent.table = some p := by
  obtain ⟨outcome, rest, rfl, other, applying⟩ := loads
  cases moved with
  | apply _ applying' =>
    obtain ⟨rfl, -⟩ := Phase.applying.inj (applying.symm.trans applying')
    cases outcome with
    | failed message => exact absurd rfl (other message)
    | loaded => rfl
    | killed => rfl

/-- The table only moves up. -/
theorem OrderValid.table_rises (valid : OrderValid home w) (staged : w.agent.Staged)
    (moved : Deployment.Step hash owner home w act after) {p : FirewallPolicy} (loaded : w.agent.table = some p) :
    ∃ q, after.agent.table = some q ∧ w.Has q ∧ w.rank p ≤ w.rank q := by
  have same : after.agent.table = w.agent.table → ∃ q, after.agent.table = some q ∧ w.Has q ∧ w.rank p ≤ w.rank q :=
    fun same => ⟨p, same.trans loaded, Or.inl (Or.inr (Or.inl loaded)), Nat.le_refl _⟩
  cases moved with
  | @apply outcome q rest applying =>
    obtain ⟨-, cache⟩ : w.agent.cached = some q ∧ w.agent.spool.db.firewallCache = some q := by
      rwa [Agent.Staged, applying] at staged
    obtain ⟨top, cached, below⟩ := valid.loaded p loaded
    obtain rfl : q = top := Option.some.inj (cache.symm.trans cached)
    cases outcome with
    | failed message => exact same rfl
    | loaded => exact ⟨q, rfl, Or.inl (Or.inl cache), below⟩
    | killed message => exact ⟨q, rfl, Or.inl (Or.inl cache), below⟩
  | start canTerminate =>
    refine same ?_
    simp only [Agent.start]
    split
    · rfl
    · split <;> rfl
  | fail =>
    refine same ?_
    simp only [Agent.fail]
    split <;> rfl
  | receive =>
    refine same ?_
    simp only [Agent.receive]
    split <;> rfl
  | save =>
    refine same ?_
    simp only [Agent.save]
    split <;> rfl
  | _ => exact same rfl

theorem step_extends (moved : Deployment.Step hash owner home w act after) : Extends w.drawn after.drawn := by
  cases moved with
  | deliver request now fresh stored _ isFresh => exact Or.inr ⟨fresh, isFresh, rfl⟩
  | serve request now stored allowed => exact allowed.extends
  | _ => exact Or.inl rfl

theorem step_has (moved : Deployment.Step hash owner home w act after) {p : FirewallPolicy} (listed : p ∈ w.issued) :
    p ∈ after.issued := by
  cases moved with
  | deliver request now fresh stored there isFresh =>
    obtain ⟨n, response, member, carries⟩ := Deployment.mem_issued.mp listed
    refine Deployment.mem_issued.mpr ⟨n, response, ?_, carries⟩
    simp only [Deployment.deliver]
    split
    · exact List.mem_append_left _ member
    · exact member
  | _ => exact listed

/-- What was loaded so far, newest first, is in order and not above the table. -/
structure LoadedInOrder (history : List (Transition Deployment Act)) (w : Deployment) : Prop where
  below : ∀ t ∈ history, ∀ p, Loads t p → p ∈ w.issued ∧ ∃ q, w.agent.table = some q ∧ w.rank p ≤ w.rank q
  sorted : history.Pairwise fun newer older => ∀ p q, Loads older p → Loads newer q → w.rank p ≤ w.rank q

theorem loaded_in_order {history : List (Transition Deployment Act)} (run : Run (deployment hash owner home) history w) :
    LoadedInOrder history w := by
  refine run.induct LoadedInOrder (fun _ _ => ⟨by simp, .nil⟩) ?_
  intro history w act after before order moved
  have step : Deployment.Step hash owner home w act after := moved
  have valid := order_valid before
  have firewall := firewall_valid before
  have kept : ∀ p ∈ w.issued, after.rank p = w.rank p :=
    fun p listed => rank_extends (step_extends step) (firewall.drawn p (valid.has.mpr listed))
  have older : ∀ t ∈ history, ∀ p, Loads t p → p ∈ after.issued ∧
      ∃ q, after.agent.table = some q ∧ after.rank p ≤ after.rank q := by
    intro t member p loads
    obtain ⟨listed, q, table, below⟩ := order.below t member p loads
    obtain ⟨r, later, has, above⟩ := valid.table_rises firewall.staged step table
    refine ⟨step_has step listed, r, later, ?_⟩
    rw [kept p listed, kept r (valid.has.mp has)]
    exact Nat.le_trans below above
  have now : ∀ p, Loads ⟨w, act, after⟩ p → after.agent.table = some p := fun p loads => loads.table step
  refine ⟨?_, List.pairwise_cons.mpr ⟨?_, ?_⟩⟩
  · intro t member p loads
    rcases List.mem_cons.mp member with rfl | earlier
    · have table := now p loads
      exact ⟨(order_valid (before.next moved)).held p (Or.inr (Or.inl table)), p, table, Nat.le_refl _⟩
    · exact older t earlier p loads
  · intro t member p q first second
    obtain ⟨-, top, table, below⟩ := older t member p first
    obtain rfl : q = top := Option.some.inj ((now q second).symm.trans table)
    exact below
  · refine order.sorted.imp_of_mem ?_
    intro newer old newer_listed old_listed less p q first second
    rw [kept p (order.below old old_listed p first).1, kept q (order.below newer newer_listed q second).1]
    exact less p q first second

/-- Every issue of the first policy comes before every issue of the second, or they are the same. -/
def Deployment.InOrder (w : Deployment) (p q : FirewallPolicy) : Prop :=
  p ∈ w.issued ∧ q ∈ w.issued ∧ (p = q ∨ ∀ i j : Nat, w.issued[i]? = some p → w.issued[j]? = some q → i < j)

theorem OrderValid.in_order (valid : OrderValid home w) (firewall : FirewallValid home w) {p q : FirewallPolicy}
    (first : p ∈ w.issued) (second : q ∈ w.issued) (below : w.rank p ≤ w.rank q) : w.InOrder p q := by
  refine ⟨first, second, ?_⟩
  by_cases same : p = q
  · exact Or.inl same
  · refine Or.inr fun i j at_i at_j => ?_
    by_contra late
    have order : w.rank q ≤ w.rank p := by
      rcases Nat.lt_or_eq_of_le (Nat.le_of_not_lt late) with before | rfl
      · obtain ⟨bound_j, here_j⟩ := List.getElem?_eq_some_iff.mp at_j
        obtain ⟨bound_i, here_i⟩ := List.getElem?_eq_some_iff.mp at_i
        have sorted := List.pairwise_iff_getElem.mp valid.issued j i bound_j bound_i before
        rwa [here_j, here_i] at sorted
      · exact absurd (Option.some.inj (at_i.symm.trans at_j)) same
    have first_has := valid.has.mpr first
    have second_has := valid.has.mpr second
    exact same (valid.distinct p q first_has second_has
      (rank_inj (firewall.drawn p first_has) (firewall.drawn q second_has) (Nat.le_antisymm below order)))

/-- The policies loaded in a run are in the order the server issued them, the cached
one is not older than the loaded one, and it is read back for the next start. -/
structure NeverGoesBack (history : List (Transition Deployment Act)) (w : Deployment) : Prop where
  loads : history.Pairwise fun newer older => ∀ p q, Loads older p → Loads newer q → w.InOrder p q
  table : ∀ p, w.agent.table = some p → ∃ q, w.agent.spool.db.firewallCache = some q ∧ w.InOrder p q
  reads : ∀ p, w.agent.spool.db.firewallCache = some p → ∀ nils, ∃ q,
    saveFirewall none nils p true = (.ok (), some (marshalPolicy nils p)) ∧
      cachedFirewall (some (marshalPolicy nils p)) = .ok (some q) ∧ q.Same p ∧ q.validate = .ok ()
  restart : ∀ p, w.agent.spool.db.firewallCache = some p → ∀ canTerminate,
    (w.agent.start canTerminate).phase = .saving p none ∧ ∀ q, w.agent.table = some q → w.InOrder q p

theorem kernel_policy_never_goes_back {history : List (Transition Deployment Act)}
    (run : Run (deployment hash owner home) history w) : NeverGoesBack history w := by
  have valid := order_valid run
  have firewall := firewall_valid run
  have order := loaded_in_order run
  have table : ∀ p, w.agent.table = some p → ∃ q, w.agent.spool.db.firewallCache = some q ∧ w.InOrder p q := by
    intro p loaded
    obtain ⟨q, cached, below⟩ := valid.loaded p loaded
    exact ⟨q, cached, valid.in_order firewall (valid.held p (Or.inr (Or.inl loaded))) (valid.held q (Or.inl cached)) below⟩
  refine ⟨?_, table, ?_, ?_⟩
  · refine order.sorted.imp_of_mem ?_
    intro newer older newer_listed older_listed less p q first second
    exact valid.in_order firewall (order.below older older_listed p first).1 (order.below newer newer_listed q second).1
      (less p q first second)
  · intro p cached nils
    have checked := (valid.cached p cached).1
    obtain ⟨q, reads, same, again⟩ := cachedFirewall_saved checked (valid.named p (valid.held p (Or.inl cached))) nils
    exact ⟨q, by simp only [saveFirewall, checked, if_true], reads, same, again⟩
  · intro p cached canTerminate
    refine ⟨?_, fun q loaded => ?_⟩
    · have checked : p.isValid = true := by simp only [FirewallPolicy.isValid, (valid.cached p cached).1]
      simp only [Agent.start, openSpool, cached, checked, if_true]
    · obtain ⟨r, same, order⟩ := table q loaded
      exact Option.some.inj (cached.symm.trans same) ▸ order

end Order

/-- The agent stops between saving and loading a policy, and gets a second one after its restart. -/
def lateBan : Request := .requestFirewall "s1" "root" ⟨"r2", "r3", "h2"⟩ (.ban "10.0.0.8" true)

def latePolicy : FirewallPolicy := { banPolicy with revision := "r3", bans := [⟨"10.0.0.9", false⟩, ⟨"10.0.0.8", true⟩] }

theorem kernel_policy_never_goes_back_late : ∃ history w, NeverGoesBack history w ∧
    w.issued = [banPolicy, latePolicy] ∧ w.agent.table = some banPolicy ∧
    w.agent.spool.db.firewallCache = some latePolicy := by
  have stopped := savedBan.property.next .stop
  have restarted := stopped.next (.start true rfl)
  have resaved := restarted.next (@Deployment.Step.save _ _ _ _ true banPolicy none (by decide +kernel))
  have loaded := resaved.next (@Deployment.Step.apply _ _ _ _ .loaded banPolicy none (by decide +kernel))
  have again := loaded.next (.collect ⟨Bytes.utf8 "b", true, id⟩ quietLog 2000000 true true rfl)
  have reported := again.next (@Deployment.Step.beat _ _ _ _ "t1" true true (some []) (Bytes.utf8 "ok")
    (by decide +kernel) rfl)
  have changed := reported.next (.serve lateBan 3000 true ⟨⟨by decide, by decide⟩, rfl⟩)
  have late := changed.next (.deliver 1 2000000 "p2" true rfl ⟨by decide, by decide⟩)
  have newer := late.next (@Deployment.Step.receive _ _ _ _ ⟨some latePolicy, 0, []⟩ 1 [] (by decide +kernel) (by decide +kernel))
  have kept := newer.next (@Deployment.Step.save _ _ _ _ true latePolicy (some ⟨[], []⟩) (by decide +kernel))
  exact ⟨_, _, kernel_policy_never_goes_back kept, by decide +kernel, by decide +kernel, by decide +kernel⟩

end SshLogger
