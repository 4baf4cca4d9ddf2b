import SshLogger.Proofs.Delivery

/-! An acknowledged firewall policy is the one in force. Four copies of a policy
(desired, cached, loaded, acknowledged) are tied together by one invariant over
the agent, the requests it sent and the answers it may still receive. -/

namespace SshLogger
open Library Library.History

def Confirms (b : Batch) (p : FirewallPolicy) : Prop :=
  b.firewallResult = some ⟨p.revision, []⟩ ∧ isCompatible p b = true

structure PolicyRow.Same (old row : PolicyRow) : Prop where
  serverId : row.serverId = old.serverId
  revision : row.revision = old.revision
  policy : row.policy = old.policy

section Ingest
variable {db : Fleet} {server fresh : String} {b : Batch} {now : Int}

theorem readPolicy_stored (unique : Rows.Unique PolicyRow.serverId db.firewallPolicies) {row : PolicyRow}
    (member : row ∈ db.firewallPolicies) (fresh : String) : readPolicy db row.serverId fresh = row.policy := by
  simp only [readPolicy]
  split
  next other found =>
    have same : other.serverId = row.serverId := by simpa using List.find?_some found
    rw [unique.eq (List.mem_of_find?_eq_some found) member same]
  next absent => exact absurd (List.find?_eq_none.mp absent row member) (by simp)

theorem readPolicy_absent (absent : ∀ row ∈ db.firewallPolicies, row.serverId ≠ server) :
    readPolicy db server fresh = emptyPolicy fresh := by
  simp only [readPolicy]
  split
  next other found => exact absurd (by simpa using List.find?_some found) (absent other (List.mem_of_find?_eq_some found))
  · rfl

def probedRows (db : Fleet) (server fresh : String) (b : Batch) : List PolicyRow :=
  Rows.upsert PolicyRow.serverId
    ⟨server, (readPolicy db server fresh).revision, readPolicy db server fresh, "", [], 0, capability b⟩
    (fun row => { row with capable := capability b }) db.firewallPolicies

theorem mem_probedRows {row : PolicyRow} (member : row ∈ probedRows db server fresh b) :
    (∃ old ∈ db.firewallPolicies, old.Same row ∧ row.appliedRevision = old.appliedRevision) ∨
      (∀ old ∈ db.firewallPolicies, old.serverId ≠ server) ∧ row.serverId = server ∧ row.revision = fresh ∧
        row.policy = emptyPolicy fresh ∧ row.appliedRevision = "" := by
  rcases Rows.mem_upsert member with ⟨old, -⟩ | ⟨absent, rfl⟩ | ⟨old, there, -, rfl⟩
  · exact Or.inl ⟨row, old, ⟨rfl, rfl, rfl⟩, rfl⟩
  · have none_stored := Rows.has_false_iff.mp absent
    have empty : readPolicy db server fresh = emptyPolicy fresh := readPolicy_absent none_stored
    exact Or.inr ⟨none_stored, rfl, by rw [empty]; rfl, empty, rfl⟩
  · exact Or.inl ⟨old, there, ⟨rfl, rfl, rfl⟩, rfl⟩

theorem probedRows_unique (unique : Rows.Unique PolicyRow.serverId db.firewallPolicies) :
    Rows.Unique PolicyRow.serverId (probedRows db server fresh b) := unique.upsert _ fun _ => rfl

theorem probedRows_policy (unique : Rows.Unique PolicyRow.serverId db.firewallPolicies) {row : PolicyRow}
    (member : row ∈ probedRows db server fresh b) (own : row.serverId = server) :
    row.policy = readPolicy db server fresh := by
  rcases mem_probedRows member with ⟨old, there, same, -⟩ | ⟨absent, -, -, empty, -⟩
  · rw [same.policy, ← readPolicy_stored unique there fresh, ← same.serverId, own]
  · rw [empty, readPolicy_absent absent]

theorem probedRows_own (db : Fleet) (server fresh : String) (b : Batch) :
    ∃ row ∈ probedRows db server fresh b, row.serverId = server :=
  Rows.exists_upsert_self (by intro; rfl) _ _

/-- A report changes only what is known about the policy, never the policy. -/
theorem reportFirewall_policies {p : FirewallPolicy} {result : FirewallResult} {row : PolicyRow}
    (member : row ∈ (reportFirewall db server p (isCompatible p b) result now).firewallPolicies) :
    ∃ old ∈ db.firewallPolicies, old.Same row ∧
      (row.appliedRevision = old.appliedRevision ∨ row.serverId = server ∧ (row.appliedRevision = "" ∨
        row.appliedRevision = p.revision ∧ result = ⟨p.revision, []⟩ ∧ isCompatible p b = true)) := by
  simp only [reportFirewall] at member
  split at member
  next named =>
    obtain ⟨old, there, ⟨own, rfl⟩ | ⟨-, rfl⟩⟩ := Rows.mem_update.mp member
    · refine ⟨old, there, ⟨rfl, rfl, rfl⟩, Or.inr ⟨by simpa using own, ?_⟩⟩
      simp only
      split
      next accepted =>
        simp only [Bool.and_eq_true, beq_iff_eq] at accepted named
        exact Or.inr ⟨rfl, by rw [← named, ← accepted.1], accepted.2⟩
      · exact Or.inl rfl
    · exact ⟨old, there, ⟨rfl, rfl, rfl⟩, Or.inl rfl⟩
  · exact ⟨row, member, ⟨rfl, rfl, rfl⟩, Or.inl rfl⟩

theorem reportFirewall_unique {p : FirewallPolicy} {compatible : Bool} {result : FirewallResult}
    (unique : Rows.Unique PolicyRow.serverId db.firewallPolicies) :
    Rows.Unique PolicyRow.serverId (reportFirewall db server p compatible result now).firewallPolicies := by
  simp only [reportFirewall]
  split
  · exact unique.update fun _ => rfl
  · exact unique

theorem reportFirewall_keeps {p : FirewallPolicy} {compatible : Bool} {result : FirewallResult} {old : PolicyRow}
    (there : old ∈ db.firewallPolicies) :
    ∃ row ∈ (reportFirewall db server p compatible result now).firewallPolicies, old.Same row := by
  simp only [reportFirewall]
  split
  · cases own : old.serverId == server
    · exact ⟨old, Rows.mem_update_of_not there own, ⟨rfl, rfl, rfl⟩⟩
    · exact ⟨_, Rows.mem_update_of there own, ⟨rfl, rfl, rfl⟩⟩
  · exact ⟨old, there, ⟨rfl, rfl, rfl⟩⟩

theorem ingestFirewall_keeps {old : PolicyRow} (there : old ∈ probedRows db server fresh b) :
    ∃ row ∈ (ingestFirewall db server fresh b now).2.firewallPolicies, old.Same row := by
  simp only [ingestFirewall]
  split
  · exact reportFirewall_keeps there
  · exact ⟨old, there, ⟨rfl, rfl, rfl⟩⟩

theorem ingestFirewall_sends (unique : Rows.Unique PolicyRow.serverId db.firewallPolicies) {p : FirewallPolicy}
    (sent : (ingestFirewall db server fresh b now).1 = some p) :
    ∃ row ∈ (ingestFirewall db server fresh b now).2.firewallPolicies, row.serverId = server ∧ row.policy = p := by
  obtain ⟨old, probed, own⟩ := probedRows_own db server fresh b
  obtain ⟨row, member, same⟩ := @ingestFirewall_keeps db server fresh b now old probed
  refine ⟨row, member, same.serverId.trans own, ?_⟩
  rw [same.policy, probedRows_policy unique probed own]
  simp only [ingestFirewall] at sent
  split at sent
  · exact Option.some.inj sent
  · cases sent

theorem ingestFirewall_policies (unique : Rows.Unique PolicyRow.serverId db.firewallPolicies) :
    Rows.Unique PolicyRow.serverId (ingestFirewall db server fresh b now).2.firewallPolicies ∧
      ∀ row ∈ (ingestFirewall db server fresh b now).2.firewallPolicies, ∃ old ∈ probedRows db server fresh b,
        old.Same row ∧ (row.appliedRevision = old.appliedRevision ∨ row.serverId = server ∧
          (row.appliedRevision = "" ∨ row.appliedRevision = row.policy.revision ∧ Confirms b row.policy)) := by
  simp only [ingestFirewall]
  split
  next result reported =>
    refine ⟨reportFirewall_unique (probedRows_unique unique), ?_⟩
    intro row member
    obtain ⟨old, there, same, applied⟩ := reportFirewall_policies member
    refine ⟨old, there, same, applied.imp id ?_⟩
    rintro ⟨own, outcome⟩
    refine ⟨own, outcome.imp id ?_⟩
    rintro ⟨named, rfl, compatible⟩
    have policy : row.policy = readPolicy db server fresh :=
      same.policy.trans (probedRows_policy unique there (same.serverId.symm.trans own))
    rw [Confirms, policy]
    exact ⟨named, reported, compatible⟩
  · exact ⟨probedRows_unique unique, fun row member => ⟨row, member, ⟨rfl, rfl, rfl⟩, Or.inl rfl⟩⟩

theorem ingestAs_policies (server : String) (db : Fleet) (b : Batch) (now : Int) (fresh : String) :
    ∃ start : Fleet, start.firewallPolicies = db.firewallPolicies ∧ start.firewallHistory = db.firewallHistory ∧
      (ingestAs server db b now fresh).2.firewallPolicies =
        (ingestFirewall start server fresh b now).2.firewallPolicies ∧
      (ingestAs server db b now fresh).2.firewallHistory = (ingestFirewall start server fresh b now).2.firewallHistory ∧
      (ingestAs server db b now fresh).1.firewall = (ingestFirewall start server fresh b now).1 := by
  obtain ⟨policies, history, -, -⟩ := reportTerminations_frame server now { db with
    serverControl := Rows.upsert ControlRow.serverId ⟨server, b.canTerminate⟩
      (fun row => { row with enabled := b.canTerminate }) db.serverControl } b.terminationResults
  refine ⟨(ingestTerminations db server b now).2, ?_, ?_, ?_, ?_, rfl⟩
  · rw [ingestTerminations_snd, policies]
  · rw [ingestTerminations_snd, history]
  · exact (storeEvents_frame server now _ b.events).2.1
  · exact (storeEvents_frame server now _ b.events).2.2.1

end Ingest

def HasHistory (db : Fleet) (server : String) : Prop := ∃ row ∈ db.firewallHistory, row.serverId = server

theorem hasHistory_update {rows : List HistoryRow} {selected : HistoryRow → Bool} {change : HistoryRow → HistoryRow}
    (keeps : ∀ row, (change row).serverId = row.serverId) (server : String) :
    (∃ row ∈ Rows.update selected change rows, row.serverId = server) ↔ ∃ row ∈ rows, row.serverId = server := by
  constructor
  · rintro ⟨row, member, same⟩
    obtain ⟨old, there, ⟨-, rfl⟩ | ⟨-, rfl⟩⟩ := Rows.mem_update.mp member
    · exact ⟨old, there, (keeps old).symm.trans same⟩
    · exact ⟨old, there, same⟩
  · rintro ⟨row, member, rfl⟩
    exact Rows.exists_update keeps member

theorem ingestAs_history (server : String) (db : Fleet) (b : Batch) (now : Int) (fresh other : String) :
    HasHistory (ingestAs server db b now fresh).2 other ↔ HasHistory db other := by
  obtain ⟨start, -, history, -, same, -⟩ := ingestAs_policies server db b now fresh
  simp only [HasHistory, same, ← history, ingestFirewall]
  split
  · simp only [reportFirewall]
    split
    · exact hasHistory_update (by intro; rfl) other
    · rfl
  · rfl

section
variable (db : Fleet) (r : ChangeRequest) (ids : ChangeIds) (p : FirewallPolicy)

theorem commitPolicy_history (server : String) :
    HasHistory (commitPolicy db r ids p) server ↔ HasHistory db server ∨ r.server = server := by
  simp only [HasHistory, commitPolicy, List.mem_append, List.mem_singleton, or_and_right, exists_or, exists_eq_left]
  rw [hasHistory_update (by intro; rfl)]

theorem commitPolicy_row : ∃ row ∈ (commitPolicy db r ids p).firewallPolicies, row.serverId = r.server :=
  Rows.exists_upsert_self (by intro; rfl) _ _

end

/-- History is only added, and only for a server whose policy is changed. -/
theorem ServeEffect.history {hash : String → String} {db : Db} {now : Int} {request : Request} {after : Fleet}
    (effect : ServeEffect hash db now request after) (server : String) :
    (HasHistory db.toFleet server → HasHistory after server) ∧ (HasHistory after server →
      HasHistory db.toFleet server ∨ ∃ row ∈ after.firewallPolicies, row.serverId = server) := by
  cases effect with
  | quiet => exact ⟨id, Or.inl⟩
  | created => exact ⟨id, Or.inl⟩
  | renamed => exact ⟨id, Or.inl⟩
  | rotated done =>
    obtain ⟨accounts, who, -, rfl⟩ := done.stored
    exact ⟨id, Or.inl⟩
  | requested done =>
    obtain ⟨username, rfl⟩ := done.stored
    exact ⟨id, Or.inl⟩
  | ingested =>
    rw [ingestAs_history]
    exact ⟨id, Or.inl⟩
  | @changed _ _ _ _ r p _ _ done =>
    rw [done.stored, commitPolicy_history]
    refine ⟨Or.inl, Or.imp id ?_⟩
    rintro rfl
    exact commitPolicy_row _ _ _ _

inductive PolicyOrigin (hash : String → String) (db after : Fleet) : Request → PolicyRow → Prop
  | kept {request row} (old : PolicyRow) : old ∈ db.firewallPolicies → old.Same row →
      row.appliedRevision = old.appliedRevision ∨ row.appliedRevision = "" → PolicyOrigin hash db after request row
  | confirmed {token b fresh row} (old : PolicyRow) : old ∈ db.firewallPolicies → old.Same row →
      authenticate db (hash token) = some row.serverId → row.appliedRevision = row.policy.revision →
      Confirms b row.policy → PolicyOrigin hash db after (.ingest token b fresh) row
  | created {token b fresh row} : (∀ old ∈ db.firewallPolicies, old.serverId ≠ row.serverId) →
      authenticate db (hash token) = some row.serverId → row.revision = fresh → row.policy = emptyPolicy fresh →
      row.appliedRevision = "" ∨ row.appliedRevision = fresh ∧ Confirms b row.policy →
      PolicyOrigin hash db after (.ingest token b fresh) row
  | changed {server username ids asked row} : row.serverId = server → HasHistory after server →
      row.revision = ids.revision → row.policy.revision = ids.revision →
      row.appliedRevision = "" ∨ (∃ old ∈ db.firewallPolicies, row.appliedRevision = old.appliedRevision) →
      PolicyOrigin hash db after (.requestFirewall server username ids asked) row

theorem ServeEffect.policies {hash : String → String} {db : Db} {now : Int} {request : Request} {after : Fleet}
    (effect : ServeEffect hash db now request after) (unique : Rows.Unique PolicyRow.serverId db.firewallPolicies) :
    Rows.Unique PolicyRow.serverId after.firewallPolicies ∧
      ∀ row ∈ after.firewallPolicies, PolicyOrigin hash db.toFleet after request row := by
  have kept : ∀ (fleet : Fleet) (request : Request), fleet.firewallPolicies = db.firewallPolicies →
      Rows.Unique PolicyRow.serverId fleet.firewallPolicies ∧
        ∀ row ∈ fleet.firewallPolicies, PolicyOrigin hash db.toFleet fleet request row := by
    intro fleet request same
    rw [same]
    exact ⟨unique, fun row member => .kept row member ⟨rfl, rfl, rfl⟩ (Or.inl rfl)⟩
  cases effect with
  | quiet => exact kept _ _ rfl
  | created => exact kept _ _ rfl
  | renamed => exact kept _ _ rfl
  | rotated done => exact kept _ _ done.frame.2.2.2.1
  | requested done =>
    obtain ⟨username, rfl⟩ := done.stored
    exact kept _ _ rfl
  | @changed server username ids asked r p _ target done =>
    rw [done.stored]
    refine ⟨unique.upsert _ fun _ => rfl, ?_⟩
    have recorded : HasHistory (commitPolicy db.toFleet r ids p) server :=
      ⟨_, List.mem_append_right _ (List.mem_singleton_self _), target⟩
    intro row member
    rcases Rows.mem_upsert member with ⟨there, -⟩ | ⟨-, rfl⟩ | ⟨old, there, own, rfl⟩
    · exact .kept row there ⟨rfl, rfl, rfl⟩ (Or.inl rfl)
    · exact .changed target recorded rfl done.revision (Or.inl rfl)
    · exact .changed (own.trans target) recorded rfl done.revision (Or.inr ⟨old, there, rfl⟩)
  | @ingested token b fresh server known =>
    obtain ⟨start, policies, -, same, -, -⟩ := ingestAs_policies server db.toFleet b.redacted now fresh
    rw [← policies] at unique
    obtain ⟨distinct, origin⟩ := @ingestFirewall_policies start server fresh b.redacted now unique
    rw [same]
    refine ⟨distinct, ?_⟩
    intro row member
    obtain ⟨old, probed, kept, applied⟩ := origin row member
    rcases mem_probedRows probed with ⟨first, there, before, as_before⟩ | ⟨absent, own, revision, empty, unapplied⟩
    · rw [policies] at there
      have same : first.Same row := ⟨kept.serverId.trans before.serverId, kept.revision.trans before.revision,
        kept.policy.trans before.policy⟩
      rcases applied with applied | ⟨own, applied | ⟨applied, confirms⟩⟩
      · exact .kept first there same (Or.inl (applied.trans as_before))
      · exact .kept first there same (Or.inr applied)
      · exact .confirmed first there same (own ▸ known) applied confirms
    · have own := kept.serverId.trans own
      have empty := kept.policy.trans empty
      refine .created (by rwa [own, ← policies]) (own ▸ known) (kept.revision.trans revision) empty ?_
      rcases applied with applied | ⟨-, applied | ⟨applied, confirms⟩⟩
      · exact Or.inl (applied.trans unapplied)
      · exact Or.inl applied
      · exact Or.inr ⟨by rw [applied, empty]; rfl, confirms⟩

/-- No server loses its policy. -/
theorem ServeEffect.keeps_policies {hash : String → String} {db : Db} {now : Int} {request : Request} {after : Fleet}
    (effect : ServeEffect hash db now request after) {old : PolicyRow} (there : old ∈ db.firewallPolicies) :
    ∃ row ∈ after.firewallPolicies, row.serverId = old.serverId := by
  cases effect with
  | quiet => exact ⟨old, there, rfl⟩
  | created => exact ⟨old, there, rfl⟩
  | renamed => exact ⟨old, there, rfl⟩
  | rotated done => exact ⟨old, done.frame.2.2.2.1 ▸ there, rfl⟩
  | requested done =>
    obtain ⟨username, rfl⟩ := done.stored
    exact ⟨old, there, rfl⟩
  | changed _ done =>
    rw [done.stored]
    exact Rows.exists_upsert (by intro; rfl) there
  | @ingested token b fresh server known =>
    obtain ⟨start, policies, -, same, -, -⟩ := ingestAs_policies server db.toFleet b.redacted now fresh
    rw [← policies] at there
    have probed : ∃ row ∈ probedRows start server fresh b.redacted, row.serverId = old.serverId :=
      Rows.exists_upsert (by intro; rfl) there
    obtain ⟨row, member, own⟩ := probed
    obtain ⟨last, stored, kept⟩ := @ingestFirewall_keeps start server fresh b.redacted now row member
    exact ⟨last, same ▸ stored, kept.serverId.trans own⟩

def Request.draw : Request → Option String
  | .ingest _ _ fresh => some fresh
  | .requestFirewall _ _ ids _ => some ids.revision
  | _ => none

structure Draws (drawn : List String) (request : Request) (next : List String) : Prop where
  kept : ∀ revision ∈ drawn, revision ∈ next
  fresh : ∀ revision, request.draw = some revision → IsFresh drawn revision ∧ revision ∈ next

theorem Draws.new {drawn : List String} {request : Request} {revision : String} (draw : request.draw = some revision)
    (fresh : IsFresh drawn revision) : Draws drawn request (revision :: drawn) :=
  ⟨fun _ => List.mem_cons_of_mem _, fun _ same => Option.some.inj (draw.symm.trans same) ▸ ⟨fresh, List.mem_cons_self⟩⟩

theorem Draws.none (drawn : List String) {request : Request} (draw : request.draw = none) : Draws drawn request drawn :=
  ⟨fun _ kept => kept, by simp [draw]⟩

theorem Admissible.draws {hash owner : String → String} {home : String} {drawn next : List String} {request : Request}
    (allowed : Admissible hash owner home drawn request next) : Draws drawn request next := by
  cases request with
  | ingest =>
    obtain ⟨-, fresh, rfl⟩ := allowed
    exact .new rfl fresh
  | requestFirewall =>
    obtain ⟨fresh, rfl⟩ := allowed
    exact .new rfl fresh
  | createServer =>
    obtain ⟨-, rfl⟩ := allowed
    exact .none _ rfl
  | changeToken =>
    obtain ⟨-, rfl⟩ := allowed
    exact .none _ rfl
  | _ =>
    obtain rfl := allowed
    exact .none _ rfl

structure PolicyRows (drawn : List String) (db : Fleet) : Prop where
  unique : Rows.Unique PolicyRow.serverId db.firewallPolicies
  named : ∀ row ∈ db.firewallPolicies, row.policy.revision = row.revision
  known : ∀ row ∈ db.firewallPolicies, row.revision ∈ drawn ∧ row.revision ≠ ""
  applied : ∀ row ∈ db.firewallPolicies, row.appliedRevision = "" ∨ row.appliedRevision ∈ drawn
  restricted : ∀ row ∈ db.firewallPolicies, row.policy.hasDropRules = true → HasHistory db row.serverId
  recorded : ∀ server, HasHistory db server → ∃ row ∈ db.firewallPolicies, row.serverId = server

theorem PolicyRows.serve {drawn next : List String} {hash : String → String} {db : Db} {now : Int} {request : Request}
    {after : Fleet} (valid : PolicyRows drawn db.toFleet) (draws : Draws drawn request next)
    (effect : ServeEffect hash db now request after) : PolicyRows next after := by
  obtain ⟨unique, origin⟩ := effect.policies valid.unique
  have history := effect.history
  refine ⟨unique, ?_, ?_, ?_, ?_, ?_⟩
  · intro row member
    cases origin row member with
    | kept old there same => rw [same.policy, same.revision, valid.named old there]
    | confirmed old there same => rw [same.policy, same.revision, valid.named old there]
    | created _ _ revision empty => rw [empty, revision]; rfl
    | changed _ _ revision named => rw [named, revision]
  · intro row member
    cases origin row member with
    | kept old there same =>
      rw [same.revision]
      exact ⟨draws.kept _ (valid.known old there).1, (valid.known old there).2⟩
    | confirmed old there same =>
      rw [same.revision]
      exact ⟨draws.kept _ (valid.known old there).1, (valid.known old there).2⟩
    | created _ _ revision =>
      rw [revision]
      exact ⟨(draws.fresh _ rfl).2, (draws.fresh _ rfl).1.1⟩
    | changed _ _ revision =>
      rw [revision]
      exact ⟨(draws.fresh _ rfl).2, (draws.fresh _ rfl).1.1⟩
  · intro row member
    have earlier : ∀ old ∈ db.firewallPolicies, row.appliedRevision = old.appliedRevision →
        row.appliedRevision = "" ∨ row.appliedRevision ∈ next := by
      intro old there same
      rw [same]
      exact (valid.applied old there).imp id (draws.kept _)
    cases origin row member with
    | kept old there _ applied => exact applied.elim (earlier old there) Or.inl
    | confirmed old there same _ applied =>
      rw [applied, same.policy, valid.named old there]
      exact Or.inr (draws.kept _ (valid.known old there).1)
    | created _ _ _ _ applied => exact applied.imp id fun ⟨same, _⟩ => same ▸ (draws.fresh _ rfl).2
    | changed _ _ _ _ applied => exact applied.elim Or.inl fun ⟨old, there, same⟩ => earlier old there same
  · intro row member restricted
    cases origin row member with
    | kept old there same =>
      rw [same.serverId]
      exact (history _).1 (valid.restricted old there (same.policy ▸ restricted))
    | confirmed old there same =>
      rw [same.serverId]
      exact (history _).1 (valid.restricted old there (same.policy ▸ restricted))
    | created _ _ _ empty => rw [empty] at restricted; cases restricted
    | changed own recorded => exact own ▸ recorded
  · intro server recorded
    rcases (history server).2 recorded with before | now
    · obtain ⟨old, there, own⟩ := valid.recorded server before
      exact own ▸ effect.keeps_policies there
    · exact now

def Phase.policy : Phase → Option FirewallPolicy
  | .saving p _ => some p
  | .applying p _ => some p
  | _ => none

def Agent.Holds (a : Agent) (p : FirewallPolicy) : Prop :=
  a.spool.db.firewallCache = some p ∨ a.table = some p ∨ a.cached = some p ∨ a.phase.policy = some p

/-- A policy is saved and loaded in this order. -/
def Agent.Staged (a : Agent) : Prop :=
  match a.phase with
  | .saving p _ => a.cached = some p
  | .applying p _ => a.cached = some p ∧ a.spool.db.firewallCache = some p
  | _ => True

/-- The policy of an answer the agent may still receive. -/
def Deployment.Awaits (w : Deployment) (p : FirewallPolicy) : Prop :=
  ∃ request events response, w.agent.phase.request = some (request, events) ∧ (request, response) ∈ w.responses ∧
    response.firewall = some p

def Deployment.Has (w : Deployment) (p : FirewallPolicy) : Prop :=
  w.agent.Holds p ∨ ∃ n response, (n, response) ∈ w.responses ∧ response.firewall = some p

/-- The agent has reported success for the revision, or will with its next batch. -/
def Deployment.Reported (w : Deployment) (revision : String) : Prop :=
  w.agent.firewallResult = some ⟨revision, []⟩ ∨ ∃ sent ∈ w.sent, sent.2.firewallResult = some ⟨revision, []⟩

/-- The policy is cached and loaded, and the agent can come by no other. -/
structure Deployment.Settled (w : Deployment) (p : FirewallPolicy) : Prop where
  cache : w.agent.spool.db.firewallCache = some p
  table : w.agent.table = some p
  held : ∀ q, w.agent.Holds q → q = p
  awaited : ∀ q, w.Awaits q → q = p

structure FirewallValid (home : String) (w : Deployment) : Prop where
  rows : PolicyRows w.drawn w.db.toFleet
  drawn : ∀ p, w.Has p → p.revision ∈ w.drawn
  current : ∀ p, w.Has p → ∀ row ∈ w.db.firewallPolicies, row.serverId = home → p.revision = row.revision → p = row.policy
  restricted : ∀ p, w.Has p → p.hasDropRules = true → HasHistory w.db.toFleet home
  reported : ∀ revision, w.Reported revision → revision ∈ w.drawn
  staged : w.agent.Staged
  settled : ∀ row ∈ w.db.firewallPolicies, row.serverId = home →
    w.Reported row.revision ∨ row.appliedRevision = row.revision → w.Settled row.policy

section Joint
variable {hash owner : String → String} {home : String} {w after : Deployment} {act : Act}

theorem Deployment.Awaits.has {p : FirewallPolicy} (awaits : w.Awaits p) : w.Has p := by
  obtain ⟨request, events, response, -, member, carries⟩ := awaits
  exact Or.inr ⟨request, response, member, carries⟩

/-- A step of the agent itself: it takes its policies from an answer it awaited, stays on a
settled policy, and newly reports only what it has saved and loaded. -/
theorem FirewallValid.agent (valid : FirewallValid home w) {agent : Agent}
    (holds : ∀ p, agent.Holds p → w.agent.Holds p ∨ w.Awaits p)
    (request : ∀ pair, agent.phase.request = some pair → w.agent.phase.request = some pair)
    (staged : agent.Staged)
    (stays : ∀ p, w.Settled p → agent.spool.db.firewallCache = some p ∧ agent.table = some p)
    (result : ∀ revision, agent.firewallResult = some ⟨revision, []⟩ →
      w.agent.firewallResult = some ⟨revision, []⟩ ∨ ∃ p, p.revision = revision ∧
        agent.spool.db.firewallCache = some p ∧ agent.table = some p ∧ (∀ q, agent.Holds q → q = p) ∧
        agent.phase.request = none) : FirewallValid home { w with agent } := by
  have has : ∀ p, ({ w with agent } : Deployment).Has p → w.Has p := by
    rintro p (held | answer)
    · exact (holds p held).elim Or.inl Deployment.Awaits.has
    · exact Or.inr answer
  have awaits : ∀ p, ({ w with agent } : Deployment).Awaits p → w.Awaits p := by
    rintro p ⟨n, events, response, asked, answer⟩
    exact ⟨n, events, response, request _ asked, answer⟩
  have settled : ∀ p, w.Settled p → ({ w with agent } : Deployment).Settled p := by
    intro p before
    refine ⟨(stays p before).1, (stays p before).2, ?_, fun q awaited => before.awaited q (awaits q awaited)⟩
    exact fun q held => (holds q held).elim (before.held q) (before.awaited q)
  refine { valid with drawn := ?_, current := ?_, restricted := ?_, reported := ?_, staged, settled := ?_ }
  · exact fun p there => valid.drawn p (has p there)
  · exact fun p there => valid.current p (has p there)
  · exact fun p there => valid.restricted p (has p there)
  · rintro revision (now | earlier)
    · rcases result revision now with before | ⟨p, rfl, cache, -⟩
      · exact valid.reported revision (Or.inl before)
      · exact valid.drawn p (has p (Or.inl (Or.inl cache)))
    · exact valid.reported revision (Or.inr earlier)
  · rintro row member own ((now | earlier) | applied)
    · rcases result row.revision now with before | ⟨p, same, cache, table, held, quiet⟩
      · exact settled _ (valid.settled row member own (Or.inl (Or.inl before)))
      · obtain rfl := valid.current p (has p (Or.inl (Or.inl cache))) row member own same
        refine ⟨cache, table, held, ?_⟩
        rintro q ⟨n, events, response, asked, -⟩
        simp [quiet] at asked
    · exact settled _ (valid.settled row member own (Or.inl (Or.inr earlier)))
    · exact settled _ (valid.settled row member own (Or.inr applied))

def Sends (home : String) (w : Deployment) (db : Db) (responses : List (Nat × IngestResponse)) : Prop :=
  ∀ n response, (n, response) ∈ responses → (n, response) ∈ w.responses ∨
    ∀ p, response.firewall = some p → ∃ row ∈ db.firewallPolicies, row.serverId = home ∧ row.policy = p

theorem Sends.has {db : Db} {responses : List (Nat × IngestResponse)} (sends : Sends home w db responses)
    {next : List String} {p : FirewallPolicy} (there : ({ w with db, responses, drawn := next } : Deployment).Has p) :
    w.Has p ∨ ∃ row ∈ db.firewallPolicies, row.serverId = home ∧ row.policy = p := by
  rcases there with held | ⟨n, response, member, carries⟩
  · exact Or.inl (Or.inl held)
  · rcases sends n response member with before | sent
    · exact Or.inl (Or.inr ⟨n, response, before, carries⟩)
    · exact Or.inr (sent p carries)

/-- A request of anyone leaves the agent alone. Only the agent's own requests
speak for its server, and only its server's policy is sent to it. -/
theorem FirewallValid.serve (valid : FirewallValid home w) {now : Int} {request : Request} {db : Db}
    {responses : List (Nat × IngestResponse)} {next : List String} (draws : Draws w.drawn request next)
    (effect : ServeEffect hash w.db now request db.toFleet)
    (own : ∀ token b fresh p, request = .ingest token b fresh → authenticate w.db.toFleet (hash token) = some home →
      Confirms b p → w.Reported p.revision)
    (sends : Sends home w db responses) : FirewallValid home { w with db, responses, drawn := next } := by
  have rows := valid.rows.serve draws effect
  have origin := (effect.policies valid.rows.unique).2
  -- The policy of an unchanged row stays settled; an answer sent now carries it too.
  have settled : ∀ old, old ∈ w.db.firewallPolicies → ∀ row ∈ db.firewallPolicies, row.serverId = home → old.Same row →
      w.Reported row.revision ∨ old.appliedRevision = row.revision →
      ({ w with db, responses, drawn := next } : Deployment).Settled row.policy := by
    intro old there row member home_row same cause
    rw [same.revision] at cause
    have before := valid.settled old there (same.serverId.symm.trans home_row) cause
    rw [same.policy]
    refine ⟨before.cache, before.table, before.held, ?_⟩
    rintro q ⟨n, events, response, asked, answer, carries⟩
    rcases sends n response answer with old_answer | sent
    · exact before.awaited q ⟨n, events, response, asked, old_answer, carries⟩
    · obtain ⟨other, stored, also, rfl⟩ := sent q carries
      rw [rows.unique.eq stored member (also.trans home_row.symm), same.policy]
  have unreported : ∀ revision, IsFresh w.drawn revision → ¬w.Reported revision :=
    fun revision fresh reported => fresh.2 (valid.reported revision reported)
  refine ⟨rows, ?_, ?_, ?_, ?_, valid.staged, ?_⟩
  · intro p there
    rcases sends.has there with before | ⟨row, member, -, rfl⟩
    · exact draws.kept _ (valid.drawn p before)
    · exact rows.named row member ▸ (rows.known row member).1
  · intro p there row member home_row same
    rcases sends.has there with before | ⟨other, stored, also, rfl⟩
    · have undrawn : ∀ revision, IsFresh w.drawn revision → row.revision ≠ revision :=
        fun revision fresh equal => fresh.2 (equal ▸ same ▸ valid.drawn p before)
      cases origin row member with
      | kept old there kept =>
        rw [kept.policy]
        exact valid.current p before old there (kept.serverId.symm.trans home_row) (same.trans kept.revision)
      | confirmed old there kept =>
        rw [kept.policy]
        exact valid.current p before old there (kept.serverId.symm.trans home_row) (same.trans kept.revision)
      | created _ _ revision => exact absurd revision (undrawn _ (draws.fresh _ rfl).1)
      | changed _ _ revision => exact absurd revision (undrawn _ (draws.fresh _ rfl).1)
    · rw [rows.unique.eq stored member (also.trans home_row.symm)]
  · intro p there drops
    rcases sends.has there with before | ⟨row, member, home_row, rfl⟩
    · exact (effect.history home).1 (valid.restricted p before drops)
    · exact home_row ▸ rows.restricted row member drops
  · exact fun revision reported => draws.kept _ (valid.reported revision reported)
  · intro row member home_row cause
    have named := (rows.known row member).2
    cases origin row member with
    | kept old there kept applied =>
      refine settled old there row member home_row kept (cause.imp id fun equal => ?_)
      rcases applied with applied | applied
      · exact applied.symm.trans equal
      · exact absurd (equal.symm.trans applied) named
    | confirmed old there kept known _ confirms =>
      have reported := own _ _ _ _ rfl (home_row ▸ known) confirms
      exact settled old there row member home_row kept (Or.inl (rows.named row member ▸ reported))
    | created _ known revision _ applied =>
      have fresh := unreported _ (draws.fresh _ rfl).1
      rcases cause with reported | equal
      · exact absurd (revision ▸ reported) fresh
      · rcases applied with applied | ⟨-, confirms⟩
        · exact absurd (equal.symm.trans applied) named
        · have reported := own _ _ _ _ rfl (home_row ▸ known) confirms
          exact absurd (revision ▸ rows.named row member ▸ reported) fresh
    | changed _ _ revision _ applied =>
      have fresh := (draws.fresh _ rfl).1
      rcases cause with reported | equal
      · exact absurd (revision ▸ reported) (unreported _ fresh)
      · rcases applied with applied | ⟨old, there, applied⟩
        · exact absurd (equal.symm.trans applied) named
        · rcases valid.rows.applied old there with nothing | earlier
          · exact absurd (equal.symm.trans (applied.trans nothing)) named
          · exact absurd (revision ▸ equal ▸ applied ▸ earlier) fresh.2

theorem collect_cache (s : Spool) (c : Collector) (dir : LogDir) (now : Int) (attached stored : Bool) :
    (s.collect c dir now attached stored).1.db.firewallCache = s.db.firewallCache := by
  rcases collect_cases s c dir now attached stored with same | ⟨-, same⟩ | ⟨next, passed, -, same | same⟩ <;> rw [same] <;> rfl

theorem ack_cache (s : Spool) (events : List Event) (stored : Bool) :
    (s.ack events stored).db.firewallCache = s.db.firewallCache := by
  unfold Spool.ack
  split <;> rfl

theorem Agent.resume_policy (rest : Option Answered) : (Agent.resume rest).policy = none := by
  cases rest <;> rfl

theorem Agent.resume_staged {a : Agent} {rest : Option Answered} (resumed : a.phase = Agent.resume rest) : a.Staged := by
  cases rest <;> simp [Agent.Staged, resumed, Agent.resume]

theorem Agent.holds_start {a : Agent} {canTerminate : Bool} {p : FirewallPolicy}
    (held : (a.start canTerminate).Holds p) : a.Holds p := by
  simp only [Agent.start] at held
  split at held
  · rcases held with held | held | held | held
    · exact Or.inl held
    · exact Or.inr (Or.inl held)
    · cases held
    · cases held
  next q cached =>
    split at held
    · rcases held with held | held | held | held
      · exact Or.inl held
      · exact Or.inr (Or.inl held)
      · exact Or.inl (cached.trans held)
      · exact Or.inl (cached.trans held)
    · exact held.imp id (Or.imp id (Or.imp id (by simp [Phase.policy])))

theorem Agent.holds_waiting {a : Agent} {n : Nat} {events : List Event} {p : FirewallPolicy}
    (held : ({ a with phase := .waiting n events } : Agent).Holds p) : a.Holds p :=
  held.imp id (Or.imp id (Or.imp id (by simp [Phase.policy])))

theorem Agent.holds_fail {a : Agent} {p : FirewallPolicy} (held : a.fail.Holds p) : a.Holds p := by
  simp only [Agent.fail] at held
  split at held
  · exact held.imp id (Or.imp id (Or.imp id (by simp [Phase.policy])))
  next q cached =>
    rcases held with held | held | held | held
    · exact Or.inl held
    · exact Or.inr (Or.inl held)
    · exact Or.inr (Or.inr (Or.inl held))
    · exact Or.inr (Or.inr (Or.inl (cached.trans held)))

theorem Agent.holds_receive {a : Agent} {events : List Event} {response : IngestResponse} {p : FirewallPolicy}
    (held : (a.receive events response).Holds p) : a.Holds p ∨ response.firewall = some p := by
  simp only [Agent.receive] at held
  split at held
  · exact Or.inl (held.imp id (Or.imp id (Or.imp id (by simp [Phase.policy]))))
  next q carries =>
    rcases held with held | held | held | held
    · exact Or.inl (Or.inl held)
    · exact Or.inl (Or.inr (Or.inl held))
    · exact Or.inr (carries.trans held)
    · exact Or.inr (carries.trans held)

theorem Agent.holds_save {a : Agent} {p q : FirewallPolicy} {rest : Option Answered} {stored : Bool}
    (saving : a.phase = .saving q rest) (held : (a.save q rest stored).Holds p) : a.Holds p := by
  have saved : some q = some p → a.Holds p := fun same => Or.inr (Or.inr (Or.inr (by simpa [saving, Phase.policy] using same)))
  simp only [Agent.save] at held
  split at held
  · rcases held with held | held | held | held
    · exact saved held
    · exact Or.inr (Or.inl held)
    · exact Or.inr (Or.inr (Or.inl held))
    · exact saved held
  · exact held.imp id (Or.imp id (Or.imp id (by simp [Agent.resume_policy])))

theorem Agent.holds_apply {a : Agent} {p q : FirewallPolicy} {rest : Option Answered} {outcome : NftOutcome}
    (applying : a.phase = .applying q rest) (held : (a.apply q rest outcome).Holds p) : a.Holds p := by
  have applied : some q = some p → a.Holds p :=
    fun same => Or.inr (Or.inr (Or.inr (by simpa [applying, Phase.policy] using same)))
  have resumed : (Agent.resume rest).policy = some p → a.Holds p := by simp [Agent.resume_policy]
  cases outcome <;> rcases held with held | held | held | held
  case loaded.inr.inl => exact applied held
  case killed.inr.inl => exact applied held
  case failed.inr.inl => exact Or.inr (Or.inl held)
  all_goals first
    | exact Or.inl held
    | exact Or.inr (Or.inr (Or.inl held))
    | exact resumed held

/-- A step that changes neither the policies nor the report. -/
theorem FirewallValid.idle (valid : FirewallValid home w) {agent : Agent}
    (cache : agent.spool.db.firewallCache = w.agent.spool.db.firewallCache) (table : agent.table = w.agent.table)
    (cached : agent.cached = w.agent.cached) (policy : agent.phase.policy = none) (request : agent.phase.request = none)
    (result : agent.firewallResult = w.agent.firewallResult ∨ agent.firewallResult = none) :
    FirewallValid home { w with agent } := by
  refine valid.agent ?_ (by simp [request]) ?_ ?_ ?_
  · rintro p (held | held | held | held)
    · exact Or.inl (Or.inl (cache ▸ held))
    · exact Or.inl (Or.inr (Or.inl (table ▸ held)))
    · exact Or.inl (Or.inr (Or.inr (Or.inl (cached ▸ held))))
    · simp [policy] at held
  · cases phase : agent.phase <;> simp_all [Agent.Staged, Phase.policy]
  · exact fun p settled => ⟨cache.trans settled.cache, table.trans settled.table⟩
  · intro revision reported
    rcases result with same | nothing
    · exact Or.inl (same ▸ reported)
    · simp [nothing] at reported

theorem FirewallValid.start (valid : FirewallValid home w) (canTerminate : Bool) :
    FirewallValid home { w with agent := w.agent.start canTerminate } := by
  refine valid.agent (fun p held => Or.inl (Agent.holds_start held)) (by simp [(Agent.start_phase w.agent _).1]) ?_ ?_ ?_
  · simp only [Agent.start]
    split
    · trivial
    · split
      · exact rfl
      · trivial
  · intro p settled
    simp only [Agent.start]
    split
    · exact ⟨settled.cache, settled.table⟩
    · split <;> exact ⟨settled.cache, settled.table⟩
  · intro revision reported
    simp only [Agent.start] at reported
    split at reported
    · cases reported
    · split at reported <;> cases reported

theorem FirewallValid.fail (valid : FirewallValid home w) : FirewallValid home { w with agent := w.agent.fail } := by
  refine valid.agent (fun p held => Or.inl (Agent.holds_fail held)) (by simp [(Agent.fail_frame w.agent).2.1]) ?_ ?_ ?_
  all_goals
    simp only [Agent.fail]
    split
  · trivial
  next cached => exact cached
  · exact fun p settled => ⟨settled.cache, settled.table⟩
  · exact fun p settled => ⟨settled.cache, settled.table⟩
  · exact fun _ => Or.inl
  · exact fun _ => Or.inl

theorem FirewallValid.receive (valid : FirewallValid home w) {request : Nat} {events : List Event}
    {response : IngestResponse} (waiting : w.agent.phase = .waiting request events)
    (arrived : (request, response) ∈ w.responses) :
    FirewallValid home { w with agent := w.agent.receive events response } := by
  refine valid.agent (fun p held => (Agent.holds_receive held).imp id fun carries => ?_)
    (by simp [(Agent.receive_frame w.agent _ _).2.1]) ?_ ?_ ?_
  · exact ⟨request, events, response, by simp [waiting, Phase.request], arrived, carries⟩
  all_goals
    simp only [Agent.receive]
    split
  · trivial
  · exact rfl
  · exact fun p settled => ⟨settled.cache, settled.table⟩
  · exact fun p settled => ⟨settled.cache, settled.table⟩
  · exact fun _ => Or.inl
  · exact fun _ => Or.inl

theorem FirewallValid.save (valid : FirewallValid home w) {p : FirewallPolicy} {rest : Option Answered}
    (saving : w.agent.phase = .saving p rest) (stored : Bool) :
    FirewallValid home { w with agent := w.agent.save p rest stored } := by
  have held : w.agent.Holds p := Or.inr (Or.inr (Or.inr (by simp [saving, Phase.policy])))
  have cached : w.agent.cached = some p := by
    have staged := valid.staged
    rwa [Agent.Staged, saving] at staged
  refine valid.agent (fun q there => Or.inl (Agent.holds_save saving there))
    (by simp [(Agent.save_frame w.agent p rest stored).2.2.1]) ?_ ?_ ?_
  all_goals
    simp only [Agent.save]
    split
  · exact ⟨cached, rfl⟩
  · exact Agent.resume_staged rfl
  · exact fun q settled => ⟨congrArg some (settled.held p held), settled.table⟩
  · exact fun q settled => ⟨settled.cache, settled.table⟩
  · exact fun _ => Or.inl
  · intro revision failed
    have message : Bytes.utf8 "방화벽 정책 로컬 저장 실패" ≠ [] := by decide +kernel
    exact absurd (congrArg FirewallResult.error (Option.some.inj failed)) message

theorem FirewallValid.apply (valid : FirewallValid home w) {p : FirewallPolicy} {rest : Option Answered}
    (applying : w.agent.phase = .applying p rest) (outcome : NftOutcome) :
    FirewallValid home { w with agent := w.agent.apply p rest outcome } := by
  have staged := valid.staged
  rw [Agent.Staged, applying] at staged
  obtain ⟨cached, cache⟩ := staged
  have held : w.agent.Holds p := Or.inl cache
  have failed : ∀ message revision, (some ⟨p.revision, Bytes.utf8 "nft 적용 실패: " ++ message⟩ : Option FirewallResult) =
      some ⟨revision, []⟩ → False := by
    intro message revision same
    have empty := congrArg FirewallResult.error (Option.some.inj same)
    exact absurd (List.append_eq_nil_iff.mp empty).1 (by decide +kernel)
  refine valid.agent (fun q there => Or.inl (Agent.holds_apply applying there))
    (by simp [(Agent.apply_frame w.agent p rest outcome).2.1]) ?_ ?_ ?_
  · cases outcome <;> exact Agent.resume_staged rfl
  · intro q settled
    have loaded := congrArg some (settled.held p held)
    cases outcome <;> first | exact ⟨settled.cache, loaded⟩ | exact ⟨settled.cache, settled.table⟩
  · intro revision reported
    cases outcome with
    | failed message => exact (failed message revision reported).elim
    | killed message => exact (failed message revision reported).elim
    | loaded =>
      have named := congrArg FirewallResult.revision (Option.some.inj reported)
      refine Or.inr ⟨p, named, cache, rfl, ?_, (Agent.resume_phase rest).1⟩
      rintro q (same | same | same | same)
      · exact Option.some.inj (same.symm.trans cache)
      · exact (Option.some.inj same).symm
      · exact Option.some.inj (same.symm.trans cached)
      · simp [Agent.apply, Agent.resume_policy] at same

/-- A new request has no answer yet, and it repeats a report already known. -/
theorem FirewallValid.beat (valid : FirewallValid home w) (delivery : DeliveryValid owner hash home w) (token : String)
    {b : Batch} (repeats : b.firewallResult = w.agent.firewallResult) {events : List Event} :
    FirewallValid home { w with
      sent := w.sent ++ [(token, b)], agent := { w.agent with phase := .waiting w.sent.length events } } := by
  let next : Deployment := { w with
    sent := w.sent ++ [(token, b)], agent := { w.agent with phase := .waiting w.sent.length events } }
  have holds : ∀ p, next.agent.Holds p → w.agent.Holds p := fun _ => Agent.holds_waiting
  have unanswered : ∀ p, ¬next.Awaits p := by
    rintro p ⟨n, _, response, asked, answer, -⟩
    obtain ⟨rfl, -⟩ := Prod.mk.inj (Option.some.inj asked)
    obtain ⟨_, _, there, -⟩ := delivery.responses _ response answer
    simp at there
  have has : ∀ p, next.Has p → w.Has p := fun p => Or.imp (holds p) id
  have reported : ∀ revision, next.Reported revision → w.Reported revision := by
    rintro revision (now | ⟨sent, member, same⟩)
    · exact Or.inl now
    · rcases List.mem_append.mp member with old | new
      · exact Or.inr ⟨sent, old, same⟩
      · obtain rfl := List.mem_singleton.mp new
        exact Or.inl (repeats.symm.trans same)
  exact {
    rows := valid.rows
    drawn := fun p there => valid.drawn p (has p there)
    current := fun p there => valid.current p (has p there)
    restricted := fun p there => valid.restricted p (has p there)
    reported := fun revision there => valid.reported revision (reported revision there)
    staged := trivial
    settled := by
      intro row member own cause
      have before := valid.settled row member own (cause.imp (reported _) id)
      exact ⟨before.cache, before.table, fun q there => before.held q (holds q there),
        fun q there => (unanswered q there).elim⟩ }

theorem Batch.coerced_confirms {b : Batch} {p : FirewallPolicy} (confirms : Confirms b.coerced p) :
    b.firewallResult = some ⟨p.revision, []⟩ := by
  obtain ⟨⟨revision, error⟩, reported, same⟩ := Option.map_eq_some_iff.mp confirms.1
  have named : revision = p.revision := congrArg FirewallResult.revision same
  have empty : error = [] := by
    by_contra message
    exact Bytes.coerce_ne_nil message (congrArg FirewallResult.error same)
  rw [reported, named, empty]

/-- An answer to the server's own agent carries the stored policy. -/
theorem ingest_sends {db : Fleet} {token : String} {b : Batch} {now : Int} {fresh : String} {stored : Bool}
    {response : IngestResponse} (unique : Rows.Unique PolicyRow.serverId db.firewallPolicies)
    (owned : TokensOwned owner db) (own : owner (hash token) = home)
    (answered : (ingest hash db token b now fresh stored).1 = .ok response) :
    ∀ p, response.firewall = some p →
      ∃ row ∈ (ingest hash db token b now fresh stored).2.firewallPolicies, row.serverId = home ∧ row.policy = p := by
  rcases ingest_cases hash db token b now fresh stored with ⟨problem, refused⟩ | ⟨server, known, served⟩
  · rw [refused] at answered
    cases answered
  · rw [served] at answered ⊢
    obtain rfl := Except.ok.inj answered
    obtain rfl : home = server := own.symm.trans (owned.authenticate known)
    obtain ⟨start, policies, -, after, -, firewall⟩ := ingestAs_policies home db b.redacted now fresh
    intro p carries
    rw [after]
    exact ingestFirewall_sends (policies ▸ unique) (firewall ▸ carries)

theorem FirewallValid.step (valid : FirewallValid home w) (delivery : DeliveryValid owner hash home w)
    (moved : Deployment.Step hash owner home w act after) : FirewallValid home after := by
  cases moved with
  | start canTerminate => exact valid.start canTerminate
  | stop => exact valid.idle rfl rfl rfl rfl rfl (Or.inl rfl)
  | collect => exact valid.idle (collect_cache _ _ _ _ _ _) rfl rfl rfl rfl (Or.inl rfl)
  | wait => exact valid.idle rfl rfl rfl rfl rfl (Or.inl rfl)
  | beat token => exact valid.beat delivery token rfl
  | receive _ waiting arrived => exact valid.receive waiting arrived
  | fail => exact valid.fail
  | save stored saving => exact valid.save saving stored
  | apply outcome applying => exact valid.apply applying outcome
  | finish => exact valid.idle (ack_cache _ _ _) rfl rfl rfl rfl (Or.inl rfl)
  | @deliver request now fresh stored token b there isFresh =>
    obtain ⟨own, -⟩ := delivery.sent (token, b) (List.mem_of_getElem? there)
    have effect := serve_effect hash w.db now stored (.ingest token b.coerced fresh)
    refine valid.serve (.new rfl isFresh) effect ?_ ?_
    · rintro _ _ _ p ⟨⟩ - confirms
      exact Or.inr ⟨(token, b), List.mem_of_getElem? there, b.coerced_confirms confirms⟩
    · intro n response member
      cases answer : (ingest hash w.db.toFleet token b.coerced now fresh stored).1 with
      | error problem =>
        rw [answer] at member
        exact Or.inl member
      | ok answered =>
        rw [answer] at member
        rcases List.mem_append.mp member with old | new
        · exact Or.inl old
        · obtain ⟨rfl, rfl⟩ := Prod.mk.inj (List.mem_singleton.mp new)
          exact Or.inr (ingest_sends valid.rows.unique delivery.tokens own answer)
  | serve request now stored allowed =>
    refine valid.serve allowed.draws (serve_effect hash w.db now stored request) ?_ fun _ _ => Or.inl
    rintro token b fresh p rfl known -
    exact absurd (delivery.tokens.authenticate known) allowed.1

theorem firewall_valid {history : List (Transition Deployment Act)}
    (run : Run (deployment hash owner home) history w) : FirewallValid home w := by
  refine run.induct (fun _ => FirewallValid home) ?_ fun _ _ _ _ before valid moved =>
    valid.step (delivery_valid before) moved
  rintro w ⟨empty, ⟨limit, installed⟩, sent, responses⟩
  have policies : w.db.firewallPolicies = [] := congrArg Fleet.firewallPolicies empty
  have changes : w.db.firewallHistory = [] := congrArg Fleet.firewallHistory empty
  have nothing : ∀ p, ¬w.Has p := by
    rintro p (held | ⟨n, response, member, -⟩)
    · simp [Agent.Holds, installed, Agent.installed, openSpool, Phase.policy] at held
    · simp [responses] at member
  have silent : ∀ revision, ¬w.Reported revision := by
    rintro revision (now | ⟨b, member, -⟩)
    · simp [installed, Agent.installed] at now
    · simp [sent] at member
  exact {
    rows := ⟨by simp [policies], by simp [policies], by simp [policies], by simp [policies], by simp [policies],
      by simp [HasHistory, changes]⟩
    drawn := fun p there => (nothing p there).elim
    current := fun p there => (nothing p there).elim
    restricted := fun p there => (nothing p there).elim
    reported := fun revision there => (silent revision there).elim
    staged := by simp [Agent.Staged, installed, Agent.installed]
    settled := by simp [policies] }

def Ingests (t : Transition Deployment Act) (token : String) (b : Batch) : Prop :=
  (∃ request now fresh stored sent, t.action = .deliver request now fresh stored ∧
    t.before.sent[request]? = some (token, sent) ∧ b = sent.coerced) ∨
  ∃ fresh now stored, t.action = .serve (.ingest token b fresh) now stored

/-- An acknowledged policy of the agent's server is the cached and the loaded one.
For every server a policy becomes acknowledged only through an ingest as this
server that reports its revision, from an agent that supports it. -/
structure Acknowledged (hash : String → String) (home : String) (history : List (Transition Deployment Act))
    (w : Deployment) : Prop where
  applied : ∀ row ∈ w.db.firewallPolicies, row.serverId = home → row.appliedRevision = row.revision →
    w.agent.spool.db.firewallCache = some row.policy ∧ w.agent.table = some row.policy ∧
      row.policy.revision = row.revision
  established : ∀ t ∈ history, ∀ row ∈ t.after.db.firewallPolicies, row.appliedRevision = row.revision →
    (∃ old ∈ t.before.db.firewallPolicies, old.Same row ∧ old.appliedRevision = old.revision) ∨
      ∃ token b, Ingests t token b ∧ authenticate t.before.db.toFleet (hash token) = some row.serverId ∧
        Confirms b row.policy

/-- A row that is acknowledged after a request was so before or is confirmed by it. -/
theorem ServeEffect.acknowledged {db : Db} {now : Int} {request : Request} {drawn next : List String} {after : Fleet}
    (effect : ServeEffect hash db now request after) (valid : PolicyRows drawn db.toFleet)
    (draws : Draws drawn request next) {row : PolicyRow} (member : row ∈ after.firewallPolicies)
    (applied : row.appliedRevision = row.revision) :
    (∃ old ∈ db.firewallPolicies, old.Same row ∧ old.appliedRevision = old.revision) ∨
      ∃ token b fresh, request = .ingest token b fresh ∧
        authenticate db.toFleet (hash token) = some row.serverId ∧ Confirms b row.policy := by
  have named := ((valid.serve draws effect).known row member).2
  cases (effect.policies valid.unique).2 row member with
  | kept old there same before =>
    rcases before with before | nothing
    · exact Or.inl ⟨old, there, same, before.symm.trans (applied.trans same.revision)⟩
    · exact absurd (applied.symm.trans nothing) named
  | confirmed old there same known _ confirms => exact Or.inr ⟨_, _, _, rfl, known, confirms⟩
  | created _ known _ _ before =>
    rcases before with nothing | ⟨-, confirms⟩
    · exact absurd (applied.symm.trans nothing) named
    · exact Or.inr ⟨_, _, _, rfl, known, confirms⟩
  | changed _ _ revision _ before =>
    rcases before with nothing | ⟨old, there, before⟩
    · exact absurd (applied.symm.trans nothing) named
    · rcases valid.applied old there with nothing | earlier
      · exact absurd (applied.symm.trans (before.trans nothing)) named
      · exact absurd (revision ▸ applied ▸ before ▸ earlier) (draws.fresh _ rfl).1.2

theorem firewall_acknowledged {history : List (Transition Deployment Act)}
    (run : Run (deployment hash owner home) history w) : Acknowledged hash home history w := by
  refine ⟨?_, ?_⟩
  · intro row member own applied
    have valid := firewall_valid run
    have settled := valid.settled row member own (Or.inr applied)
    exact ⟨settled.cache, settled.table, valid.rows.named row member⟩
  · rintro ⟨w, act, after⟩ member row stored applied
    obtain ⟨older, before, step⟩ := run.of_mem member
    have moved : Deployment.Step hash owner home w act after := step
    have rows := (firewall_valid before).rows
    have unchanged : row ∈ w.db.firewallPolicies →
        ∃ old ∈ w.db.firewallPolicies, old.Same row ∧ old.appliedRevision = old.revision :=
      fun there => ⟨row, there, ⟨rfl, rfl, rfl⟩, applied⟩
    cases moved with
    | @deliver request now fresh received token b there isFresh =>
      have effect := serve_effect hash w.db now received (.ingest token b.coerced fresh)
      refine (effect.acknowledged rows (.new rfl isFresh) stored applied).imp id ?_
      rintro ⟨_, _, _, ⟨⟩, known, confirms⟩
      exact ⟨token, b.coerced, Or.inl ⟨request, now, fresh, received, b, rfl, there, rfl⟩, known, confirms⟩
    | serve request now received allowed =>
      have effect := serve_effect hash w.db now received request
      refine (effect.acknowledged rows allowed.draws stored applied).imp id ?_
      rintro ⟨token, b, fresh, rfl, known, confirms⟩
      exact ⟨token, b, Or.inr ⟨fresh, now, received, rfl⟩, known, confirms⟩
    | _ => exact Or.inl (unchanged stored)

end Joint

/-- A ban is sent to the agent, loaded and acknowledged. -/
def banRequest : Request := .requestFirewall "s1" "root" ⟨"r0", "r1", "h1"⟩ (.ban "10.0.0.9" false)

def quietLog : LogDir := ⟨⟨"1:1", []⟩, []⟩

def banPolicy : FirewallPolicy := ⟨"r1", "", [], [], [22], [], [⟨"10.0.0.9", false⟩]⟩

def savedBan : { p : List (Transition Deployment Act) × Deployment // Run (deployment id deliveryOwner "s1") p.1 p.2 } := by
  have fresh : Run (deployment id deliveryOwner "s1") [] deliveryStart := .start ⟨rfl, ⟨67108864, rfl⟩, rfl, rfl⟩
  have registered := fresh.next (.serve (.createServer ⟨"root", "super_admin"⟩ "web" "s1" "t1") 1000 true ⟨rfl, rfl⟩)
  have banned := registered.next (.serve banRequest 2000 true ⟨⟨by decide, by decide⟩, rfl⟩)
  have started := banned.next (.start true rfl)
  have read := started.next (.collect ⟨Bytes.utf8 "b", true, id⟩ quietLog 1000000 true true rfl)
  have sent := read.next (.beat "t1" true true (some []) rfl rfl)
  have answered := sent.next (.deliver 0 1000000 "p1" true rfl ⟨by decide, by decide⟩)
  have received := answered.next (.receive ⟨some banPolicy, 0, []⟩ rfl (by decide +kernel))
  have saved := received.next (.save true rfl)
  exact ⟨(_, _), saved⟩

theorem firewall_acknowledged_ban : ∃ history w, Acknowledged id "s1" history w ∧
    w.db.firewallPolicies.map (fun row => (row.policy, row.appliedRevision)) = [(banPolicy, "r1")] ∧
    w.agent.table = some banPolicy := by
  have loaded := savedBan.property.next (@Deployment.Step.apply _ _ _ _ .loaded banPolicy (some ⟨[], []⟩) (by decide +kernel))
  have finished := loaded.next (@Deployment.Step.finish _ _ _ _ (fun _ => []) true ⟨[], []⟩ (by decide +kernel))
  have again := finished.next (.collect ⟨Bytes.utf8 "b", true, id⟩ quietLog 2000000 true true rfl)
  have reported := again.next (@Deployment.Step.beat _ _ _ _ "t1" true true (some []) (Bytes.utf8 "ok")
    (by decide +kernel) rfl)
  have confirmed := reported.next (.deliver 1 2000000 "p2" true rfl ⟨by decide, by decide⟩)
  exact ⟨_, _, firewall_acknowledged confirmed, by decide +kernel, by decide +kernel⟩

end SshLogger
