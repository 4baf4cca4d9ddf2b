import SshLogger.Proofs.FirewallEdits
import SshLogger.Proofs.Acknowledgement

/-! Every run of the server against the guard of one of its hosts: the stored
policy is the guard's access, whatever else the server is asked in between. -/

namespace SshLogger
open Library Library.Netip Library.History

def policyRow (db : Fleet) (server : String) : Option PolicyRow :=
  db.firewallPolicies.find? fun row => row.serverId == server

theorem readPolicy_row (db : Fleet) (server fresh : String) :
    readPolicy db server fresh = ((policyRow db server).map PolicyRow.policy).getD (emptyPolicy fresh) := by
  rw [readPolicy, policyRow]
  cases db.firewallPolicies.find? fun row => row.serverId == server <;> rfl

theorem policyRow_upsert {db : Fleet} {row : PolicyRow} {merge : PolicyRow → PolicyRow} {server : String}
    (keeps : ∀ old, (merge old).serverId = old.serverId) (own : row.serverId = server) :
    policyRow { db with firewallPolicies := Rows.upsert PolicyRow.serverId row merge db.firewallPolicies } server =
      some (((policyRow db server).map merge).getD row) :=
  own ▸ Rows.find?_upsert_self keeps row _

theorem policyRow_upsert_ne {db : Fleet} {row : PolicyRow} {merge : PolicyRow → PolicyRow} {server : String}
    (keeps : ∀ old, (merge old).serverId = old.serverId) (other : row.serverId ≠ server) :
    policyRow { db with firewallPolicies := Rows.upsert PolicyRow.serverId row merge db.firewallPolicies } server =
      policyRow db server :=
  Rows.find?_upsert_ne keeps other _

section
variable {db : Fleet} {server : String}

theorem commitPolicy_self (r : ChangeRequest) (ids : ChangeIds) (p : FirewallPolicy) :
    ∃ row, policyRow (commitPolicy db r ids p) r.server = some row ∧ row.policy = p ∧ row.revision = ids.revision ∧
      row.capable = ((policyRow db r.server).map PolicyRow.capable).getD 0 := by
  refine ⟨_, policyRow_upsert (by intro; rfl) rfl, ?_⟩
  cases policyRow db r.server <;> exact ⟨rfl, rfl, rfl⟩

theorem commitPolicy_other {r : ChangeRequest} (ids : ChangeIds) (p : FirewallPolicy) (other : r.server ≠ server) :
    policyRow (commitPolicy db r ids p) server = policyRow db server :=
  policyRow_upsert_ne (by intro; rfl) other

theorem reportFirewall_row (p : FirewallPolicy) (compatible : Bool) (result : FirewallResult) (now : Int) (other : String) :
    ∃ change : PolicyRow → PolicyRow, (∀ row, (change row).policy = row.policy ∧ (change row).revision = row.revision ∧
        (change row).capable = row.capable) ∧ (other ≠ server → change = id) ∧
      policyRow (reportFirewall db server p compatible result now) other = (policyRow db other).map change := by
  simp only [reportFirewall]
  split
  · refine ⟨fun row => if other == server then { row with
        appliedRevision := if result.error == [] && compatible then p.revision else ""
        error := result.error
        reported := now } else row, ?_, ?_, ?_⟩
    · intro row
      split <;> exact ⟨rfl, rfl, rfl⟩
    · intro different
      funext row
      simp [different]
    · rw [policyRow, Rows.find?_update (by intro; rfl), ← policyRow]
      cases found : policyRow db other with
      | none => rfl
      | some row =>
        have own : row.serverId = other := by simpa using List.find?_some found
        simp only [Option.map_some, own]
  · exact ⟨id, fun _ => ⟨rfl, rfl, rfl⟩, fun _ => rfl, by simp⟩

theorem ingestAs_row (db : Fleet) (server : String) (b : Batch) (now : Int) (fresh other : String) :
    (other ≠ server → policyRow (ingestAs server db b now fresh).2 other = policyRow db other) ∧
      ∃ row, policyRow (ingestAs server db b now fresh).2 server = some row ∧ row.policy = readPolicy db server fresh ∧
        row.revision = ((policyRow db server).map PolicyRow.revision).getD fresh ∧ row.capable = capability b := by
  obtain ⟨start, policies, -, same, -⟩ := ingestAs_policies server db b now fresh
  have read : readPolicy start server fresh = readPolicy db server fresh := by simp only [readPolicy, policies]
  have ends : ∀ name, policyRow (ingestAs server db b now fresh).2 name =
      policyRow (ingestFirewall start server fresh b now).2 name := fun name => by simp only [policyRow, same]
  -- the row once the capability is stored
  have probed : ∃ row, policyRow { start with firewallPolicies := probedRows start server fresh b } server = some row ∧
      row.policy = readPolicy db server fresh ∧ row.revision = ((policyRow db server).map PolicyRow.revision).getD fresh ∧
        row.capable = capability b := by
    refine ⟨_, policyRow_upsert (by intro; rfl) rfl, ?_⟩
    have before : policyRow start server = policyRow db server := by rw [policyRow, policies, policyRow]
    rw [before, read, readPolicy_row]
    cases policyRow db server <;> exact ⟨rfl, rfl, rfl⟩
  have kept : other ≠ server → policyRow { start with firewallPolicies := probedRows start server fresh b } other =
      policyRow db other := by
    intro different
    have before : policyRow start other = policyRow db other := by rw [policyRow, policies, policyRow]
    rw [← before]
    exact policyRow_upsert_ne (by intro; rfl) different.symm
  rw [ends, ends]
  simp only [ingestFirewall]
  split
  next result _ =>
    refine ⟨fun different => ?_, ?_⟩
    · obtain ⟨change, -, identity, after⟩ := @reportFirewall_row { start with firewallPolicies := probedRows start server fresh b }
        server (readPolicy start server fresh) (isCompatible (readPolicy start server fresh) b) result now other
      rw [identity different, Option.map_id_fun, id, kept different] at after
      exact after
    · obtain ⟨change, keeps, -, after⟩ := @reportFirewall_row { start with firewallPolicies := probedRows start server fresh b }
        server (readPolicy start server fresh) (isCompatible (readPolicy start server fresh) b) result now server
      obtain ⟨row, stored, policy, revision, capable⟩ := probed
      rw [stored] at after
      exact ⟨change row, after, (keeps row).1.trans policy, (keeps row).2.1.trans revision, (keeps row).2.2.trans capable⟩
  · exact ⟨kept, probed⟩

end

def isWritable (db : Fleet) (ids : ChangeIds) (stored : Bool) : Bool :=
  stored && !(ids.revision == "" || ids.revision.utf8ByteSize > 100) && !Rows.has HistoryRow.id ids.history db.firewallHistory

structure Follows (server : String) (db : Fleet) (g : Guard) : Prop where
  policy : ∀ fresh, Represents (readPolicy db server fresh) g.access
  capable : ((policyRow db server).map PolicyRow.capable).getD 0 = g.capable

section
variable {db after : Fleet} {server : String} {g : Guard}

theorem Follows.initial (absent : policyRow db server = none) : Follows server db .initial :=
  ⟨fun fresh => by rw [readPolicy_row, absent]; exact emptyPolicy_represents fresh, by rw [absent]; rfl⟩

theorem Follows.of_row (follows : Follows server db g) (same : policyRow after server = policyRow db server) :
    Follows server after g :=
  ⟨fun fresh => by rw [readPolicy_row, same, ← readPolicy_row]; exact follows.policy fresh, by rw [same]; exact follows.capable⟩

theorem Follows.heartbeat (follows : Follows server db g) (b : Batch) (now : Int) (fresh : String) :
    Follows server (ingestAs server db b now fresh).2 (g.step (.heartbeat (capability b))) := by
  obtain ⟨-, row, stored, policy, -, capable⟩ := ingestAs_row db server b now fresh server
  refine ⟨fun other => ?_, ?_⟩
  · rw [readPolicy_row, stored, Option.map_some, Option.getD_some, policy]
    exact follows.policy fresh
  · rw [stored, Option.map_some, Option.getD_some, capable]
    rfl

theorem Guard.edited_some {edit : Option Edit} {next : Access} (applied : edit.bind g.access.apply = some next) (stored : Bool) :
    g.edited edit stored = if valid : next.Valid ∧ (next.mode = .allowlist → 2 ≤ g.capable) ∧ stored = true then
      some ⟨next, g.capable, valid.1⟩ else none := by
  rw [Guard.edited, applied, Option.bind_some]

theorem Guard.edited_access {edit : Option Edit} {stored : Bool} {next : Guard} (edited : g.edited edit stored = some next) :
    edit.bind g.access.apply = some next.access := by
  obtain ⟨access, applied, kept⟩ := Option.bind_eq_some_iff.mp edited
  split at kept
  · cases kept
    exact applied
  · cases kept

theorem Guard.edited_stored {edit : Option Edit} {stored : Bool} {next : Guard} (edited : g.edited edit stored = some next) :
    stored = true := by
  obtain ⟨access, -, kept⟩ := Option.bind_eq_some_iff.mp edited
  split at kept
  next accepted => exact accepted.2.2
  · cases kept

/-- A request is accepted exactly when the guard accepts its edit, and otherwise changes nothing. -/
theorem Follows.request (follows : Follows server db g) (username : String) (now : Int) (ids : ChangeIds)
    (asked : FirewallChange) (stored : Bool) :
    (g.edited asked.edit (isWritable db ids stored) = none ∧
        ∃ problem, requestFirewall db server username now ids asked stored = (.error problem, db)) ∨
      ∃ next r p, g.edited asked.edit (isWritable db ids stored) = some next ∧ r.server = server ∧
        Represents p next.access ∧ next.capable = g.capable ∧ p.revision = ids.revision ∧
        requestFirewall db server username now ids asked stored = (.ok ids.revision, commitPolicy db r ids p) := by
  rcases (follows.policy ids.absent).refines asked with ⟨meaningless, message, refused⟩ | ⟨ip, change, canonical, agrees⟩
  · refine Or.inl ⟨by rw [Guard.edited, meaningless]; rfl, (400, message), ?_⟩
    simp only [requestFirewall, refused]
  simp only [requestFirewall, canonical, changeFirewall]
  rcases agrees with ⟨none_left, message, refused⟩ | ⟨next, q, applied, changed, represents⟩
  · refine Or.inl ⟨by rw [Guard.edited, none_left]; rfl, ?_⟩
    cases stored <;> simp [transaction, preparePolicy, refused]
  have checked := (represents.revised ids.revision).validate
  have agent : ((db.firewallPolicies.find? fun row => row.serverId == server).map PolicyRow.capable).getD 0 = g.capable :=
    follows.capable
  rw [Guard.edited_some applied]
  cases stored with
  | false => exact Or.inl ⟨dif_neg (by simp [isWritable]), _, rfl⟩
  | true =>
    simp only [transaction, Bool.not_true, Bool.false_eq_true, if_false, preparePolicy, changed, agent]
    cases valid : ({ q with revision := ids.revision } : FirewallPolicy).validate with
    | error message =>
      refine Or.inl ⟨dif_neg ?_, (400, message), rfl⟩
      rintro ⟨fits, -, written⟩
      simp only [isWritable, Bool.and_eq_true, Bool.not_eq_true'] at written
      rw [checked.mpr ⟨written.1.2, fits⟩] at valid
      cases valid
    | ok =>
      obtain ⟨usable, fits⟩ := checked.mp valid
      have mode : (q.mode == "allowlist") = decide (next.mode = .allowlist) := by
        rw [represents.mode, AccessMode.text_eq_allowlist]
      dsimp only
      by_cases incapable : (q.mode == "allowlist" && decide (g.capable < 2)) = true
      · rw [if_pos incapable]
        refine Or.inl ⟨dif_neg ?_, _, rfl⟩
        rintro ⟨-, capable, -⟩
        simp only [mode, Bool.and_eq_true, decide_eq_true_eq] at incapable
        exact absurd (capable incapable.1) (by omega)
      rw [if_neg incapable]
      cases taken : Rows.has HistoryRow.id ids.history db.firewallHistory with
      | true =>
        refine Or.inl ⟨dif_neg ?_, _, rfl⟩
        rintro ⟨-, -, written⟩
        simp [isWritable, taken] at written
      | false =>
        refine Or.inr ⟨_, _, _, dif_pos ⟨fits, ?_, ?_⟩, rfl, represents.revised ids.revision, rfl, rfl, rfl⟩
        · intro allowlist
          simp only [mode, Bool.and_eq_true, decide_eq_true_eq] at incapable
          by_contra few
          exact incapable ⟨allowlist, by omega⟩
        · rw [isWritable, usable, taken]
          rfl

end

section
variable (hash : String → String) (server : String)

/-- What a served request is to the guard of one of the hosts. -/
def guardEvent (db : Db) (act : Served) : Option GuardEvent :=
  match act.request with
  | .requestFirewall target _ ids asked =>
    if target = server then some (.request asked.edit (isWritable db.toFleet ids act.stored)) else none
  | .ingest token b fresh =>
    if authenticate db.toFleet (hash token) = some server ∧
        (ingest hash db.toFleet token b act.now fresh act.stored).1.isOk = true then some (.heartbeat (capability b))
    else none
  | _ => none

def guardAfter : List (Transition ServerState Served) → Guard
  | [] => .initial
  | t :: older => (guardEvent hash server t.before.db t.action).elim (guardAfter older) (guardAfter older).step

variable {hash server} {db : Db} {g : Guard}

theorem Follows.ingest (follows : Follows server db.toFleet g) (token : String) (b : Batch) (fresh : String) (now : Int)
    (stored : Bool) (time : Int) : Follows server (db.serve hash now stored (.ingest token b fresh)).toFleet
      ((guardEvent hash server db ⟨.ingest token b fresh, now, stored, time⟩).elim g g.step) := by
  simp only [guardEvent, Db.serve]
  rcases ingest_cases hash db.toFleet token b now fresh stored with ⟨problem, refused⟩ | ⟨target, known, served⟩
  · rw [refused]
    simpa [Except.isOk, Except.toBool] using follows
  · rw [served]
    by_cases own : target = server
    · subst own
      have beaten : Follows target (ingestAs target db.toFleet b.redacted now fresh).2 (g.step (.heartbeat (capability b))) :=
        follows.heartbeat b.redacted now fresh
      simpa [known, Except.isOk, Except.toBool] using beaten
    · simpa [known, own] using follows.of_row ((ingestAs_row db.toFleet target b.redacted now fresh server).1 (Ne.symm own))

theorem Follows.requestFirewall (follows : Follows server db.toFleet g) (target username : String) (ids : ChangeIds)
    (asked : FirewallChange) (now : Int) (stored : Bool) (time : Int) :
    Follows server (db.serve hash now stored (.requestFirewall target username ids asked)).toFleet
      ((guardEvent hash server db ⟨.requestFirewall target username ids asked, now, stored, time⟩).elim g g.step) := by
  simp only [guardEvent, Db.serve]
  by_cases own : target = server
  · subst own
    simp only [if_true, Option.elim_some, Guard.step]
    rcases follows.request username now ids asked stored with ⟨refused, problem, answer⟩ |
      ⟨next, r, p, accepted, rfl, represents, capable, -, answer⟩
    · rw [refused, answer]
      exact follows
    · rw [accepted, answer]
      obtain ⟨row, found, policy, -, kept⟩ := @commitPolicy_self db.toFleet r ids p
      refine ⟨fun fresh => ?_, ?_⟩
      · rw [readPolicy_row, found, Option.map_some, Option.getD_some, policy]
        exact represents
      · rw [found, Option.map_some, Option.getD_some, kept, follows.capable, Option.getD_some, capable]
  · simp only [own, if_false, Option.elim_none]
    rcases requestFirewall_cases db.toFleet target username now ids asked stored with same | ⟨r, p, rfl, done⟩
    · rw [same]
      exact follows
    · rw [done.stored]
      exact follows.of_row (commitPolicy_other ids p own)

theorem Follows.serve (follows : Follows server db.toFleet g) (act : Served) :
    Follows server (db.serve hash act.now act.stored act.request).toFleet ((guardEvent hash server db act).elim g g.step) := by
  obtain ⟨request, now, stored, time⟩ := act
  have effect := serve_effect hash db now stored request
  have apart : (db.serve hash now stored request).firewallPolicies = db.firewallPolicies →
      Follows server (db.serve hash now stored request).toFleet g :=
    fun same => follows.of_row (by rw [policyRow, same, policyRow])
  cases request with
  | ingest token b fresh => exact follows.ingest token b fresh now stored time
  | requestFirewall target username ids asked => exact follows.requestFirewall target username ids asked now stored time
  | terminateSession =>
    refine apart ?_
    generalize (db.serve hash now stored _).toFleet = after at effect
    cases effect with
    | quiet => rfl
    | requested done =>
      obtain ⟨_, stored⟩ := done.stored
      rw [stored]
  | createServer =>
    refine apart ?_
    generalize (db.serve hash now stored _).toFleet = after at effect
    cases effect <;> rfl
  | updateServer =>
    refine apart ?_
    generalize (db.serve hash now stored _).toFleet = after at effect
    cases effect <;> rfl
  | changeToken =>
    refine apart ?_
    generalize (db.serve hash now stored _).toFleet = after at effect
    cases effect with
    | quiet => rfl
    | rotated done => exact done.frame.2.2.2.1
  | accounts => exact apart rfl

variable {s : ServerState} {history : List (Transition ServerState Served)}

theorem run_follows (run : Run (serverSystem hash) history s) : Follows server s.db.toFleet (guardAfter hash server history) := by
  refine run.induct (fun history s => Follows server s.db.toFleet (guardAfter hash server history)) ?_ ?_
  · intro s empty
    refine .initial ?_
    rw [policyRow, show s.db.toFleet = emptyFleet from empty]
    rfl
  · intro history s act after _ follows moved
    obtain ⟨-, -, rfl⟩ := moved
    exact follows.serve act

/-- What can be read off a policy that represents a valid access. -/
structure Tidy (p : FirewallPolicy) : Prop where
  canonical : ∀ ip, ip ∈ p.allowed ∨ ip ∈ p.protectedIPs ∨ ip ∈ p.bans.map IPBan.ip → canonicalIP ip = .ok ip
  once : p.allowed.Nodup ∧ (p.bans.map IPBan.ip).Nodup ∧ Rows.Unique Prod.fst p.allowedNames
  named : ∀ entry ∈ p.allowedNames, entry.1 ∈ p.allowed
  unbanned : p.mode ≠ "" → p.bans = []
  enabled : p.mode = "allowlist" → p.allowed ≠ []

theorem Represents.tidy {p : FirewallPolicy} {a : Access} (represents : Represents p a) (valid : a.Valid) : Tidy p := by
  have bans : p.bans.map IPBan.ip = a.bans.keys.map Host.text := by
    rw [represents.bans]
    simp [OrderedMap.keys, banOf, Function.comp_def]
  refine ⟨?_, ⟨?_, ?_, represents.named⟩, ?_, ?_, ?_⟩
  · intro ip listed
    rw [represents.allowed, represents.protectedIPs, bans] at listed
    have host : ∃ host : Host, host.text = ip := by
      rcases listed with listed | listed | listed
      all_goals
        obtain ⟨host, -, same⟩ := List.mem_map.mp listed
        exact ⟨host, same⟩
    obtain ⟨host, rfl⟩ := host
    exact canonicalIP_host (readHost_text host)
  · rw [represents.allowed]
    exact a.allowed.keys_nodup.map Host.text_injective
  · rw [bans]
    exact a.bans.keys_nodup.map Host.text_injective
  · rintro ⟨ip, name⟩ listed
    obtain ⟨host, rfl, stored⟩ := (represents.names ip name).mp listed
    rw [represents.allowed]
    exact List.mem_map_of_mem (OrderedMap.mem_keys.mpr ⟨_, stored⟩)
  · intro mode
    rw [represents.bans, valid.unbanned fun legacy => mode (by rw [represents.mode, legacy]; rfl)]
    rfl
  · intro mode
    have allowlist : a.mode = .allowlist := by
      rw [represents.mode] at mode
      simpa [mode] using (@AccessMode.text_eq_allowlist a.mode).symm
    rw [represents.allowed]
    simpa [OrderedMap.keys] using valid.enabled allowlist

structure Edited (hash : String → String) (server : String) (t : Transition ServerState Served)
    (older : List (Transition ServerState Served)) (ids : ChangeIds) (asked : FirewallChange)
    (answer : Except Problem String) : Prop where
  accepted : answer = .ok ids.revision ↔
    ((guardAfter hash server older).edited asked.edit (isWritable t.before.db.toFleet ids t.action.stored)).isSome = true
  rejected : answer ≠ .ok ids.revision → t.after.db.toFleet = t.before.db.toFleet
  readded : ∀ ip, asked = .allow ip none → ∀ fresh entry, entry ∈ (readPolicy t.before.db.toFleet server fresh).allowedNames →
    entry ∈ (readPolicy t.after.db.toFleet server fresh).allowedNames
  removed : ∀ ip, asked = .removeAllow ip → answer = .ok ids.revision → ∃ text, canonicalIP ip = .ok text ∧ ∀ fresh,
    text ∉ (readPolicy t.after.db.toFleet server fresh).allowed ∧
      ∀ name, (text, name) ∉ (readPolicy t.after.db.toFleet server fresh).allowedNames

/-- What holds of one host's policy in every run of the server. -/
structure RefinesAccess (hash : String → String) (server : String) (history : List (Transition ServerState Served))
    (s : ServerState) : Prop where
  policy : ∀ fresh, Represents (readPolicy s.db.toFleet server fresh) (guardAfter hash server history).access
  tidy : ∀ fresh, Tidy (readPolicy s.db.toFleet server fresh)
  requests : ∀ later t older, history = later ++ t :: older → ∀ username ids asked,
    t.action.request = .requestFirewall server username ids asked →
    Edited hash server t older ids asked
      (SshLogger.requestFirewall t.before.db.toFleet server username t.action.now ids asked t.action.stored).1

theorem Follows.edited {t : Transition ServerState Served} {older : List (Transition ServerState Served)}
    (follows : Follows server t.before.db.toFleet (guardAfter hash server older))
    (moved : (serverSystem hash).step t.before t.action t.after) {username : String} {ids : ChangeIds} {asked : FirewallChange}
    (request : t.action.request = .requestFirewall server username ids asked) :
    Edited hash server t older ids asked
      (SshLogger.requestFirewall t.before.db.toFleet server username t.action.now ids asked t.action.stored).1 := by
  have after : t.after.db.toFleet =
      (SshLogger.requestFirewall t.before.db.toFleet server username t.action.now ids asked t.action.stored).2 := by
    rw [moved.2.2, request]
    rfl
  rcases follows.request username t.action.now ids asked t.action.stored with ⟨refused, problem, answer⟩ |
    ⟨next, r, p, accepted, rfl, represents, -, -, answer⟩
  · rw [answer] at after ⊢
    exact ⟨by simp [refused], fun _ => after, fun _ _ fresh entry listed => after ▸ listed, fun _ _ done => by cases done⟩
  · rw [answer] at after ⊢
    obtain ⟨row, found, policy, -, -⟩ := @commitPolicy_self t.before.db.toFleet r ids p
    have stored : ∀ fresh, readPolicy t.after.db.toFleet r.server fresh = p := by
      intro fresh
      rw [after, readPolicy_row, found, Option.map_some, Option.getD_some, policy]
    have applied := Guard.edited_access accepted
    refine ⟨by simp [accepted], fun refused => absurd rfl refused, ?_, ?_⟩
    · rintro ip rfl fresh ⟨name, value⟩ listed
      obtain ⟨edit, meant, applied⟩ := Option.bind_eq_some_iff.mp applied
      obtain ⟨host, -, rfl⟩ := Option.map_eq_some_iff.mp meant
      obtain ⟨other, rfl, known⟩ := ((follows.policy fresh).names _ _).mp listed
      rw [stored, represents.names]
      refine ⟨other, rfl, ?_⟩
      rw [← Option.some.inj applied]
      exact OrderedMap.mem_put_id.mpr (Or.inl known)
    · rintro ip rfl -
      obtain ⟨edit, meant, applied⟩ := Option.bind_eq_some_iff.mp applied
      obtain ⟨host, read, rfl⟩ := Option.map_eq_some_iff.mp meant
      refine ⟨host.text, canonicalIP_host read, fun fresh => ?_⟩
      have unlisted : host ∉ next.access.allowed.keys := by
        rw [← Option.some.inj applied]
        simp [OrderedMap.keys_erase]
      rw [stored, represents.allowed]
      refine ⟨by simpa [List.mem_map_of_injective Host.text_injective] using unlisted, fun name listed => unlisted ?_⟩
      obtain ⟨other, same, known⟩ := (represents.names _ _).mp listed
      exact Host.text_injective same ▸ OrderedMap.mem_keys.mpr ⟨_, known⟩

theorem firewall_refines_access (run : Run (serverSystem hash) history s) (server : String) :
    RefinesAccess hash server history s := by
  have follows := @run_follows hash server s history run
  refine ⟨follows.policy, fun fresh => (follows.policy fresh).tidy (guardAfter hash server history).valid, ?_⟩
  rintro later t older rfl username ids asked request
  obtain ⟨before, moved⟩ := run.at_transition
  exact (run_follows before).edited moved request

end

/-- A host is allowed under its IPv4-mapped spelling, and again without a name. -/
def mappedStart : ServerState := ⟨newStore, 0⟩

def mappedRegistered : ServerState :=
  mappedStart.serve id (.createServer ⟨"root", "super_admin"⟩ "web" "s1" "t1") 1000

def mappedNamed : ServerState := mappedRegistered.serve id
  (.requestFirewall "s1" "root" ⟨"p0", "p1", "h1"⟩ (.allow "::ffff:192.0.2.1" (some " office "))) 2000

def mappedAgain : ServerState :=
  mappedNamed.serve id (.requestFirewall "s1" "root" ⟨"p2", "p3", "h2"⟩ (.allow "192.0.2.1" none)) 3000

def mappedHistory : List (Transition ServerState Served) :=
  [⟨mappedNamed, ⟨.requestFirewall "s1" "root" ⟨"p2", "p3", "h2"⟩ (.allow "192.0.2.1" none), 3000, true, 3000⟩, mappedAgain⟩,
    ⟨mappedRegistered, ⟨.requestFirewall "s1" "root" ⟨"p0", "p1", "h1"⟩ (.allow "::ffff:192.0.2.1" (some " office ")), 2000,
      true, 2000⟩, mappedNamed⟩,
    ⟨mappedStart, ⟨.createServer ⟨"root", "super_admin"⟩ "web" "s1" "t1", 1000, true, 1000⟩, mappedRegistered⟩]

theorem firewall_refines_access_mapped : RefinesAccess id "s1" mappedHistory mappedAgain ∧
    (readPolicy mappedAgain.db.toFleet "s1" "p4").allowedNames = [("192.0.2.1", "office")] := by
  have run : Run (serverSystem id) mappedHistory mappedAgain :=
    .next (.next (.next (.start rfl) (serve_step (by decide))) (serve_step (by decide))) (serve_step (by decide))
  exact ⟨firewall_refines_access run "s1", rfl⟩

end SshLogger
