import SshLogger.Proofs.Ceremonies

/-! What a step can do to one account: to its password hash, its keys, its login
sessions and its pending requests; and what holds of the accounts in every run. -/

namespace SshLogger
open Library Library.Transaction Library.History

variable {app : App} {db after : Accounts} {act : AdminAct}

theorem hashOf_eq_some (unique : Rows.Unique Admin.username db.admins) {username hash : String} :
    hashOf db username = some hash ↔ ∃ a ∈ db.admins, a.username = username ∧ a.passwordHash = hash := by
  simp only [hashOf, Option.map_eq_some_iff]
  constructor
  · rintro ⟨a, found, same⟩
    exact ⟨a, List.mem_of_find?_eq_some found, by simpa using List.find?_some found, same⟩
  · rintro ⟨a, member, own, same⟩
    cases found : db.admins.find? fun a => a.username == username with
    | none => exact absurd own (by simpa using List.find?_eq_none.mp found a member)
    | some other =>
      have also : other.username = username := by simpa using List.find?_some found
      obtain rfl := unique.eq (List.mem_of_find?_eq_some found) member (also.trans own.symm)
      exact ⟨other, rfl, same⟩

theorem hashOf_eq_none {username : String} : hashOf db username = none ↔ ∀ a ∈ db.admins, a.username ≠ username := by
  simp [hashOf]

theorem hashOf_congr {other : Accounts} (same : other.admins = db.admins) (username : String) :
    hashOf other username = hashOf db username := by
  simp only [hashOf, same]

structure Cleared (db : Accounts) (username : String) : Prop where
  pending : ∀ row ∈ db.authPending, row.username ≠ username
  sessions : ∀ s ∈ db.authSessions, s.username ≠ username

inductive HashEffect (db after : Accounts) (username : String) : AdminAct → Prop
  | kept (act : AdminAct) : hashOf after username = hashOf db username → HashEffect db after username act
  | replaced {c newHash now stored} : c.username = username → hashOf db username = some c.oldHash →
      hashOf after username = some newHash → Cleared after username →
      HashEffect db after username (.changePassword c newHash now stored)
  | created {cookie password passwordHash now stored} : hashOf db username = none →
      hashOf after username = some passwordHash →
      HashEffect db after username (.createAdmin cookie username password passwordHash now stored)
  | deleted {cookie now stored} : hashOf after username = none → Cleared after username →
      HashEffect db after username (.deleteAdmin cookie username now stored)

theorem Replaced.unique {c : VerifiedChange} {newHash : String} (done : Replaced db after c newHash)
    (unique : Rows.Unique Admin.username db.admins) : Rows.Unique Admin.username after.admins := by
  rw [done.admins]
  exact unique.update (by intro; rfl)

theorem Replaced.hash {c : VerifiedChange} {newHash : String} (done : Replaced db after c newHash)
    (unique : Rows.Unique Admin.username db.admins) : hashOf db c.username = some c.oldHash ∧
      hashOf after c.username = some newHash ∧
      ∀ username, username ≠ c.username → hashOf after username = hashOf db username := by
  have before := (hashOf_eq_some unique).mpr done.known
  obtain ⟨a, member, own, same⟩ := done.known
  refine ⟨before, ?_, ?_⟩
  · refine (hashOf_eq_some (done.unique unique)).mpr ⟨{ a with passwordHash := newHash }, ?_, own, rfl⟩
    rw [done.admins]
    exact Rows.mem_update_of member (by simp [own, same])
  · intro username other
    ext hash
    rw [hashOf_eq_some (done.unique unique), hashOf_eq_some unique, done.admins]
    constructor
    · rintro ⟨row, inside, named, equal⟩
      obtain ⟨old, there, ⟨chosen, rfl⟩ | ⟨-, rfl⟩⟩ := Rows.mem_update.mp inside
      · simp only [Bool.and_eq_true, beq_iff_eq] at chosen
        exact absurd (named.symm.trans chosen.1) other
      · exact ⟨old, there, named, equal⟩
    · rintro ⟨row, there, named, equal⟩
      exact ⟨row, Rows.mem_update_of_not there (by simp [named, other]), named, equal⟩

theorem AdminEffect.hash (effect : AdminEffect app db after act) (unique : Rows.Unique Admin.username db.admins)
    (username : String) : HashEffect db after username act := by
  have kept : after.admins = db.admins → HashEffect db after username act := fun same => .kept _ (hashOf_congr same username)
  cases effect with
  | calm _ calm => exact kept calm.admins
  | managed _ calm => exact kept calm.admins
  | loggedIn _ done => cases done with
    | asked _ calm => exact kept calm.admins
    | created _ calm => exact kept calm.admins
  | finished _ _ _ done => cases done with
    | rekeyed rekeyed => exact kept rekeyed.admins
    | proved _ calm => exact kept calm.admins
    | admitted _ calm => exact kept calm.admins
  | reset rekeyed => exact kept rekeyed.admins
  | @replaced c _ _ _ done =>
    obtain ⟨before, now, others⟩ := done.hash unique
    by_cases own : username = c.username
    · subst own
      exact .replaced rfl before now ⟨fun row member => (done.pending row member).2, fun s member => (done.sessions s member).2⟩
    · exact .kept _ (others username own)
  | @created cookie name _ passwordHash _ _ done =>
    by_cases own : name = username
    · subst own
      refine .created (hashOf_eq_none.mpr done.fresh) ?_
      have absent : db.admins.find? (fun a => a.username == name) = none :=
        List.find?_eq_none.mpr fun a member => by simpa using done.fresh a member
      simp [hashOf, done.admins, List.find?_append, absent]
    · refine .kept _ ?_
      simp [hashOf, done.admins, List.find?_append, own]
  | @deleted cookie target _ _ done =>
    by_cases own : target = username
    · subst own
      refine .deleted (hashOf_eq_none.mpr ?_) ⟨fun row member => (done.pending row member).2,
        fun s member => (done.sessions s member).2⟩
      intro a member
      rw [done.admins] at member
      simpa using (Rows.mem_delete.mp member).2
    · refine .kept _ ?_
      simp only [hashOf, done.admins, Rows.delete, List.find?_filter]
      refine congrArg (Option.map Admin.passwordHash) (congrArg (List.find? · db.admins) ?_)
      funext a
      by_cases same : a.username = username <;> simp [same, Ne.symm own]

inductive KeysEffect (app : App) (db after : Accounts) (username : String) : AdminAct → Prop
  | kept (act : AdminAct) : keysOf after username = keysOf db username → KeysEffect app db after username act
  | finished {site endpoint r ids now stored} (row : AuthPending) (u : PasskeyUser) :
      Claimed app db endpoint r row u → u.name = username → endpoint ≠ .login →
      endpoint = .register ∨ Asserted app site db username row.data.session r.response → Rekeyed db after username →
      KeysEffect app db after username (.finishCeremony site endpoint r ids now stored)
  | deleted {cookie now stored} : keysOf after username = [] → Cleared after username →
      KeysEffect app db after username (.deleteAdmin cookie username now stored)
  | reset {stored} : keysOf after username = [] → Rekeyed db after username →
      KeysEffect app db after username (.resetTwoFactor username stored)

theorem AdminEffect.keys (effect : AdminEffect app db after act) (username : String) :
    KeysEffect app db after username act := by
  cases effect with
  | calm _ calm => exact .kept _ (calm.keys username)
  | managed _ calm => exact .kept _ (calm.keys username)
  | loggedIn _ done => cases done with
    | asked _ calm => exact .kept _ (calm.keys username)
    | created _ calm => exact .kept _ (calm.keys username)
  | finished row u claimed done => cases done with
    | rekeyed rekeyed other asserted =>
      by_cases own : username = u.name
      · subst own
        exact .finished row u claimed rfl other asserted rekeyed
      · exact .kept _ (rekeyed.others username own)
    | proved _ calm => exact .kept _ (calm.keys username)
    | admitted _ calm => exact .kept _ (calm.keys username)
  | @reset target stored rekeyed none_left =>
    by_cases own : username = target
    · subst own
      exact .reset none_left rekeyed
    · exact .kept _ (rekeyed.others username own)
  | replaced done => exact .kept _ (keysOf_congr done.passkeys username)
  | created done => exact .kept _ (keysOf_congr done.passkeys username)
  | @deleted cookie target _ _ done =>
    by_cases own : target = username
    · subst own
      refine .deleted (keysOf_eq_nil.mpr ?_) ⟨fun row member => (done.pending row member).2,
        fun s member => (done.sessions s member).2⟩
      intro k member
      rw [done.passkeys] at member
      simpa using (Rows.mem_delete.mp member).2
    · refine .kept _ ?_
      simp only [keysOf, passkeysOf, done.passkeys, Rows.delete, List.filter_filter]
      refine congrArg (List.map Passkey.id) (List.filter_congr fun k _ => ?_)
      by_cases same : k.username = username <;> simp [same, Ne.symm own]

theorem AdminEffect.encoded (effect : AdminEffect app db after act) (encoded : AllEncoded db) : AllEncoded after := by
  have kept : after.passkeys = db.passkeys → AllEncoded after := fun same k member => encoded k (same ▸ member)
  cases effect with
  | calm _ calm => exact calm.encoded encoded
  | managed _ calm => exact calm.encoded encoded
  | loggedIn _ done => cases done with
    | asked _ calm => exact calm.encoded encoded
    | created _ calm => exact calm.encoded encoded
  | finished _ _ _ done => cases done with
    | rekeyed rekeyed => exact rekeyed.encoded encoded
    | proved _ calm => exact calm.encoded encoded
    | admitted _ calm => exact calm.encoded encoded
  | reset rekeyed => exact rekeyed.encoded encoded
  | replaced done => exact kept done.passkeys
  | created done => exact kept done.passkeys
  | deleted done =>
    intro k member
    rw [done.passkeys] at member
    exact encoded k (Rows.mem_delete.mp member).1

inductive NewSession (app : App) (db : Accounts) (s : AuthSession) : AdminAct → Prop
  | login {site l ids now stored} : s.username = l.username → hashOf db l.username = some l.passwordHash →
      keysOf db s.username = [] → s.tokenHash = app.hash ids.token → s ∉ db.authSessions →
      NewSession app db s (.login site l ids now stored)
  | finish {site r ids now stored} (row : AuthPending) (u : PasskeyUser) : Claimed app db .login r row u →
      s.username = row.data.username → Asserted app site db s.username row.data.session r.response → s.tokenHash = app.hash ids.token →
      s ∉ db.authSessions → NewSession app db s (.finishCeremony site .login r ids now stored)

theorem Claimed.name {endpoint : Endpoint} {r : FinishRequest} {row : AuthPending} {u : PasskeyUser}
    (claimed : Claimed app db endpoint r row u) : u.name = row.data.username := claimed.loaded.named

theorem AdminEffect.session (effect : AdminEffect app db after act) {s : AuthSession} (member : s ∈ after.authSessions) :
    s ∈ db.authSessions ∨ NewSession app db s act := by
  have calm_old : ∀ {requests}, Calm [] requests db after → s ∈ db.authSessions ∨ NewSession app db s act :=
    fun calm => (calm.sessions s member).imp id nofun
  have unused : ∀ {s : AuthSession}, (∀ old ∈ db.authSessions, old.tokenHash ≠ s.tokenHash) → s ∉ db.authSessions :=
    fun fresh there => fresh _ there rfl
  cases effect with
  | calm _ calm => exact calm_old calm
  | managed _ calm => exact calm_old calm
  | loggedIn hash done => cases done with
    | asked _ calm => exact calm_old calm
    | created new calm free own token fresh =>
      refine (calm.sessions s member).imp id fun here => ?_
      obtain rfl := List.mem_singleton.mp here
      exact .login own hash (own ▸ free) token (unused fresh)
  | finished row u claimed done => cases done with
    | rekeyed rekeyed => exact Or.inl (rekeyed.sessions s member)
    | proved _ calm => exact calm_old calm
    | admitted new calm here asserted own token fresh =>
      subst here
      refine (calm.sessions s member).imp id fun here => ?_
      obtain rfl := List.mem_singleton.mp here
      exact .finish row u claimed (own.trans claimed.name) (own ▸ asserted) token (unused fresh)
  | reset rekeyed => exact Or.inl (rekeyed.sessions s member)
  | replaced done => exact Or.inl (done.sessions s member).1
  | created done => exact Or.inl (done.sessions ▸ member)
  | deleted done => exact Or.inl (done.sessions s member).1

inductive NewPending (app : App) (db : Accounts) (row : AuthPending) : AdminAct → Prop
  | managed {site r ids now stored} : Managed app db r row → NewPending app db row (.passkeyBegin site r ids now stored)
  | login {site l ids now stored} : row.username = row.data.username → row.data.username = l.username →
      row.data.passwordHash = l.passwordHash → hashOf db l.username = some l.passwordHash → row.data.purpose = "login" →
      NewPending app db row (.login site l ids now stored)
  | proved {site r ids now stored} (earlier : AuthPending) (u : PasskeyUser) : Claimed app db .finish r earlier u →
      Asserted app site db u.name earlier.data.session r.response → Begun u { earlier.data with purpose := "register" } row →
      NewPending app db row (.finishCeremony site .finish r ids now stored)

theorem AdminEffect.pending (effect : AdminEffect app db after act) {row : AuthPending}
    (member : row ∈ after.authPending) : row ∈ db.authPending ∨ NewPending app db row act := by
  have calm_old : ∀ {logins}, Calm logins [] db after → row ∈ db.authPending ∨ NewPending app db row act :=
    fun calm => (calm.pending row member).imp id nofun
  cases effect with
  | calm _ calm => exact calm_old calm
  | managed new calm managed =>
    refine (calm.pending row member).imp id fun here => ?_
    obtain rfl := List.mem_singleton.mp here
    exact .managed managed
  | loggedIn hash done => cases done with
    | asked new calm owner own same purpose =>
      refine (calm.pending row member).imp id fun here => ?_
      obtain rfl := List.mem_singleton.mp here
      exact .login owner own same hash purpose
    | created _ calm => exact calm_old calm
  | finished earlier u claimed done => cases done with
    | rekeyed rekeyed => exact Or.inl (rekeyed.pending row member).1
    | proved new calm here asserted begun =>
      subst here
      refine (calm.pending row member).imp id fun here => ?_
      obtain rfl := List.mem_singleton.mp here
      exact .proved earlier u claimed asserted begun
    | admitted _ calm => exact calm_old calm
  | reset rekeyed => exact Or.inl (rekeyed.pending row member).1
  | replaced done => exact Or.inl (done.pending row member).1
  | created done => exact Or.inl (done.pending ▸ member)
  | deleted done => exact Or.inl (done.pending row member).1

def mintedBy : AdminAct → Option String
  | .changePassword _ newHash _ _ => some newHash
  | .createAdmin _ _ _ passwordHash _ _ => some passwordHash
  | _ => none

theorem Administration.Step.minted {w next : Administration} (moved : Administration.Step app w act next) :
    next.minted = (mintedBy act).toList ++ w.minted ∧ ∀ hash, mintedBy act = some hash → hash ∉ w.minted := by
  cases moved with
  | changePassword c newHash now stored _ fresh => exact ⟨rfl, by rintro _ ⟨⟩; exact fresh⟩
  | createAdmin cookie username password passwordHash now stored fresh => exact ⟨rfl, by rintro _ ⟨⟩; exact fresh⟩
  | _ => exact ⟨rfl, nofun⟩

theorem HashEffect.new {username hash : String} (effect : HashEffect db after username act)
    (now : hashOf after username = some hash) : hashOf db username = some hash ∨ mintedBy act = some hash := by
  cases effect with
  | kept _ same => exact Or.inl (same ▸ now)
  | replaced _ _ new _ => exact Or.inr (new.symm.trans now)
  | created _ new => exact Or.inr (new.symm.trans now)
  | deleted none_left => exact absurd (none_left.symm.trans now) nofun

theorem HashEffect.steady {username hash : String} (effect : HashEffect db after username act)
    (known : hashOf db username = some hash) (left : ¬ Cleared after username) : hashOf after username = some hash := by
  cases effect with
  | kept _ same => exact same.trans known
  | replaced _ _ _ cleared => exact absurd cleared left
  | created unknown _ => exact absurd (unknown.symm.trans known) nofun
  | deleted _ cleared => exact absurd cleared left

theorem not_cleared_of_session {s : AuthSession} (member : s ∈ after.authSessions) : ¬ Cleared after s.username :=
  fun cleared => cleared.sessions s member rfl

theorem not_cleared_of_pending {row : AuthPending} (member : row ∈ after.authPending) : ¬ Cleared after row.username :=
  fun cleared => cleared.pending row member rfl

theorem NewSession.fresh {s : AuthSession} (new : NewSession app db s act) : s ∉ db.authSessions := by
  cases new <;> assumption

theorem NewSession.known {s : AuthSession} (new : NewSession app db s act) : hashOf db s.username ≠ none := by
  cases new with
  | login own hash _ _ _ => rw [own, hash]; nofun
  | finish row u claimed own _ _ _ => rw [own, claimed.loaded.hash]; nofun

theorem NewPending.owner {row : AuthPending} (new : NewPending app db row act) :
    row.username = row.data.username := by
  cases new with
  | managed managed => exact managed.owner
  | login owner _ _ _ _ => exact owner
  | proved _ _ _ _ begun => exact begun.owner

theorem NewPending.known {row : AuthPending} (new : NewPending app db row act) :
    hashOf db row.username = some row.data.passwordHash := by
  rw [new.owner]
  cases new with
  | managed managed => exact managed.username ▸ managed.hash
  | login _ own same hash _ => exact own ▸ same ▸ hash
  | proved earlier u claimed _ begun =>
    rw [begun.username, begun.hash, claimed.name]
    exact claimed.loaded.hash

structure AccountsValid (w : Administration) : Prop where
  unique : Rows.Unique Admin.username w.db.admins
  minted : ∀ username hash, hashOf w.db username = some hash → hash ∈ w.minted
  owner : ∀ row ∈ w.db.authPending, row.username = row.data.username
  pending : ∀ row ∈ w.db.authPending, hashOf w.db row.username = some row.data.passwordHash
  sessions : ∀ s ∈ w.db.authSessions, hashOf w.db s.username ≠ none

theorem AdminEffect.unique (effect : AdminEffect app db after act) (unique : Rows.Unique Admin.username db.admins) :
    Rows.Unique Admin.username after.admins := by
  cases effect with
  | calm _ calm => exact calm.admins ▸ unique
  | managed _ calm => exact calm.admins ▸ unique
  | loggedIn _ done => cases done with
    | asked _ calm => exact calm.admins ▸ unique
    | created _ calm => exact calm.admins ▸ unique
  | finished _ _ _ done => cases done with
    | rekeyed rekeyed => exact rekeyed.admins ▸ unique
    | proved _ calm => exact calm.admins ▸ unique
    | admitted _ calm => exact calm.admins ▸ unique
  | reset rekeyed => exact rekeyed.admins ▸ unique
  | replaced done => exact done.unique unique
  | created done => exact done.admins ▸ unique.append done.fresh
  | deleted done => exact done.admins ▸ unique.delete _

theorem AccountsValid.step {w next : Administration} (valid : AccountsValid w)
    (moved : Administration.Step app w act next) : AccountsValid next := by
  have effect := admin_effect moved
  have hashes := effect.hash valid.unique
  refine ⟨effect.unique valid.unique, ?_, ?_, ?_, ?_⟩
  · intro username hash now
    rw [moved.minted.1]
    rcases (hashes username).new now with old | new
    · exact List.mem_append_right _ (valid.minted username hash old)
    · exact List.mem_append_left _ (by simp [new])
  · intro row member
    exact (effect.pending member).elim (valid.owner row) NewPending.owner
  · intro row member
    have known := (effect.pending member).elim (valid.pending row) NewPending.known
    exact (hashes row.username).steady known (not_cleared_of_pending member)
  · intro s member
    have known := (effect.session member).elim (valid.sessions s) NewSession.known
    obtain ⟨hash, known⟩ := Option.ne_none_iff_exists'.mp known
    rw [(hashes s.username).steady known (not_cleared_of_session member)]
    nofun

theorem accounts_valid {history : List (Transition Administration AdminAct)} {w : Administration}
    (run : Run (administration app) history w) : AccountsValid w := by
  refine run.invariant AccountsValid ?_ fun _ _ _ valid moved => valid.step moved
  rintro w ⟨sessions, keys, pending, unique, minted, -⟩
  refine ⟨unique, ?_, by simp [pending], by simp [pending], by simp [sessions]⟩
  intro username hash known
  obtain ⟨a, member, -, rfl⟩ := (hashOf_eq_some unique).mp known
  exact minted a member

def TokensUnique (db : Accounts) : Prop :=
  ∀ s ∈ db.authSessions, ∀ other ∈ db.authSessions, s.tokenHash = other.tokenHash → s = other

theorem TokensUnique.of_subset (unique : TokensUnique db) (kept : ∀ s ∈ after.authSessions, s ∈ db.authSessions) :
    TokensUnique after :=
  fun s member other also same => unique s (kept s member) other (kept other also) same

theorem TokensUnique.add (unique : TokensUnique db) {new : AuthSession} {requests : List AuthPending}
    (calm : Calm [new] requests db after) (fresh : ∀ old ∈ db.authSessions, old.tokenHash ≠ new.tokenHash) :
    TokensUnique after := by
  intro s member other also same
  rcases calm.sessions s member with old | here
  · rcases calm.sessions other also with older | there
    · exact unique s old other older same
    · obtain rfl := List.mem_singleton.mp there
      exact absurd same (fresh s old)
  · obtain rfl := List.mem_singleton.mp here
    rcases calm.sessions other also with older | there
    · exact absurd same.symm (fresh other older)
    · exact (List.mem_singleton.mp there).symm

theorem AdminEffect.tokens (effect : AdminEffect app db after act) (unique : TokensUnique db) : TokensUnique after := by
  have calm_kept : ∀ {requests}, Calm [] requests db after → TokensUnique after :=
    fun calm => unique.of_subset fun s member => (calm.sessions s member).resolve_right nofun
  cases effect with
  | calm _ calm => exact calm_kept calm
  | managed _ calm => exact calm_kept calm
  | loggedIn _ done => cases done with
    | asked _ calm => exact calm_kept calm
    | created new calm _ _ _ fresh => exact unique.add calm fresh
  | finished _ _ _ done => cases done with
    | rekeyed rekeyed => exact unique.of_subset rekeyed.sessions
    | proved _ calm => exact calm_kept calm
    | admitted new calm _ _ _ _ fresh => exact unique.add calm fresh
  | reset rekeyed => exact unique.of_subset rekeyed.sessions
  | replaced done => exact unique.of_subset fun s member => (done.sessions s member).1
  | created done => exact unique.of_subset fun s member => done.sessions ▸ member
  | deleted done => exact unique.of_subset fun s member => (done.sessions s member).1

theorem tokens_unique {history : List (Transition Administration AdminAct)} {w : Administration}
    (run : Run (administration app) history w) : TokensUnique w.db := by
  refine run.invariant (fun w => TokensUnique w.db) ?_ fun _ _ _ unique moved => (admin_effect moved).tokens unique
  rintro w ⟨sessions, -⟩ s member
  simp [sessions] at member

end SshLogger
