import SshLogger.Proofs.Passwords

/-! Both factors are needed once an account has a passkey: every login session was
opened with one of its keys, and every change of the keys was preceded by the
password and by a key of the account in the same login session. -/

namespace SshLogger
open Library Library.Transaction Library.History

variable {app : App} {history : List (Transition Administration AdminAct)} {w : Administration}

/-- The library accepts only assertions of one of the user's credentials. -/
def AcceptsOwn (webauthn : WebAuthn) : Prop :=
  ∀ site u session response credential, webauthn.validateLogin site u session response = some credential →
    ∃ own ∈ u.credentials, own.id = credential.id

/-- The library was given the stored credentials of the account's keys and accepted an
assertion of one of these keys. -/
def Proves (app : App) (site : Site) (db : Accounts) (username session response : String) : Prop :=
  ∃ u credential, app.webauthn.validateLogin site u session response = some credential ∧ u.name = username ∧
    (∀ own ∈ u.credentials, ∃ k ∈ db.passkeys, k.username = username ∧ k.credential = own) ∧
    ∃ k ∈ db.passkeys, k.username = username ∧ k.credential.id = credential.id ∧ k.id = encodeID credential.id

theorem Asserted.proves {site : Site} {db : Accounts} {username session response : String}
    (asserted : Asserted app site db username session response) (accepts : AcceptsOwn app.webauthn)
    (encoded : AllEncoded db) : Proves app site db username session response := by
  obtain ⟨u, credential, accepted, loaded⟩ := asserted
  obtain ⟨own, member, same⟩ := accepts _ _ _ _ _ accepted
  obtain ⟨k, stored, owner, rfl⟩ := loaded.own own member
  exact ⟨u, credential, accepted, loaded.named, loaded.own, k, stored, owner, same, same ▸ encoded k stored⟩

theorem all_encoded (run : Run (administration app) history w) : AllEncoded w.db := by
  refine run.invariant (fun w => AllEncoded w.db) ?_ fun _ _ _ encoded moved => (admin_effect moved).encoded encoded
  rintro w ⟨-, keys, -⟩
  simp [AllEncoded, keys]

structure OpenedByKey (app : App) (s : AuthSession) (t : Transition Administration AdminAct) : Prop where
  fresh : s ∉ t.before.db.authSessions
  opened : s ∈ t.after.db.authSessions
  proved : ∃ site r ids now stored row, t.action = .finishCeremony site .login r ids now stored ∧
    row ∈ t.before.db.authPending ∧ row.idHash = app.hash r.requestId ∧
    Proves app site t.before.db s.username row.data.session r.response

structure AdmissionsValid (app : App) (history : List (Transition Administration AdminAct)) (w : Administration) : Prop where
  token : ∀ s ∈ w.db.authSessions, s.tokenHash ≠ ""
  admitted : ∀ s ∈ w.db.authSessions, keysOf w.db s.username ≠ [] →
    Since (fun t => s ∈ t.after.db.authSessions) (fun t _ => OpenedByKey app s t) history

theorem NewSession.token {db : Accounts} {act : AdminAct} {s : AuthSession} (new : NewSession app db s act) :
    s.tokenHash ≠ "" := by
  cases new with
  | login _ _ _ token _ => exact token ▸ app.hash_ne_empty _
  | finish _ _ _ _ _ token _ => exact token ▸ app.hash_ne_empty _

/-- A session that is left after the account got its first key was not there before. -/
theorem KeysEffect.keyed {db after : Accounts} {act : AdminAct} {s : AuthSession}
    (effect : KeysEffect app db after s.username act) (member : s ∈ after.authSessions) (token : s.tokenHash ≠ "")
    (keys : keysOf after s.username ≠ []) : keysOf db s.username ≠ [] := by
  cases effect with
  | kept _ same => exact same ▸ keys
  | finished _ _ _ _ _ _ rekeyed => exact fun none_before => token (rekeyed.enrolled none_before keys s member rfl)
  | deleted none_left _ => exact absurd none_left keys
  | reset none_left _ => exact absurd none_left keys

theorem AdmissionsValid.step {act : AdminAct} {next : Administration} (valid : AdmissionsValid app history w)
    (accepts : AcceptsOwn app.webauthn) (encoded : AllEncoded w.db) (moved : Administration.Step app w act next) :
    AdmissionsValid app (⟨w, act, next⟩ :: history) next := by
  have effect := admin_effect moved
  have token : ∀ s ∈ next.db.authSessions, s.tokenHash ≠ "" := fun s member =>
    (effect.session member).elim (valid.token s) NewSession.token
  refine ⟨token, fun s member keys => ?_⟩
  have before := (effect.keys s.username).keyed member (token s member) keys
  rcases effect.session member with old | new
  · exact (valid.admitted s old before).step member
  · cases new with
    | login _ _ none_stored _ _ => exact absurd none_stored before
    | @finish site r ids now stored row u claimed own asserted _ fresh =>
      refine Since.here ⟨fresh, member, site, r, ids, now, stored, row, rfl, claimed.stored, claimed.named, ?_⟩
      exact asserted.proves accepts encoded

theorem sessions_second_factor (accepts : AcceptsOwn app.webauthn) (run : Run (administration app) history w)
    (s : AuthSession) (member : s ∈ w.db.authSessions) (keyed : ∃ k ∈ w.db.passkeys, k.username = s.username) :
    Since (fun t => s ∈ t.after.db.authSessions) (fun t _ => OpenedByKey app s t) history := by
  have valid : AdmissionsValid app history w := by
    refine run.induct (AdmissionsValid app) ?_ fun _ _ _ _ earlier valid moved => valid.step accepts (all_encoded earlier) moved
    rintro w ⟨sessions, -⟩
    exact ⟨by simp [sessions], by simp [sessions]⟩
  obtain ⟨k, stored, own⟩ := keyed
  exact valid.admitted s member fun none_stored => keysOf_eq_nil.mp none_stored k stored own

/-- An account gets its first key and logs in with it. -/
def enrolRequest (token : String) : ManageRequest :=
  ⟨"ops", plainApp.hash token, "first password", "add", "", "laptop"⟩

def finishRequest (token request response : String) : FinishRequest :=
  ⟨"https://logs", request, response, "ops", plainApp.hash token⟩

theorem plainApp_acceptsOwn : AcceptsOwn plainApp.webauthn :=
  fun _ _ _ _ credential accepted => ⟨credential, List.mem_of_find?_eq_some accepted, rfl⟩

def keyedRun : { p : List (Transition Administration AdminAct) × Administration //
    Run (administration plainApp) p.1 p.2 } := by
  have start : Run (administration plainApp) [] opsStart :=
    .start ⟨rfl, rfl, rfl, List.nodup_singleton _, by decide +kernel, rfl, rfl, rfl, rfl⟩
  have asked := start.next (.admitLogin plainSite opsLogin 1000)
  have verified := asked.next (.verifyLogin opsLogin (by decide +kernel))
  have opened := verified.next (.login plainSite opsVerified (authIds "1") 2000 true (by decide +kernel))
  have begun := opened.next (.passkeyBegin plainSite (enrolRequest "t1") (authIds "2") 3000 true)
  have enrolled := begun.next (.finishCeremony plainSite .register (finishRequest "t1" "r2" "key1") (authIds "3") 4000 true)
  have again := enrolled.next (.admitLogin plainSite opsLogin 5000)
  have waiting := again.next (.verifyLogin opsLogin (by decide +kernel))
  have challenged := waiting.next (.login plainSite opsVerified (authIds "4") 6000 true (by decide +kernel))
  have entered := challenged.next (.finishCeremony plainSite .login (finishRequest "" "r4" "key1") (authIds "5") 7000 true)
  exact ⟨(_, _), entered⟩

theorem sessions_second_factor_ops : ∃ s, s.tokenHash = plainApp.hash "t5" ∧
    Since (fun t => s ∈ t.after.db.authSessions) (fun t _ => OpenedByKey plainApp s t) keyedRun.val.1 :=
  ⟨⟨plainApp.hash "t5", "x5", 7000 + 12 * 60 * 60 * 1000, "ops"⟩, rfl,
    sessions_second_factor plainApp_acceptsOwn keyedRun.property _ (by decide +kernel) (by decide +kernel)⟩

/-- The step left the account's password hash and its set of keys alone. -/
def Unchanged (username : String) (t : Transition Administration AdminAct) : Prop :=
  hashOf t.after.db username = hashOf t.before.db username ∧ keysOf t.after.db username = keysOf t.before.db username

/-- The login session began a ceremony with the account's current password. -/
structure Begins (app : App) (username session : String) (t : Transition Administration AdminAct) : Prop where
  verified : ∃ site r ids now stored hash, t.action = .passkeyBegin site r ids now stored ∧ r.username = username ∧
    r.sessionHash = session ∧ hashOf t.before.db username = some hash ∧ app.compare hash r.password = true
  active : HasSession t.before.db session username
  unchanged : Unchanged username t

def Asserts (app : App) (username session : String) (t : Transition Administration AdminAct) : Prop :=
  ∃ site r ids now stored row, t.action = .finishCeremony site .finish r ids now stored ∧ r.username = username ∧
    r.sessionHash = session ∧ row ∈ t.before.db.authPending ∧ row.idHash = app.hash r.requestId ∧
    Proves app site t.before.db username row.data.session r.response

def Concludes (username session : String) (t : Transition Administration AdminAct) : Prop :=
  ∃ site endpoint r ids now stored, t.action = .finishCeremony site endpoint r ids now stored ∧ endpoint ≠ .login ∧
    r.username = username ∧ r.sessionHash = session ∧ HasSession t.before.db session username

def Removes (username : String) (t : Transition Administration AdminAct) : Prop :=
  (∃ stored, t.action = .resetTwoFactor username stored) ∨
    ∃ cookie now stored, t.action = .deleteAdmin cookie username now stored

/-- What the pending requests of the accounts, logins apart, were preceded by. -/
structure CeremoniesValid (app : App) (history : List (Transition Administration AdminAct)) (w : Administration) : Prop where
  begun : ∀ row ∈ w.db.authPending, row.data.purpose ≠ "login" →
    Since (Unchanged row.username) (fun t _ => Begins app row.username row.data.sessionHash t) history
  proved : ∀ row ∈ w.db.authPending, row.data.purpose = "register" → keysOf w.db row.username = [] ∨
    Since (Unchanged row.username)
      (fun t _ => Asserts app row.username row.data.sessionHash t ∧ Unchanged row.username t) history

/-- While a request of an account is pending, neither factor has changed. -/
theorem AccountsValid.unchanged {act : AdminAct} {next : Administration} (valid : AccountsValid w)
    (moved : Administration.Step app w act next) {row : AuthPending} (left : row ∈ next.db.authPending) :
    Unchanged row.username ⟨w, act, next⟩ := by
  have effect := admin_effect moved
  have known := (effect.pending left).elim (valid.pending row) NewPending.known
  refine ⟨((effect.hash valid.unique row.username).steady known (not_cleared_of_pending left)).trans known.symm, ?_⟩
  cases effect.keys row.username with
  | kept _ same => exact same
  | finished _ _ _ _ _ _ rekeyed => exact absurd rfl (rekeyed.pending row left).2
  | deleted _ cleared => exact absurd cleared (not_cleared_of_pending left)
  | reset _ rekeyed => exact absurd rfl (rekeyed.pending row left).2

/-- A ceremony that is not a login is finished from the session that began it. -/
theorem Claimed.caller {db : Accounts} {endpoint : Endpoint} {r : FinishRequest} {row : AuthPending} {u : PasskeyUser}
    (claimed : Claimed app db endpoint r row u) (other : endpoint ≠ .login) :
    row.data.purpose ≠ "login" ∧ r.username = row.data.username ∧ r.sessionHash = row.data.sessionHash ∧
      (endpoint = .register → row.data.purpose = "register") := by
  have addressed := claimed.addressed
  cases endpoint with
  | login => exact absurd rfl other
  | finish =>
    simp [isAddressed] at addressed
    refine ⟨addressed.1.1, addressed.2.2.symm, addressed.2.1.symm, ?_⟩
    rintro ⟨⟩
  | register =>
    simp [isAddressed] at addressed
    exact ⟨addressed.1.1, addressed.2.2.symm, addressed.2.1.symm, fun _ => addressed.1.2⟩

theorem CeremoniesValid.step {act : AdminAct} {next : Administration} (valid : CeremoniesValid app history w)
    (accounts : AccountsValid w) (accepts : AcceptsOwn app.webauthn) (encoded : AllEncoded w.db)
    (moved : Administration.Step app w act next) : CeremoniesValid app (⟨w, act, next⟩ :: history) next := by
  refine ⟨?_, ?_⟩
  · intro row member purpose
    have unchanged := accounts.unchanged moved member
    rcases (admin_effect moved).pending member with old | new
    · exact (valid.begun row old purpose).step unchanged
    · have owner := new.owner
      cases new with
      | @managed site r ids now stored managed =>
        have own := owner.trans managed.username
        refine Since.here ⟨⟨site, r, ids, now, stored, _, rfl, own.symm, managed.session.symm, ?_, managed.verified⟩, ?_, unchanged⟩
        · exact own ▸ managed.hash
        · exact own ▸ managed.session ▸ managed.active
      | login _ _ _ _ login => exact absurd login purpose
      | proved earlier u claimed _ begun =>
        have same : row.username = earlier.username :=
          owner.trans (begun.username.trans (claimed.name.trans (accounts.owner earlier claimed.stored).symm))
        have session : row.data.sessionHash = earlier.data.sessionHash := begun.session
        rw [same] at unchanged ⊢
        rw [session]
        exact (valid.begun earlier claimed.stored (claimed.caller nofun).1).step unchanged
  · intro row member purpose
    have unchanged := accounts.unchanged moved member
    have same_keys : keysOf next.db row.username = keysOf w.db row.username := unchanged.2
    rcases (admin_effect moved).pending member with old | new
    · exact (valid.proved row old purpose).imp same_keys.trans fun since => since.step unchanged
    · have owner := new.owner
      cases new with
      | managed managed =>
        refine Or.inl (same_keys.trans ?_)
        rw [owner, managed.username]
        exact managed.first purpose
      | login _ _ _ _ login => exact absurd (login.symm.trans purpose) (by decide)
      | @proved site r ids now stored earlier u claimed asserted begun =>
        have own : row.username = u.name := owner.trans begun.username
        obtain ⟨-, caller, session, -⟩ := claimed.caller nofun
        have same : row.data.sessionHash = earlier.data.sessionHash := begun.session
        refine Or.inr (Since.here ⟨⟨site, r, ids, now, stored, earlier, rfl, ?_, ?_, claimed.stored, claimed.named, ?_⟩, unchanged⟩)
        · exact caller.trans (claimed.name.symm.trans own.symm)
        · exact session.trans same.symm
        · exact own ▸ asserted.proves accepts encoded

structure KeysVerified (app : App) (username : String) (t : Transition Administration AdminAct)
    (older : List (Transition Administration AdminAct)) (session : String) : Prop where
  concludes : Concludes username session t
  password : Since (Unchanged username) (fun t _ => Begins app username session t) older
  key : keysOf t.before.db username ≠ [] → Asserts app username session t ∨
    Since (Unchanged username) (fun t _ => Asserts app username session t ∧ Unchanged username t) older

theorem CeremoniesValid.change {t : Transition Administration AdminAct} (valid : CeremoniesValid app history t.before)
    (accounts : AccountsValid t.before) (accepts : AcceptsOwn app.webauthn) (encoded : AllEncoded t.before.db)
    (moved : Administration.Step app t.before t.action t.after) {username : String}
    (changed : keysOf t.after.db username ≠ keysOf t.before.db username) (requested : ¬ Removes username t) :
    ∃ session, KeysVerified app username t history session := by
  have effect := (admin_effect moved).keys username
  generalize same : t.action = act at effect
  cases effect with
  | kept _ same => exact absurd same changed
  | deleted => exact absurd (Or.inr ⟨_, _, _, same⟩) requested
  | reset => exact absurd (Or.inl ⟨_, same⟩) requested
  | @finished site endpoint r ids now stored row u claimed named other proved rekeyed =>
    obtain ⟨manages, caller, session, registers⟩ := claimed.caller other
    have owner : row.username = username := (accounts.owner row claimed.stored).trans (claimed.name.symm.trans named)
    have own : r.username = username := caller.trans (claimed.name.symm.trans named)
    have active : HasSession t.before.db row.data.sessionHash username :=
      own ▸ caller ▸ claimed.session other
    refine ⟨row.data.sessionHash, ⟨site, endpoint, r, ids, now, stored, same, other, own, session, active⟩, ?_, ?_⟩
    · exact owner ▸ valid.begun row claimed.stored manages
    · intro keyed
      cases endpoint with
      | login => exact absurd rfl other
      | register =>
        have earlier := valid.proved row claimed.stored (registers rfl)
        rw [owner] at earlier
        exact Or.inr (earlier.resolve_left keyed)
      | finish =>
        have asserted := proved.resolve_left nofun
        exact Or.inl ⟨site, r, ids, now, stored, row, same, own, session, claimed.stored, claimed.named,
          asserted.proves accepts encoded⟩

theorem ceremonies_valid (accepts : AcceptsOwn app.webauthn) (run : Run (administration app) history w) :
    CeremoniesValid app history w := by
  refine run.induct (CeremoniesValid app) ?_ fun _ _ _ _ earlier valid moved =>
    valid.step (accounts_valid earlier) accepts (all_encoded earlier) moved
  rintro w ⟨-, -, pending, -⟩
  exact ⟨by simp [pending], by simp [pending]⟩

theorem key_changes_verified (accepts : AcceptsOwn app.webauthn) {later older} {t : Transition Administration AdminAct}
    (run : Run (administration app) (later ++ t :: older) w) {username : String}
    (changed : keysOf t.after.db username ≠ keysOf t.before.db username) (requested : ¬ Removes username t) :
    ∃ session, KeysVerified app username t older session := by
  obtain ⟨before, moved⟩ := run.at_transition
  exact (ceremonies_valid accepts before).change (accounts_valid before) accepts (all_encoded before) moved changed requested

/-- The account adds a second key. -/
theorem key_changes_verified_added : ∃ t older session, KeysVerified plainApp "ops" t older session ∧
    keysOf t.before.db "ops" = [encodeID (Bytes.utf8 "key1")] ∧
    keysOf t.after.db "ops" = [encodeID (Bytes.utf8 "key1"), encodeID (Bytes.utf8 "key2")] := by
  have begun := keyedRun.property.next (.passkeyBegin plainSite (enrolRequest "t5") (authIds "6") 8000 true)
  have proved := begun.next (.finishCeremony plainSite .finish (finishRequest "t5" "r6" "key1") (authIds "7") 9000 true)
  have added := proved.next (.finishCeremony plainSite .register (finishRequest "t5" "r7" "key2") (authIds "8") 9500 true)
  obtain ⟨session, verified⟩ := @key_changes_verified plainApp _ plainApp_acceptsOwn [] _ _ added "ops"
    (by decide +kernel) (by rintro (⟨_, ⟨⟩⟩ | ⟨_, _, _, ⟨⟩⟩))
  exact ⟨_, _, session, verified, by decide +kernel, by decide +kernel⟩

end SshLogger
