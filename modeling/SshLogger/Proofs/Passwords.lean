import SshLogger.Proofs.Administration

/-! A committed password change leaves nothing of the old password: sessions and
pending requests rest on the account's current hash, and a login or ceremony that
verified another one does not succeed any more. -/

namespace SshLogger
open Library Library.Transaction Library.History

variable {app : App} {history : List (Transition Administration AdminAct)} {w : Administration}

/-- A login of the account compared its password with this hash, which was the account's. -/
def LoginVerified (app : App) (username hash : String) (history : List (Transition Administration AdminAct)) : Prop :=
  ∃ t ∈ history, ∃ r, t.action = .verifyLogin r ∧ r.username = username ∧
    hashOf t.before.db username = some hash ∧ app.compare hash r.password = true

inductive EndsLogin (app : App) (username hash : String) (t : Transition Administration AdminAct) : Prop
  | login {site l ids now stored} : t.action = .login site l ids now stored → l.username = username →
      l.passwordHash = hash → EndsLogin app username hash t
  | ceremony {site r ids now stored} (row : AuthPending) : t.action = .finishCeremony site .login r ids now stored →
      row ∈ t.before.db.authPending → row.idHash = app.hash r.requestId → row.data.purpose = "login" →
      row.data.username = username → row.data.passwordHash = hash → EndsLogin app username hash t

/-- The login that opened the session, with what had happened before. -/
structure Opened (app : App) (s : AuthSession) (hash : String) (t : Transition Administration AdminAct)
    (past : List (Transition Administration AdminAct)) : Prop where
  fresh : s ∉ t.before.db.authSessions
  opened : s ∈ t.after.db.authSessions
  ends : EndsLogin app s.username hash t
  verified : LoginVerified app s.username hash past

inductive Succeeds (app : App) (username hash : String) (t : Transition Administration AdminAct) : Prop
  | login {site l ids now stored outcome} : t.action = .login site l ids now stored → l.username = username →
      l.passwordHash = hash → (login app site t.before.db l ids now stored).1 = .ok outcome →
      Succeeds app username hash t
  | ceremony {site endpoint r ids now stored outcome} (row : AuthPending) :
      t.action = .finishCeremony site endpoint r ids now stored → row ∈ t.before.db.authPending →
      row.idHash = app.hash r.requestId → row.data.username = username → row.data.passwordHash = hash →
      (finishCeremony app site t.before.db endpoint r ids now stored).1 = .ok outcome → Succeeds app username hash t

def Changes (app : App) (c : VerifiedChange) (t : Transition Administration AdminAct) : Prop :=
  ∃ newHash now stored, t.action = .changePassword c newHash now stored ∧
    (changePassword app t.before.db c newHash now stored).1 = .ok ()

structure PasswordsValid (app : App) (history : List (Transition Administration AdminAct)) (w : Administration) :
    Prop where
  logins : ∀ l ∈ w.logins, LoginVerified app l.username l.passwordHash history
  pending : ∀ row ∈ w.db.authPending, row.data.purpose = "login" →
    LoginVerified app row.username row.data.passwordHash history
  sessions : ∀ s ∈ w.db.authSessions, ∃ hash, hashOf w.db s.username = some hash ∧
    Since (fun t => s ∈ t.after.db.authSessions) (Opened app s hash) history

theorem LoginVerified.later {username hash : String} (verified : LoginVerified app username hash history)
    (t : Transition Administration AdminAct) : LoginVerified app username hash (t :: history) := by
  obtain ⟨earlier, member, happened⟩ := verified
  exact ⟨earlier, List.mem_cons_of_mem _ member, happened⟩

theorem verifyLogin_some {db : Accounts} {r : LoginRequest} {l : VerifiedLogin} (passed : verifyLogin app db r = some l) :
    r.username = l.username ∧ hashOf db l.username = some l.passwordHash ∧ app.compare l.passwordHash r.password = true := by
  simp only [verifyLogin] at passed
  split at passed
  next valid =>
    simp only [Option.some.injEq] at passed
    subst passed
    simp only [Bool.and_eq_true] at valid
    refine ⟨rfl, ?_, valid.2⟩
    obtain ⟨a, found⟩ := Option.isSome_iff_exists.mp valid.1
    simp [hashOf, found]
  · cases passed

theorem Administration.Step.verified {act : AdminAct} {next : Administration} {l : VerifiedLogin}
    (moved : Administration.Step app w act next) (member : l ∈ next.logins) :
    l ∈ w.logins ∨ ∃ r, act = .verifyLogin r ∧ SshLogger.verifyLogin app w.db r = some l := by
  cases moved with
  | verifyLogin r =>
    rcases List.mem_append.mp member with new | old
    · exact Or.inr ⟨r, rfl, by simpa using new⟩
    · exact Or.inl old
  | login => exact Or.inl (List.mem_of_mem_erase member)
  | _ => exact Or.inl member

theorem NewSession.ends {s : AuthSession} {t : Transition Administration AdminAct}
    (new : NewSession app t.before.db s t.action) :
    ∃ hash, hashOf t.before.db s.username = some hash ∧ EndsLogin app s.username hash t := by
  generalize same : t.action = act at new
  cases new with
  | login own hash _ _ _ => exact ⟨_, own ▸ hash, .login same own.symm rfl⟩
  | @finish site r ids now stored row u claimed own _ _ _ =>
    refine ⟨_, own ▸ claimed.loaded.hash, .ceremony row same claimed.stored claimed.named ?_ own.symm claimed.hash⟩
    have addressed := claimed.addressed
    simp only [isAddressed, Bool.and_eq_true, beq_iff_eq] at addressed
    simpa using addressed.1.1

theorem PasswordsValid.verified {act : AdminAct} {next : Administration} {username hash : String}
    (valid : PasswordsValid app history w) (accounts : AccountsValid w) (moved : Administration.Step app w act next)
    (ends : EndsLogin app username hash ⟨w, act, next⟩) : LoginVerified app username hash history := by
  cases ends with
  | login same own equal =>
    obtain rfl : act = _ := same
    cases moved with
    | login _ _ _ _ _ waiting => exact own ▸ equal ▸ valid.logins _ waiting
  | ceremony row _ member _ purpose own equal =>
    exact own ▸ equal ▸ accounts.owner row member ▸ valid.pending row member purpose

theorem PasswordsValid.step {act : AdminAct} {next : Administration} (valid : PasswordsValid app history w)
    (accounts : AccountsValid w) (moved : Administration.Step app w act next) :
    PasswordsValid app (⟨w, act, next⟩ :: history) next := by
  have effect := admin_effect moved
  refine ⟨?_, ?_, ?_⟩
  · intro l member
    rcases moved.verified member with old | ⟨r, rfl, passed⟩
    · exact (valid.logins l old).later _
    · obtain ⟨own, hash, right⟩ := verifyLogin_some passed
      exact ⟨_, List.mem_cons_self, r, rfl, own, hash, right⟩
  · intro row member purpose
    rcases effect.pending member with old | new
    · exact (valid.pending row old purpose).later _
    · cases new with
      | managed managed => exact absurd purpose managed.purpose
      | login owner own same _ _ =>
        rw [owner, own, same]
        cases moved with
        | login _ _ _ _ _ waiting => exact (valid.logins _ waiting).later _
      | proved _ _ _ _ begun =>
        have registers : row.data.purpose = "register" := begun.purpose
        exact absurd (registers.symm.trans purpose) (by decide)
  · intro s member
    rcases effect.session member with old | new
    · obtain ⟨hash, known, since⟩ := valid.sessions s old
      exact ⟨hash, (effect.hash accounts.unique s.username).steady known (not_cleared_of_session member), since.step member⟩
    · obtain ⟨hash, known, ends⟩ := @NewSession.ends app s ⟨w, act, next⟩ new
      refine ⟨hash, (effect.hash accounts.unique s.username).steady known (not_cleared_of_session member), ?_⟩
      exact Since.here ⟨new.fresh, member, ends, valid.verified accounts moved ends⟩

theorem passwords_valid (run : Run (administration app) history w) : PasswordsValid app history w := by
  refine run.induct (PasswordsValid app) ?_ fun _ _ _ _ earlier valid moved => valid.step (accounts_valid earlier) moved
  rintro w ⟨sessions, -, pending, -, -, -, -, logins, -⟩
  exact ⟨by simp [logins], by simp [pending], by simp [sessions]⟩

theorem Changes.replaced {c : VerifiedChange} {t : Transition Administration AdminAct} (changes : Changes app c t)
    (moved : Administration.Step app t.before t.action t.after) (valid : AccountsValid t.before) :
    hashOf t.after.db c.username ≠ some c.oldHash ∧ c.oldHash ∈ t.after.minted ∧ Cleared t.after.db c.username := by
  obtain ⟨newHash, now, stored, same, answered⟩ := changes
  have done := commit_done (replacePassword_spec app c newHash now t.before.db) answered
  obtain ⟨before, action, after⟩ := t
  obtain rfl : action = _ := same
  replace moved : Administration.Step app before (.changePassword c newHash now stored) after := moved
  cases moved with
  | changePassword _ _ _ _ _ fresh =>
    obtain ⟨old, new, -⟩ := done.hash valid.unique
    have minted := valid.minted _ _ old
    refine ⟨?_, List.mem_cons_of_mem _ minted, fun row member => (done.pending row member).2,
      fun s member => (done.sessions s member).2⟩
    intro back
    exact fresh (Option.some.inj (new.symm.trans back) ▸ minted)

theorem Changes.forever {c : VerifiedChange} {t : Transition Administration AdminAct} {later older}
    (changes : Changes app c t) (run : Run (administration app) (later ++ t :: older) w) :
    hashOf w.db c.username ≠ some c.oldHash := by
  obtain ⟨before, moved⟩ := run.at_transition
  obtain ⟨gone, minted, -⟩ := changes.replaced moved (accounts_valid before)
  refine (run.persists (fun w => hashOf w.db c.username ≠ some c.oldHash ∧ c.oldHash ∈ w.minted) ⟨gone, minted⟩ ?_).1
  rintro history w act next run ⟨gone, minted⟩ moved
  have grows := moved.minted
  refine ⟨?_, grows.1 ▸ List.mem_append_right _ minted⟩
  intro back
  rcases ((admin_effect moved).hash (accounts_valid run).unique c.username).new back with old | new
  · exact gone old
  · exact grows.2 _ new minted

theorem Succeeds.current {username hash : String} {t : Transition Administration AdminAct}
    (succeeds : Succeeds app username hash t) (valid : AccountsValid t.before) :
    hashOf t.before.db username = some hash := by
  cases succeeds with
  | @login site l ids now stored outcome same own equal answered =>
    exact own ▸ equal ▸ (commit_done (finishLogin_spec app site l ids now t.before.db) answered).1
  | ceremony row same member named own equal answered =>
    exact own ▸ equal ▸ valid.owner row member ▸ valid.pending row member

/-- What a committed password change means for the rest of the run. -/
structure Superseded (app : App) (c : VerifiedChange) (later : List (Transition Administration AdminAct))
    (t : Transition Administration AdminAct) (older : List (Transition Administration AdminAct)) (w : Administration) :
    Prop where
  replaced : hashOf w.db c.username ≠ some c.oldHash
  sessions : ∀ s ∈ w.db.authSessions, s.username = c.username → ∃ hash, hash ≠ c.oldHash ∧
    Since (fun newer => s ∈ newer.after.db.authSessions)
      (fun newer between => Opened app s hash newer (between ++ t :: older)) later
  refused : ∀ newer ∈ later, ¬ Succeeds app c.username c.oldHash newer

theorem Changes.superseded {c : VerifiedChange} {t : Transition Administration AdminAct} {later older}
    (changes : Changes app c t) (run : Run (administration app) (later ++ t :: older) w) :
    Superseded app c later t older w := by
  obtain ⟨before, moved⟩ := run.at_transition
  have cleared := (changes.replaced moved (accounts_valid before)).2.2
  refine ⟨changes.forever run, ?_, ?_⟩
  · intro s member own
    obtain ⟨hash, known, since⟩ := (passwords_valid run).sessions s member
    refine ⟨hash, ?_, since.recent (fun opened => ?_) fun there => cleared.sessions s there own⟩
    · rintro rfl
      exact changes.forever run (own ▸ known)
    · exact cleared.sessions s opened.opened own
  · intro newer member succeeds
    obtain ⟨newest, between, rfl⟩ := List.append_of_mem member
    rw [List.append_assoc, List.cons_append] at run
    obtain ⟨earlier, -⟩ := run.at_transition
    exact changes.forever earlier (succeeds.current (accounts_valid earlier))

theorem password_change_final (run : Run (administration app) history w) :
    (∀ s ∈ w.db.authSessions, ∃ hash, hashOf w.db s.username = some hash ∧
      Since (fun t => s ∈ t.after.db.authSessions) (Opened app s hash) history) ∧
    (∀ row ∈ w.db.authPending, hashOf w.db row.username = some row.data.passwordHash) ∧
    ∀ later t older c, history = later ++ t :: older → Changes app c t → Superseded app c later t older w := by
  refine ⟨(passwords_valid run).sessions, (accounts_valid run).pending, ?_⟩
  rintro later t older c rfl changes
  exact changes.superseded run

/-- An authenticator answers with the id of its key. -/
def plainApp : App where
  sha256 bytes := ⟨(bytes ++ List.replicate 32 0).take 32, by simp⟩
  compare hash password := hash == "$" ++ password
  webauthn := {
    beginRegistration := fun _ _ _ challenge => some (challenge, challenge)
    beginLogin := fun _ _ challenge => some (challenge, challenge)
    createCredential := fun _ _ _ response => some ⟨Bytes.utf8 response, ""⟩
    validateLogin := fun _ u _ response => u.credentials.find? fun c => c.id == Bytes.utf8 response }

def plainSite : Site := ⟨"https://logs", some ⟨"https", "logs", false, "", "", ""⟩⟩

def opsStart : Administration :=
  ⟨⟨[⟨"ops", "$first password"⟩], [], [], [], [], [], [], [], []⟩, [], [], [], [], ["$first password"]⟩

def opsLogin : LoginRequest := ⟨"https://logs", "10.0.0.1", "ops", "first password"⟩

def opsVerified : VerifiedLogin := ⟨"ops", "$first password", "10.0.0.1"⟩

def opsChange : VerifiedChange := ⟨"t1", "ops", "$first password"⟩

def authIds (n : String) : AuthIds := ⟨"u" ++ n, "r" ++ n, "c" ++ n, "t" ++ n, "x" ++ n⟩

theorem password_change_final_waiting : ∃ history w t older stale,
    Superseded plainApp opsChange [stale] t older w ∧ history = [stale] ++ t :: older ∧
    stale.action = .login plainSite opsVerified (authIds "2") 6000 true ∧ w.db.authSessions = [] := by
  have start : Run (administration plainApp) [] opsStart :=
    .start ⟨rfl, rfl, rfl, List.nodup_singleton _, by decide +kernel, rfl, rfl, rfl, rfl⟩
  have asked := start.next (.admitLogin plainSite opsLogin 1000)
  have verified := asked.next (.verifyLogin opsLogin (by decide +kernel))
  have opened := verified.next (.login plainSite opsVerified (authIds "1") 2000 true (by decide +kernel))
  have again := opened.next (.admitLogin plainSite opsLogin 3000)
  have waiting := again.next (.verifyLogin opsLogin (by decide +kernel))
  have checked := waiting.next (.verifyChange ⟨"t1", "first password", "second password"⟩ 4000)
  have changed := checked.next (.changePassword opsChange "$second password" 5000 true (by decide +kernel) (by decide +kernel))
  have late := changed.next (.login plainSite opsVerified (authIds "2") 6000 true (by decide +kernel))
  refine ⟨_, _, _, _, _, (password_change_final late).2.2 [_] _ _ opsChange rfl ⟨_, _, _, rfl, ?_⟩, rfl, rfl, ?_⟩
  · decide +kernel
  · decide +kernel

end SshLogger
