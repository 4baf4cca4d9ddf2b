import SshLogger.Proofs.Consumption

/-! What a step of an authentication leaves in the database when it does not
succeed. A refusal is committed, so every refusal of the handlers must come
before their changes; any other error rolls the transaction back. -/

namespace SshLogger
open Library Library.Transaction

/-- The transactions of `login`, of `passkeyBegin` and of the endpoints that
finish a ceremony. A login with a wrong password has one of its own. -/
inductive AuthCall
  | failLogin (ip : String)
  | login (l : VerifiedLogin)
  | passkeyBegin (r : ManageRequest)
  | finish (endpoint : Endpoint) (r : FinishRequest)

/-- `failed` is any error that is not an `authProblem`. -/
inductive Ending
  | done
  | problem (p : Problem)
  | failed
  deriving DecidableEq, Repr

def ending {α : Type} (db : Accounts) (stored : Bool) (body : AuthTx α) : Ending :=
  if stored then
    match body db with
    | some (.ok _, _) => .done
    | some (.error p, _) => .problem p
    | none => .failed
  else .failed

namespace AuthCall

def commits (app : App) (site : Site) (db : Accounts) (ids : AuthIds) (now : Int) (stored : Bool) : AuthCall → Accounts
  | failLogin ip => (SshLogger.failLogin db ip now stored).2
  | login l => (SshLogger.login app site db l ids now stored).2
  | passkeyBegin r => (SshLogger.passkeyBegin app site db r ids now stored).2
  | finish endpoint r => (finishCeremony app site db endpoint r ids now stored).2

/-- A request turned away before its transaction has not begun one. -/
def ends (app : App) (site : Site) (db : Accounts) (ids : AuthIds) (now : Int) (stored : Bool) : AuthCall → Ending
  | failLogin _ => if stored then .problem (401, "계정 또는 비밀번호가 올바르지 않습니다.") else .failed
  | login l => ending db stored (finishLogin app site l ids now)
  | passkeyBegin r => if isManageable r then ending db stored (beginManaging app site r ids now) else .failed
  | finish endpoint r =>
    if r.origin != site.origin then .failed else ending db stored (finishPending app site endpoint r ids now)

/-- What a refusal of the call may touch: the pending request it names, if it is
addressed to the caller, the account, and the counters of failures. -/
def pending (app : App) (db : Accounts) : AuthCall → Option AuthPending
  | finish endpoint r => addressed app db endpoint r
  | _ => none

def account (app : App) (db : Accounts) : AuthCall → Option String
  | failLogin _ => none
  | login l => some l.username
  | passkeyBegin r => some r.username
  | finish endpoint r => (addressed app db endpoint r).map fun row => row.data.username

def limitKey (app : App) (db : Accounts) : AuthCall → Option String
  | passkeyBegin r => some ("manage:" ++ r.username)
  | finish endpoint r => (addressed app db endpoint r).map fun row =>
    (if endpoint == .login then "login:" else "manage:") ++ row.data.username
  | _ => none

def address : AuthCall → Option String
  | failLogin ip => some ip
  | _ => none

end AuthCall

structure Rejected (row : Option AuthPending) (name key ip : Option String) (now : Int) (db after : Accounts) : Prop where
  passkeys : after.passkeys = db.passkeys
  sessions : after.authSessions = db.authSessions
  admins : after.admins = db.admins
  roles : after.adminRoles = db.adminRoles
  servers : after.adminServers = db.adminServers
  auth : after.accountAuth = db.accountAuth ∨ ∃ username ∈ name, ∃ fresh,
    after.accountAuth = db.accountAuth ++ [⟨username, fresh, 0⟩] ∧ ∀ s ∈ db.accountAuth, s.username ≠ username
  pending : after.authPending = db.authPending ∨ ∃ consumed ∈ row,
    after.authPending = Rows.delete (fun other => other.idHash == consumed.idHash) db.authPending
  limits : after.authLimits = db.authLimits ∨ ∃ counter ∈ key, after.authLimits = countAttempt counter now db.authLimits
  attempts : after.loginAttempts = db.loginAttempts ∨ ∃ source ∈ ip,
    after.loginAttempts = countAttempt source now db.loginAttempts

variable {row : Option AuthPending} {name key ip : Option String} {now : Int} {db after : Accounts}

theorem Rejected.refl : Rejected row name key ip now db db :=
  ⟨rfl, rfl, rfl, rfl, rfl, Or.inl rfl, Or.inl rfl, Or.inl rfl, Or.inl rfl⟩

/-- The row made for an account stands for the version that its absence stood for. -/
theorem Rejected.versions (rejected : Rejected row name key ip now db after) (username : String) :
    versionOf after username = versionOf db username := by
  rcases rejected.auth with same | ⟨made, -, fresh, same, -⟩
  · simp only [versionOf, same]
  · cases found : db.accountAuth.find? fun s => s.username == username with
    | some s => simp [versionOf, same, List.find?_append, found]
    | none =>
      simp only [versionOf, same, List.find?_append, found, Option.none_or, List.find?_singleton]
      split <;> rfl

/-- The account's row of `account_auth`, made when it is first needed. -/
def opened (name fresh : String) (db : Accounts) : Accounts :=
  if Rows.has Admin.username name db.admins && !(db.accountAuth.any fun s => s.username == name || s.userId == fresh) then
    { db with accountAuth := db.accountAuth ++ [⟨name, fresh, 0⟩] }
  else db

theorem loadPasskeyUser_opens {α : Type} {name rp fresh : String} {next : PasskeyUser → AuthTx α}
    {post : Except Problem α → Accounts → Prop}
    (continued : ∀ u, Ensures (next u) (opened name fresh db) post) :
    Ensures (loadPasskeyUser name rp fresh >>= next) db post := by
  have outcome : Ensures (loadPasskeyUser name rp fresh) db fun result after =>
      after = opened name fresh db ∧ ∃ u, result = .ok u :=
    ensures_exec (ensures_query (ensures_query (ensures_query
      (ensures_fromOption fun _ _ => ensures_fromOption fun _ _ => ensures_pure ⟨rfl, _, rfl⟩))))
  refine ensures_bind outcome ?_ ?_
  · rintro problem after ⟨-, u, same⟩
    cases same
  · rintro u after ⟨rfl, -⟩
    exact continued u

theorem Rejected.opened {username : String} (rejected : Rejected row (some username) key ip now db after)
    (same : after.accountAuth = db.accountAuth) (fresh : String) :
    Rejected row (some username) key ip now db (opened username fresh after) := by
  unfold SshLogger.opened
  split
  next asked =>
    refine { rejected with auth := Or.inr ⟨username, rfl, fresh, by rw [same], fun s member other => ?_⟩ }
    simp only [Bool.and_eq_true, Bool.not_eq_true', List.any_eq_false] at asked
    exact asked.2 s (same ▸ member) (by simp [other])
  · exact rejected

theorem Rejected.counted {counter : String} (rejected : Rejected row name (some counter) ip now db after)
    (same : after.authLimits = db.authLimits) :
    Rejected row name (some counter) ip now db { after with authLimits := countAttempt counter now after.authLimits } :=
  { rejected with limits := Or.inr ⟨counter, rfl, by rw [same]⟩ }

theorem opened_limits (name fresh : String) (db : Accounts) : (opened name fresh db).authLimits = db.authLimits := by
  unfold opened
  split <;> rfl

theorem savePending_unrefused (hash : String → String) (p : PendingAuth) (id : String) (now : Int) :
    Unrefused (savePending hash p id now) :=
  (unrefused_exec _).bind fun _ => unrefused_query fun _ => unrefused_require
    ((unrefused_exec _).bind fun _ => unrefused_pure _)

variable {app : App} {site : Site} {ids : AuthIds} {allowed : Accounts → Prop}

/-- A ceremony is refused before it is saved, and only for want of a key. -/
theorem beginCeremony_unrefused {rp : String} {u : PasskeyUser} {p : PendingAuth} {registration : Bool}
    (possible : (registration || u.credentials.length != 0) = true) :
    Unrefused (beginCeremony app site rp u p registration ids now) := by
  refine unrefused_check possible (unrefused_fromOption ?_)
  rintro ⟨options, session⟩
  exact (savePending_unrefused _ _ _ _).bind fun _ => unrefused_pure _

theorem beginCeremony_refuses {rp : String} {u : PasskeyUser} {p : PendingAuth} {registration : Bool}
    (unchanged : allowed db) :
    Ensures (beginCeremony app site rp u p registration ids now) db fun result after =>
      ∀ problem, result = .error problem → allowed after := by
  cases possible : registration || u.credentials.length != 0 with
  | true => exact (beginCeremony_unrefused possible).ensures fun _ after => allowed after
  | false => exact ensures_check (fun _ _ _ => unchanged) fun passed => absurd (possible.symm.trans passed) Bool.false_ne_true

theorem revoke_unrefused (name current : String) (all : Bool) : Unrefused (revokeAfterPasskeyChange name current all) :=
  (unrefused_exec _ : Unrefused (invalidatePending name)).bind fun _ => unrefused_exec _

theorem createLoginSession_unrefused (hash : String → String) (name : String) (ids : AuthIds) (now : Int) :
    Unrefused (createLoginSession hash name ids now) :=
  unrefused_query fun _ => unrefused_require ((unrefused_exec _).bind fun _ => unrefused_pure _)

/-- After a verified answer the only refusal is that of a key enrolled before,
and it comes first. The registration that follows the use of a key needs none. -/
theorem complete_refuses {rp : String} {endpoint : Endpoint} {p : PendingAuth} {u : PasskeyUser} {credential : Credential}
    {key : String} (unchanged : allowed db) :
    Ensures (complete app site rp endpoint p u credential key ids now) db fun result after =>
      ∀ problem, result = .error problem → allowed after := by
  have clears : Unrefused (exec fun db => { db with
      authLimits := Rows.delete (fun row => row.key == key) db.authLimits } : AuthTx Unit) := unrefused_exec _
  have uses : Unrefused (useKey u credential now) := unrefused_exec _
  cases endpoint with
  | register =>
    have rest := revoke_unrefused u.name p.sessionHash (u.total == 0)
    have enrols : Ensures (enrol p u credential now) db fun result after => ∀ problem, result = .error problem → allowed after := by
      refine ensures_query (ensures_check (fun _ _ _ => unchanged) fun _ => ?_)
      exact ((unrefused_exec _).bind fun _ => rest).ensures fun _ after => allowed after
    refine ensures_bind enrols ?_ ?_
    · exact fun problem after refused _ _ => refused problem rfl
    · exact fun _ after _ => (clears.bind fun _ => unrefused_pure _) after |>.mono fun _ _ ⟨_, same⟩ _ other =>
        nomatch same.symm.trans other
  | login =>
    refine Unrefused.ensures ?_ fun _ after => allowed after
    refine uses.bind fun _ => clears.bind fun _ => (createLoginSession_unrefused _ _ _ _).bind fun _ => ?_
    exact (unrefused_exec _).bind fun _ => unrefused_pure _
  | finish =>
    refine Unrefused.ensures ?_ fun _ after => allowed after
    refine uses.bind fun _ => ?_
    split
    · exact (beginCeremony_unrefused rfl).bind fun _ => unrefused_pure _
    · have removes : Unrefused (removeKeys p u) := (unrefused_exec _).bind fun _ => revoke_unrefused _ _ _
      exact removes.bind fun _ => clears.bind fun _ => unrefused_pure _

/-- Every refusal of the transaction leaves no more than this. -/
def Refuses {α : Type} (body : AuthTx α) (db : Accounts) (allowed : Accounts → Prop) : Prop :=
  Ensures body db fun result after => ∀ problem, result = .error problem → allowed after

theorem Refuses.map {α β : Type} {body : AuthTx α} (refuses : Refuses body db allowed) (answer : α → β) :
    Refuses (body >>= fun value => pure (answer value)) db allowed :=
  ensures_bind refuses (fun problem _ refused _ _ => refused problem rfl) fun _ _ _ => ensures_pure nofun

theorem finishLogin_refuses (l : VerifiedLogin) (db : Accounts) :
    Refuses (finishLogin app site l ids now) db (Rejected none (some l.username) none none now db) := by
  have unchanged : Rejected none (some l.username) none none now db db := .refl
  refine ensures_query (ensures_fromExcept (fun _ _ _ _ => unchanged) fun a _ => ?_)
  refine ensures_check (fun _ _ _ => unchanged) fun _ => ensures_query ?_
  split
  · refine checkLimit_spec (fun _ _ _ => unchanged) (ensures_fromExcept (fun _ _ _ _ => unchanged) fun rp _ => ?_)
    refine loadPasskeyUser_opens fun u => ?_
    exact Refuses.map (beginCeremony_refuses (unchanged.opened rfl ids.user)) Finished.ceremony
  · refine Unrefused.ensures ?_ fun _ after => Rejected none (some l.username) none none now db after
    exact (createLoginSession_unrefused _ _ _ _).bind fun _ => (unrefused_exec _).bind fun _ => unrefused_pure _

theorem beginManaging_refuses (r : ManageRequest) (db : Accounts) :
    Refuses (beginManaging app site r ids now) db
      (Rejected none (some r.username) (some ("manage:" ++ r.username)) none now db) := by
  have unchanged : Rejected none (some r.username) (some ("manage:" ++ r.username)) none now db db := .refl
  refine ensures_fromExcept (fun _ _ _ _ => unchanged) fun rp _ => ?_
  refine checkActiveSession_spec (fun _ _ _ => unchanged) fun _ => checkLimit_spec (fun _ _ _ => unchanged) ?_
  refine loadPasskeyUser_opens fun u => ?_
  have made := unchanged.opened rfl ids.user
  split
  · exact ensures_exec (ensures_refuse fun _ _ => made.counted (opened_limits _ _ _))
  · refine ensures_check (fun _ _ _ => made) fun _ => ensures_query (ensures_check (fun _ _ _ => made) fun _ => ?_)
    exact beginCeremony_refuses made

/-- The request is gone from the first refusal after it was found to be the
caller's: nobody can try it again. -/
theorem finishPending_refuses (endpoint : Endpoint) (r : FinishRequest) (db : Accounts) :
    let call := AuthCall.finish endpoint r
    Refuses (finishPending app site endpoint r ids now) db
      (Rejected (call.pending app db) (call.account app db) (call.limitKey app db) none now db) := by
  intro call
  refine ensures_query (ensures_fromExcept (fun _ _ _ _ => .refl) fun row found => ?_)
  split at found
  · cases found
  next first matched =>
    cases found
    refine ensures_check (fun _ _ _ => .refl) fun own => ensures_exec ?_
    have chosen : addressed app db endpoint r = some row := by
      have named : pendingOf db (app.hash r.requestId) = some row := matched
      simp [addressed, named, Option.filter, own]
    have hashed : row.idHash = app.hash r.requestId := by simpa using List.find?_some matched
    simp only [call, AuthCall.pending, AuthCall.account, AuthCall.limitKey, chosen, Option.map_some]
    have taken : Rejected (some row) (some row.data.username)
        (some ((if endpoint == .login then "login:" else "manage:") ++ row.data.username)) none now db
        (consumed db (app.hash r.requestId)) :=
      { (.refl : Rejected (some row) _ _ _ now db db) with pending := Or.inr ⟨row, rfl, by rw [hashed, consumed]⟩ }
    refine ensures_check (fun _ _ _ => taken) fun _ => checkCaller_spec (fun _ _ _ => taken) fun _ => ?_
    refine ensures_fromExcept (fun _ _ _ _ => taken) fun rp _ => loadPasskeyUser_opens fun u => ?_
    have made := taken.opened rfl ids.user
    refine ensures_check (fun _ _ _ => made) fun _ => checkLimit_spec (fun _ _ _ => made) ?_
    split
    · exact ensures_exec (ensures_refuse fun _ _ => made.counted (opened_limits _ _ _))
    · exact complete_refuses made

/-- How the outcome of a transaction reads in the database it leaves. -/
theorem authTransaction_ends {α : Type} {body : AuthTx α} {stored : Bool} (refuses : Refuses body db allowed) :
    (∀ problem, ending db stored body = .problem problem → allowed (authTransaction db stored body).2) ∧
      (ending db stored body = .failed → (authTransaction db stored body).2 = db) := by
  simp only [ending, authTransaction, commit]
  cases stored with
  | false => exact ⟨fun _ ended => Ending.noConfusion ended, fun _ => rfl⟩
  | true =>
    simp only [if_true]
    cases ran : body db with
    | none => exact ⟨fun _ ended => Ending.noConfusion ended, fun _ => rfl⟩
    | some outcome =>
      obtain ⟨result, after⟩ := outcome
      cases result with
      | ok value => exact ⟨fun _ ended => Ending.noConfusion ended, fun ended => Ending.noConfusion ended⟩
      | error problem => exact ⟨fun _ _ => refuses _ _ ran problem rfl, fun ended => Ending.noConfusion ended⟩

/-- A step that ends with an `authProblem` leaves at most the pending request it
named consumed, the counter of its failures raised and the account's row made;
a step that ends with any other error leaves the database as it was. -/
theorem rejected_steps_contained (app : App) (site : Site) (call : AuthCall) (db : Accounts) (ids : AuthIds) (now : Int)
    (stored : Bool) :
    (∀ problem, call.ends app site db ids now stored = .problem problem →
      Rejected (call.pending app db) (call.account app db) (call.limitKey app db) call.address now db
          (call.commits app site db ids now stored) ∧
        ∀ username, versionOf (call.commits app site db ids now stored) username = versionOf db username) ∧
    (call.ends app site db ids now stored = .failed → call.commits app site db ids now stored = db) := by
  have contained : (∀ problem, call.ends app site db ids now stored = .problem problem →
      Rejected (call.pending app db) (call.account app db) (call.limitKey app db) call.address now db
        (call.commits app site db ids now stored)) ∧
      (call.ends app site db ids now stored = .failed → call.commits app site db ids now stored = db) := by
    cases call with
    | failLogin ip =>
      simp only [AuthCall.ends, AuthCall.commits]
      cases stored with
      | false => exact ⟨fun _ ended => Ending.noConfusion ended, fun _ => rfl⟩
      | true =>
        refine ⟨fun _ _ => ?_, fun ended => Ending.noConfusion ended⟩
        exact ⟨rfl, rfl, rfl, rfl, rfl, Or.inl rfl, Or.inl rfl, Or.inl rfl, Or.inr ⟨ip, rfl, rfl⟩⟩
    | login l => exact authTransaction_ends (finishLogin_refuses l db)
    | passkeyBegin r =>
      simp only [AuthCall.ends, AuthCall.commits, passkeyBegin]
      cases manageable : isManageable r with
      | false => exact ⟨fun _ ended => Ending.noConfusion ended, fun _ => rfl⟩
      | true => exact authTransaction_ends (beginManaging_refuses r db)
    | finish endpoint r =>
      simp only [AuthCall.ends, AuthCall.commits, finishCeremony]
      split
      · exact ⟨fun _ ended => Ending.noConfusion ended, fun _ => rfl⟩
      · exact authTransaction_ends (finishPending_refuses endpoint r db)
  exact ⟨fun problem ended => ⟨contained.1 problem ended, (contained.1 problem ended).versions⟩, contained.2⟩

end SshLogger
