import SshLogger.Proofs.Limiter
import SshLogger.Proofs.Factors
import SshLogger.Proofs.Rejection

/-! The limit on failed passwords and passkeys of one account. The count is
checked, the password or passkey verified and a failure recorded in one
transaction, so that no request verifies anything past the tenth failure. -/

namespace SshLogger
open Library Library.Transaction Library.History

/-- `passkeyBegin` before it compares the password. -/
def manageUser (site : Site) (r : ManageRequest) (ids : AuthIds) (now : Int) : AuthTx (String × PasskeyUser) := do
  let rp ← fromExcept (webAuthn site)
  checkActiveSession r.sessionHash r.username now
  checkLimit ("manage:" ++ r.username) now
  let u ← loadPasskeyUser r.username rp ids.user
  return (rp, u)

def answerManaging (app : App) (site : Site) (r : ManageRequest) (ids : AuthIds) (now : Int) :
    String × PasskeyUser → AuthTx CeremonyResponse
  | (rp, u) =>
    if !app.compare u.passwordHash r.password then do
      recordFailure ("manage:" ++ r.username) now
      refuse (400, "현재 비밀번호가 올바르지 않습니다.")
    else do
      check (r.action == "add" || u.total != 0) invalidAuth
      let owned ← query fun db => (passkeysOf db r.username).any fun k => k.id == r.target
      check (r.action != "delete" || owned) invalidAuth
      let p : PendingAuth := {
        username := "", passwordHash := "", sessionHash := r.sessionHash
        purpose := if u.total == 0 then "register" else r.action
        target := r.target, name := trimSpace r.name, rpId := "", origin := "", ip := "", version := 0, session := "" }
      beginCeremony app site rp u p (u.total == 0) ids now

theorem beginManaging_eq (app : App) (site : Site) (r : ManageRequest) (ids : AuthIds) (now : Int) :
    beginManaging app site r ids now = manageUser site r ids now >>= answerManaging app site r ids now := by
  simp only [beginManaging, manageUser, Tx.bind_assoc, Tx.pure_bind, answerManaging]

def limitKey (endpoint : Endpoint) (p : PendingAuth) : String :=
  (if endpoint == .login then "login:" else "manage:") ++ p.username

/-- `finishCeremony` before it verifies the answer of the authenticator. -/
def finishUser (app : App) (site : Site) (endpoint : Endpoint) (r : FinishRequest) (ids : AuthIds) (now : Int) :
    AuthTx (PendingAuth × String × PasskeyUser) := do
  let found ← query fun db => db.authPending.find? fun row => row.idHash == app.hash r.requestId
  let row ← fromExcept (match found with | none => .error invalidAuth | some row => .ok row)
  let p := row.data
  check (isAddressed p endpoint r) invalidAuth
  exec fun db => { db with
    authPending := Rows.delete (fun row => row.idHash == app.hash r.requestId) db.authPending }
  check (row.expires > now) invalidAuth
  checkCaller endpoint p now
  let rp ← fromExcept (webAuthn site)
  let u ← loadPasskeyUser p.username rp ids.user
  check (p.version == u.version && p.passwordHash == u.passwordHash && p.rpId == rp && p.origin == site.origin) invalidAuth
  checkLimit (limitKey endpoint p) now
  return (p, rp, u)

def verifyAnswer (app : App) (site : Site) (endpoint : Endpoint) (r : FinishRequest) (p : PendingAuth) (u : PasskeyUser) :
    Option Credential :=
  if endpoint == .register then app.webauthn.createCredential site u p.session r.response
  else app.webauthn.validateLogin site u p.session r.response

def answerFinish (app : App) (site : Site) (endpoint : Endpoint) (r : FinishRequest) (ids : AuthIds) (now : Int) :
    PendingAuth × String × PasskeyUser → AuthTx Finished
  | (p, rp, u) =>
    match verifyAnswer app site endpoint r p u with
    | none => do
      recordFailure (limitKey endpoint p) now
      refuse invalidAuth
    | some credential => complete app site rp endpoint p u credential (limitKey endpoint p) ids now

theorem finishPending_eq (app : App) (site : Site) (endpoint : Endpoint) (r : FinishRequest) (ids : AuthIds) (now : Int) :
    finishPending app site endpoint r ids now =
      finishUser app site endpoint r ids now >>= answerFinish app site endpoint r ids now := by
  simp only [finishPending, finishUser, Tx.bind_assoc, Tx.pure_bind]
  rfl

/-- A password or passkey that a request verifies, and what comes of it. -/
structure Verification where
  key : String
  now : Int
  passed : Bool

def verification (app : App) (db : Accounts) : AdminAct → Option Verification
  | .passkeyBegin site r ids now _ =>
    if isManageable r then
      match manageUser site r ids now db with
      | some (.ok (_, u), _) => some ⟨"manage:" ++ r.username, now, app.compare u.passwordHash r.password⟩
      | _ => none
    else none
  | .finishCeremony site endpoint r ids now _ =>
    if r.origin != site.origin then none
    else
      match finishUser app site endpoint r ids now db with
      | some (.ok (p, _, u), _) => some ⟨limitKey endpoint p, now, (verifyAnswer app site endpoint r p u).isSome⟩
      | _ => none
  | _ => none

def isStored : AdminAct → Bool
  | .passkeyBegin _ _ _ _ stored | .finishCeremony _ _ _ _ _ stored => stored
  | _ => true

def failsAt (app : App) (key : String) (t : Transition Administration AdminAct) : Bool :=
  (verification app t.before.db t.action).any fun v => v.key == key && !v.passed

def recordsAt (app : App) (key : String) (t : Transition Administration AdminAct) : Bool :=
  isStored t.action && failsAt app key t

def limitRow (db : Accounts) (key : String) : Option Attempts := db.authLimits.find? fun row => row.key == key

def resetsAt (key : String) (t : Transition Administration AdminAct) : Bool :=
  match limitRow t.before.db key with
  | none => false
  | some old => (limitRow t.after.db key).all fun row => row.reset != old.reset

variable {app : App} {site : Site} {ids : AuthIds} {now : Int} {key : String} {db : Accounts}

def UnderLimit (db : Accounts) (key : String) (now : Int) : Prop :=
  ∀ row, limitRow db key = some row → now < row.reset → row.count < 10

theorem checkLimit_under {α : Type} {next : Unit → AuthTx α} {post : Except Problem α → Accounts → Prop}
    (refused : ∀ problem, post (.error problem) db) (continued : UnderLimit db key now → Ensures (next ()) db post) :
    Ensures (checkLimit key now >>= next) db post := by
  have outcome : Ensures (checkLimit key now) db fun result after =>
      after = db ∧ (result = .ok () → UnderLimit db key now) := by
    refine ensures_query (check_ensures (fun _ => ⟨rfl, nofun⟩) fun few => ⟨rfl, fun _ row found inside => ?_⟩)
    obtain ⟨own, before, after, split, others⟩ := List.find?_eq_some_iff_append.mp found
    have seen : (db.authLimits.find? fun row => row.key == key && row.reset > now) = some row := by
      refine List.find?_eq_some_iff_append.mpr ⟨by simp [own, inside], before, after, split, fun other member => ?_⟩
      have different := others other member
      simp only [Bool.not_eq_true', Bool.and_eq_false_imp] at different ⊢
      exact fun same => absurd same (by simp [different])
    rw [seen] at few
    simpa using few
  exact ensures_bind outcome (fun problem _ same => same.1 ▸ refused problem)
    fun _ _ same => same.1 ▸ continued (same.2 rfl)

theorem UnderLimit.congr {other : Accounts} (under : UnderLimit db key now) (same : db.authLimits = other.authLimits) :
    UnderLimit other key now := by
  simpa only [UnderLimit, limitRow, same] using under

theorem manageUser_under (r : ManageRequest) (db : Accounts) :
    Ensures (manageUser site r ids now) db fun result after => after.authLimits = db.authLimits ∧
      ∀ found, result = .ok found → UnderLimit db ("manage:" ++ r.username) now := by
  refine ensures_fromExcept (fun _ _ => ⟨rfl, nofun⟩) fun rp _ => checkActiveSession_spec (fun _ => ⟨rfl, nofun⟩) fun _ => ?_
  refine checkLimit_under (fun _ => ⟨rfl, nofun⟩) fun under => loadPasskeyUser_opens fun u => ensures_pure ?_
  exact ⟨opened_limits _ _ _, fun _ _ => under⟩

theorem finishUser_under (endpoint : Endpoint) (r : FinishRequest) (db : Accounts) :
    Ensures (finishUser app site endpoint r ids now) db fun result after => after.authLimits = db.authLimits ∧
      ∀ p rp u, result = .ok (p, rp, u) → UnderLimit db (limitKey endpoint p) now ∧
        ∃ row, addressed app db endpoint r = some row ∧ row.data = p := by
  refine ensures_query (ensures_fromExcept (fun _ _ => ⟨rfl, nofun⟩) fun row found => ?_)
  split at found
  · cases found
  next first matched =>
    cases found
    refine ensures_check (fun _ => ⟨rfl, nofun⟩) fun own => ensures_exec (ensures_check (fun _ => ⟨rfl, nofun⟩) fun _ => ?_)
    refine checkCaller_spec (fun _ => ⟨rfl, nofun⟩) fun _ => ensures_fromExcept (fun _ _ => ⟨rfl, nofun⟩) fun rp _ => ?_
    refine loadPasskeyUser_opens fun u => ?_
    have same := opened_limits row.data.username ids.user (consumed db (app.hash r.requestId))
    refine ensures_check (fun _ => ⟨same, nofun⟩) fun _ => checkLimit_under (fun _ => ⟨same, nofun⟩) fun under => ?_
    refine ensures_pure ⟨same, ?_⟩
    have named : pendingOf db (app.hash r.requestId) = some row := matched
    rintro p rp u ⟨⟩
    exact ⟨under.congr same, row, by simp [addressed, named, Option.filter, own], rfl⟩

structure LimitsKept (db after : Accounts) : Prop where
  limits : after.authLimits = db.authLimits

instance : IsPreorder Accounts LimitsKept where
  refl _ := ⟨rfl⟩
  trans _ _ _ first second := ⟨second.limits.trans first.limits⟩

theorem loadPasskeyUser_limits (name rp fresh : String) : Guarantees LimitsKept (loadPasskeyUser name rp fresh) :=
  fun db => (Tx.bind_pure (loadPasskeyUser name rp fresh)) ▸
    loadPasskeyUser_opens fun _ => ensures_pure ⟨opened_limits name fresh db⟩

theorem checkLimit_limits (key : String) (now : Int) : Guarantees LimitsKept (checkLimit key now) :=
  guarantees_query fun _ => check_guarantees _ _

theorem beginCeremony_limits {rp : String} {u : PasskeyUser} {p : PendingAuth} {registration : Bool} :
    Guarantees LimitsKept (beginCeremony app site rp u p registration ids now) := by
  refine guarantees_check fun _ => guarantees_fromOption ?_
  rintro ⟨options, session⟩ -
  have saves : ∀ p, Guarantees LimitsKept (savePending app.hash p ids.request now) := fun p =>
    (guarantees_exec fun _ => ⟨rfl⟩).bind fun _ => guarantees_query fun _ => guarantees_require fun _ =>
      (guarantees_exec fun _ => ⟨rfl⟩).bind fun _ => guarantees_pure _
  exact (saves _).bind fun _ => guarantees_pure _

theorem revoke_limits (name current : String) (all : Bool) :
    Guarantees LimitsKept (revokeAfterPasskeyChange name current all) :=
  (guarantees_exec fun _ => ⟨rfl⟩ : Guarantees LimitsKept (invalidatePending name)).bind fun _ => guarantees_exec fun _ => ⟨rfl⟩

theorem createLoginSession_limits (hash : String → String) (name : String) (ids : AuthIds) (now : Int) :
    Guarantees LimitsKept (createLoginSession hash name ids now) :=
  guarantees_query fun _ => guarantees_require fun _ => (guarantees_exec fun _ => ⟨rfl⟩).bind fun _ => guarantees_pure _

theorem forgive_limits (ip : String) : Guarantees LimitsKept (exec fun db => { db with
    loginAttempts := Rows.delete (fun row => row.key == ip) db.loginAttempts } : AuthTx Unit) := guarantees_exec fun _ => ⟨rfl⟩

theorem finishLogin_limits (l : VerifiedLogin) : Guarantees LimitsKept (finishLogin app site l ids now) := by
  refine guarantees_query fun _ => guarantees_fromExcept fun _ _ => guarantees_check fun _ => guarantees_query fun _ => ?_
  split
  · refine (checkLimit_limits _ _).bind fun _ => guarantees_fromExcept fun _ _ => ?_
    exact (loadPasskeyUser_limits _ _ _).bind fun _ => beginCeremony_limits.bind fun _ => guarantees_pure _
  · exact (createLoginSession_limits _ _ _ _).bind fun _ => (forgive_limits _).bind fun _ => guarantees_pure _

/-- A right answer clears the counter at most. -/
theorem complete_limits {rp : String} {endpoint : Endpoint} {p : PendingAuth} {u : PasskeyUser} {credential : Credential}
    (db : Accounts) :
    Ensures (complete app site rp endpoint p u credential key ids now) db fun _ after =>
      after.authLimits = db.authLimits ∨ after.authLimits = Rows.delete (fun row => row.key == key) db.authLimits := by
  have uses : Guarantees LimitsKept (useKey u credential now) := guarantees_exec fun _ => ⟨rfl⟩
  have clears : ∀ {α : Type} {middle : Accounts} {next : Unit → AuthTx α}, LimitsKept db middle →
      (Guarantees LimitsKept (next ())) → Ensures ((exec fun db => { db with
        authLimits := Rows.delete (fun row => row.key == key) db.authLimits }) >>= next) middle fun _ after =>
          after.authLimits = db.authLimits ∨ after.authLimits = Rows.delete (fun row => row.key == key) db.authLimits := by
    intro α middle next kept rest
    refine ensures_exec ((rest _).mono fun _ after later => Or.inr ?_)
    exact later.limits.trans (congrArg (Rows.delete fun row => row.key == key) kept.limits)
  cases endpoint with
  | register =>
    have enrols : Guarantees LimitsKept (enrol p u credential now) := guarantees_query fun _ => guarantees_check fun _ =>
      (guarantees_exec fun _ => ⟨rfl⟩).bind fun _ => revoke_limits _ _ _
    exact ensures_bind (enrols db) (fun _ _ kept => Or.inl kept.limits) fun _ _ kept => clears kept (guarantees_pure _)
  | login =>
    refine ensures_bind (uses db) (fun _ _ kept => Or.inl kept.limits) fun _ _ kept => clears kept ?_
    exact (createLoginSession_limits _ _ _ _).bind fun _ => (forgive_limits _).bind fun _ => guarantees_pure _
  | finish =>
    refine ensures_bind (uses db) (fun _ _ kept => Or.inl kept.limits) fun _ middle used => ?_
    split
    · refine ((beginCeremony_limits.bind fun _ => guarantees_pure _) middle).mono fun _ _ later => Or.inl ?_
      exact later.limits.trans used.limits
    · have removes : Guarantees LimitsKept (removeKeys p u) :=
        (guarantees_exec fun _ => ⟨rfl⟩).bind fun _ => revoke_limits _ _ _
      refine ensures_bind (removes middle) (fun _ _ kept => Or.inl (kept.limits.trans used.limits)) fun _ _ kept => ?_
      exact clears (trans_of LimitsKept used kept) (guarantees_pure _)

inductive LimitEffect (app : App) (db after : Accounts) (act : AdminAct) : Prop
  | kept : after.authLimits = db.authLimits →
      (∀ v, verification app db act = some v → v.passed = false → isStored act = false) → LimitEffect app db after act
  | failed (v : Verification) : verification app db act = some v → v.passed = false → isStored act = true →
      UnderLimit db v.key v.now → after.authLimits = countAttempt v.key v.now db.authLimits → LimitEffect app db after act
  | passed (v : Verification) : verification app db act = some v → v.passed = true →
      after.authLimits = Rows.delete (fun row => row.key == v.key) db.authLimits → LimitEffect app db after act
  | reset (username : String) : act = .resetTwoFactor username true → after.authLimits =
      Rows.delete (fun row => row.key == "manage:" ++ username || row.key == "login:" ++ username) db.authLimits →
      LimitEffect app db after act
  | cleaned (now : Int) : act = .cleanup now → after.authLimits = Rows.delete (fun row => row.reset < now) db.authLimits →
      LimitEffect app db after act

/-- A transaction that ends with the answer to a verification counts a failure
of it, or clears the counter at most. -/
theorem answered_limits {α β : Type} {act : AdminAct} {first : AuthTx β} {next : β → AuthTx α} (judge : β → Verification)
    (reached : verification app db act = match first db with | some (.ok found, _) => some (judge found) | _ => none)
    (begins : Ensures first db fun result after => after.authLimits = db.authLimits ∧
      ∀ found, result = .ok found → UnderLimit db (judge found).key (judge found).now)
    (wrong : ∀ found middle, (judge found).passed = false → ∃ problem, next found middle = some (.error problem,
      { middle with authLimits := countAttempt (judge found).key (judge found).now middle.authLimits }))
    (right : ∀ found middle, (judge found).passed = true → Ensures (next found) middle fun _ after =>
      after.authLimits = middle.authLimits ∨
        after.authLimits = Rows.delete (fun row => row.key == (judge found).key) middle.authLimits) :
    LimitEffect app db (authTransaction db (isStored act) (first >>= next)).2 act := by
  cases stored : isStored act with
  | false => exact .kept (by simp [authTransaction, commit]) fun _ _ _ => stored
  | true =>
    simp only [authTransaction, commit, if_true, bind]
    cases ran : first db with
    | none => exact .kept rfl (by simp [reached, ran])
    | some outcome =>
      obtain ⟨result, middle⟩ := outcome
      obtain ⟨kept, under⟩ := begins _ _ ran
      rw [ran] at reached
      cases result with
      | error problem => exact .kept kept (by simp [reached])
      | ok found =>
        cases passed : (judge found).passed with
        | false =>
          obtain ⟨problem, refused⟩ := wrong found middle passed
          refine .failed _ reached passed stored (under _ rfl) ?_
          simp only [refused, Option.getD_some, kept]
        | true =>
          have succeeds : ∀ v, verification app db act = some v → v.passed = false → isStored act = false := by
            intro v same failed
            cases reached.symm.trans same
            exact absurd (passed.symm.trans failed) Bool.true_eq_false.mp
          change LimitEffect app db ((next found middle).getD _).2 act
          cases answered : next found middle with
          | none => exact .kept rfl succeeds
          | some last =>
            rcases right found middle passed _ _ answered with same | cleared
            · exact .kept (same.trans kept) succeeds
            · exact .passed _ reached passed (cleared.trans (congrArg _ kept))

theorem passkeyBegin_limits (r : ManageRequest) (db : Accounts) (stored : Bool) :
    LimitEffect app db (passkeyBegin app site db r ids now stored).2 (.passkeyBegin site r ids now stored) := by
  simp only [passkeyBegin, beginManaging_eq]
  cases manageable : isManageable r with
  | false => exact .kept rfl (by simp [verification, manageable])
  | true =>
    change LimitEffect app db (authTransaction db (isStored (.passkeyBegin site r ids now stored)) _).2 _
    refine answered_limits (fun found => ⟨"manage:" ++ r.username, now, app.compare found.2.passwordHash r.password⟩)
      ?_ (manageUser_under r db) ?_ ?_
    · simp only [verification, manageable, if_true]
      rcases manageUser site r ids now db with _ | ⟨_ | ⟨rp, u⟩, middle⟩ <;> rfl
    · rintro ⟨rp, u⟩ middle failed
      have wrong : app.compare u.passwordHash r.password = false := failed
      refine ⟨(400, "현재 비밀번호가 올바르지 않습니다."), ?_⟩
      simp only [answerManaging, wrong, Bool.not_false, if_true]
      rfl
    · rintro ⟨rp, u⟩ middle passed
      have right : app.compare u.passwordHash r.password = true := passed
      have answers : Guarantees LimitsKept (answerManaging app site r ids now (rp, u)) := by
        simp only [answerManaging, right, Bool.not_true, Bool.false_eq_true, if_false]
        exact guarantees_check fun _ => guarantees_query fun _ => guarantees_check fun _ => beginCeremony_limits
      exact (answers middle).mono fun _ _ kept => Or.inl kept.limits

theorem finishCeremony_limits (endpoint : Endpoint) (r : FinishRequest) (db : Accounts) (stored : Bool) :
    LimitEffect app db (finishCeremony app site db endpoint r ids now stored).2
      (.finishCeremony site endpoint r ids now stored) := by
  simp only [finishCeremony, finishPending_eq]
  cases foreign : r.origin != site.origin with
  | true => exact .kept rfl (by simp [verification, foreign])
  | false =>
    change LimitEffect app db (authTransaction db (isStored (.finishCeremony site endpoint r ids now stored)) _).2 _
    refine answered_limits (fun found =>
      ⟨limitKey endpoint found.1, now, (verifyAnswer app site endpoint r found.1 found.2.2).isSome⟩)
      ?_ ((finishUser_under endpoint r db).mono ?_) ?_ ?_
    · simp only [verification, foreign, Bool.false_eq_true, if_false]
      rcases finishUser app site endpoint r ids now db with _ | ⟨_ | ⟨p, rp, u⟩, middle⟩ <;> rfl
    · rintro result after ⟨kept, under⟩
      exact ⟨kept, fun found same => (under found.1 found.2.1 found.2.2 same).1⟩
    · rintro ⟨p, rp, u⟩ middle failed
      have none_found : verifyAnswer app site endpoint r p u = none := by simpa using failed
      refine ⟨invalidAuth, ?_⟩
      simp only [answerFinish, none_found]
      rfl
    · rintro ⟨p, rp, u⟩ middle passed
      obtain ⟨credential, found⟩ := Option.isSome_iff_exists.mp passed
      simp only [answerFinish, found]
      exact complete_limits middle

theorem LimitEffect.other {after : Accounts} {act : AdminAct} (same : after.authLimits = db.authLimits)
    (none_reached : verification app db act = none) : LimitEffect app db after act :=
  .kept same (by simp [none_reached])

theorem commit_limits {α : Type} {body : AuthTx α} {act : AdminAct} (kept : Guarantees LimitsKept body) (stored : Bool)
    (unstored : Problem) (none_reached : verification app db act = none) :
    LimitEffect app db (commit db stored unstored body).2 act :=
  .other (commit_related (kept db) stored unstored).limits none_reached

theorem step_limits {w next : Administration} {act : AdminAct} (moved : Administration.Step app w act next) :
    LimitEffect app w.db next.db act := by
  cases moved with
  | passkeyBegin site r ids now stored => exact passkeyBegin_limits r w.db stored
  | finishCeremony site endpoint r ids now stored => exact finishCeremony_limits endpoint r w.db stored
  | cleanup now => exact .cleaned now rfl rfl
  | resetTwoFactor username stored =>
    have revokes := revoke_limits username "" true
    have resets : Ensures (removeFactors username) w.db fun _ after => after.authLimits =
        Rows.delete (fun row => row.key == "manage:" ++ username || row.key == "login:" ++ username) w.db.authLimits :=
      ensures_query (ensures_require fun _ => ensures_exec ((revokes _).mono fun _ _ kept => kept.limits))
    cases stored with
    | false => exact .other rfl rfl
    | true =>
      simp only [resetTwoFactor, authTransaction, commit, if_true]
      cases ran : removeFactors username w.db with
      | none => exact .other rfl rfl
      | some outcome => exact .reset username rfl (resets _ _ ran)
  | login site l ids now stored => exact commit_limits (finishLogin_limits l) stored _ rfl
  | failLogin ip now stored => exact .other (by rw [failLogin_stored]; split <;> rfl) rfl
  | logout cookie stored =>
    refine commit_limits ?_ stored _ rfl
    exact guarantees_exec fun _ => ⟨rfl⟩
  | changePassword c newHash now stored =>
    refine commit_limits ?_ stored _ rfl
    refine guarantees_query fun _ => guarantees_query fun _ => guarantees_check fun _ => ?_
    refine (guarantees_exec fun _ => ⟨rfl⟩).bind fun _ => ?_
    exact (guarantees_exec fun _ => ⟨rfl⟩ : Guarantees LimitsKept (invalidatePending _)).bind fun _ => guarantees_exec fun _ => ⟨rfl⟩
  | createAdmin cookie username password passwordHash now stored =>
    simp only [createAdmin]
    split
    · exact .other rfl rfl
    · split
      · exact .other rfl rfl
      · refine commit_limits ?_ stored _ rfl
        exact guarantees_query fun _ => guarantees_check fun _ => guarantees_query fun _ => guarantees_check fun _ =>
          guarantees_exec fun _ => ⟨rfl⟩
  | deleteAdmin cookie target now stored =>
    refine commit_limits ?_ stored _ rfl
    refine guarantees_query fun _ => guarantees_fromExcept fun _ _ => guarantees_check fun _ => guarantees_query fun _ => ?_
    exact guarantees_check fun _ => guarantees_query fun _ => guarantees_check fun _ => guarantees_exec fun _ => ⟨rfl⟩
  | _ => exact .other rfl rfl

theorem limitRow_eq (db : Accounts) (key : String) :
    limitRow db key = (db.authLimits.filter fun row => row.key == key).head? := List.head?_filter.symm

theorem limitRow_counted {after : Accounts} (counted : after.authLimits = countAttempt key now db.authLimits) :
    limitRow after key = some (match limitRow db key with | none => ⟨key, 1, now + 15 * 60 * 1000⟩ | some row => bump now row) := by
  rw [limitRow_eq, limitRow_eq, counted, countAttempt_own]
  cases db.authLimits.filter fun row => row.key == key with
  | nil => rfl
  | cons row rest => rfl

theorem limitRow_other {after : Accounts} {other : String} (different : other ≠ key)
    (counted : after.authLimits = countAttempt other now db.authLimits) : limitRow after key = limitRow db key := by
  rw [limitRow_eq, limitRow_eq, counted, countAttempt_other different]

theorem limitRow_mem {row : Attempts} (found : limitRow db key = some row) : row ∈ db.authLimits ∧ row.key = key :=
  ⟨List.mem_of_find?_eq_some found, by simpa using List.find?_some found⟩

/-- A statement that deletes rows leaves the counter or takes it away. -/
theorem limitRow_deleted {after : Accounts} {selected : Attempts → Bool} (unique : Rows.Unique Attempts.key db.authLimits)
    (deleted : after.authLimits = Rows.delete selected db.authLimits) :
    limitRow after key = (limitRow db key).filter fun row => !selected row := by
  cases found : limitRow db key with
  | none =>
    have absent : ∀ row ∈ db.authLimits, row.key ≠ key := by simpa [limitRow] using found
    refine List.find?_eq_none.mpr fun row member => ?_
    rw [deleted] at member
    simpa using absent row (Rows.mem_delete.mp member).1
  | some row =>
    obtain ⟨member, own⟩ := limitRow_mem found
    have only : ∀ other ∈ db.authLimits, other.key = key → other = row := fun other there same =>
      unique.eq there member (same.trans own.symm)
    cases chosen : selected row with
    | true =>
      rw [Option.filter_some, chosen]
      refine List.find?_eq_none.mpr fun other there => ?_
      rw [deleted] at there
      obtain ⟨inside, kept⟩ := Rows.mem_delete.mp there
      intro same
      rw [only other inside (by simpa using same), chosen] at kept
      cases kept
    | false =>
      rw [Option.filter_some, chosen]
      have there : row ∈ after.authLimits := deleted ▸ Rows.mem_delete.mpr ⟨member, chosen⟩
      cases first : limitRow after key with
      | none =>
        have absent := List.find?_eq_none.mp first row there
        exact absurd own (by simpa using absent)
      | some other =>
        obtain ⟨inside, same⟩ := limitRow_mem first
        rw [deleted] at inside
        rw [only other (Rows.mem_delete.mp inside).1 same]
        rfl

theorem effect_unique {after : Accounts} {act : AdminAct} (effect : LimitEffect app db after act)
    (unique : Rows.Unique Attempts.key db.authLimits) : Rows.Unique Attempts.key after.authLimits := by
  cases effect with
  | kept same => exact same ▸ unique
  | failed v _ _ _ _ counted =>
    rw [counted]
    exact unique.upsert _ fun _ => rfl
  | passed v _ _ deleted => exact deleted ▸ unique.delete _
  | reset username _ deleted => exact deleted ▸ unique.delete _
  | cleaned now _ deleted => exact deleted ▸ unique.delete _

/-- What can take a counter away or start it anew: a success, the operator's
recovery of the account, and the end of its window. -/
inductive ResetCause (app : App) (key : String) (t : Transition Administration AdminAct) : Prop
  | passed (v : Verification) : verification app t.before.db t.action = some v → v.key = key → v.passed = true →
      ResetCause app key t
  | recovered (username : String) : t.action = .resetTwoFactor username true →
      key = "manage:" ++ username ∨ key = "login:" ++ username → ResetCause app key t
  | expired (old : Attempts) (now : Int) : limitRow t.before.db key = some old → old.reset ≤ now →
      (t.action = .cleanup now ∨ ∃ v, verification app t.before.db t.action = some v ∧ v.key = key ∧ v.now = now) →
      ResetCause app key t

inductive KeyEffect (app : App) (key : String) (t : Transition Administration AdminAct) : Prop
  | kept : recordsAt app key t = false → limitRow t.after.db key = limitRow t.before.db key → KeyEffect app key t
  | first (v : Verification) : recordsAt app key t = true → verification app t.before.db t.action = some v →
      limitRow t.before.db key = none → limitRow t.after.db key = some ⟨key, 1, v.now + 15 * 60 * 1000⟩ →
      KeyEffect app key t
  | restarted (v : Verification) (old : Attempts) : recordsAt app key t = true →
      verification app t.before.db t.action = some v → v.key = key → limitRow t.before.db key = some old →
      old.reset ≤ v.now → limitRow t.after.db key = some ⟨key, 1, v.now + 15 * 60 * 1000⟩ → KeyEffect app key t
  | counted (v : Verification) (old : Attempts) : recordsAt app key t = true →
      verification app t.before.db t.action = some v → limitRow t.before.db key = some old → v.now < old.reset →
      old.count < 10 → limitRow t.after.db key = some { old with count := old.count + 1 } → KeyEffect app key t
  | gone (old : Attempts) : recordsAt app key t = false → limitRow t.before.db key = some old →
      limitRow t.after.db key = none → ResetCause app key t → KeyEffect app key t

theorem KeyEffect.of_deleted {t : Transition Administration AdminAct} {selected : Attempts → Bool}
    (quiet : recordsAt app key t = false) (unique : Rows.Unique Attempts.key t.before.db.authLimits)
    (deleted : t.after.db.authLimits = Rows.delete selected t.before.db.authLimits)
    (cause : ∀ old, limitRow t.before.db key = some old → selected old = true → ResetCause app key t) :
    KeyEffect app key t := by
  have left := @limitRow_deleted key t.before.db t.after.db selected unique deleted
  cases found : limitRow t.before.db key with
  | none => exact .kept quiet (by rw [left, found]; rfl)
  | some old =>
    rw [found, Option.filter_some] at left
    cases chosen : selected old with
    | false => exact .kept quiet (by rw [left, chosen, found]; rfl)
    | true => exact .gone old quiet found (by rw [left, chosen]; rfl) (cause old found chosen)

theorem step_key {t : Transition Administration AdminAct} (effect : LimitEffect app t.before.db t.after.db t.action)
    (unique : Rows.Unique Attempts.key t.before.db.authLimits) (key : String) : KeyEffect app key t := by
  have recorded : ∀ v, verification app t.before.db t.action = some v →
      recordsAt app key t = (isStored t.action && (v.key == key && !v.passed)) := by
    intro v reached
    simp only [recordsAt, failsAt, reached, Option.any_some]
  cases effect with
  | kept same unstored =>
    refine .kept ?_ (by simp only [limitRow, same])
    cases reached : verification app t.before.db t.action with
    | none => simp [recordsAt, failsAt, reached]
    | some v =>
      rw [recorded v reached]
      cases passed : v.passed with
      | true => simp
      | false => rw [unstored v reached passed, Bool.false_and]
  | failed v reached failed stored under counted =>
    have records := recorded v reached
    rw [stored, failed, Bool.true_and, Bool.not_false, Bool.and_true] at records
    by_cases own : v.key = key
    · subst own
      rw [beq_self_eq_true] at records
      have after := limitRow_counted counted
      cases found : limitRow t.before.db v.key with
      | none =>
        rw [found] at after
        exact .first v records reached found after
      | some old =>
        rw [found] at after
        have same := (limitRow_mem found).2
        by_cases past : old.reset ≤ v.now
        · simp only [bump, past, if_true, same] at after
          exact .restarted v old records reached rfl found past after
        · simp only [bump, past, if_false] at after
          have inside : v.now < old.reset := by omega
          exact .counted v old records reached found inside (under old found inside) after
    · have quiet : recordsAt app key t = false := by simpa [records] using own
      exact .kept quiet (limitRow_other own counted)
  | passed v reached passed deleted =>
    refine .of_deleted (by simp [recorded v reached, passed]) unique deleted fun old found chosen => ?_
    have own : old.key = v.key := by simpa using chosen
    exact .passed v reached (own.symm.trans (limitRow_mem found).2) passed
  | reset username act deleted =>
    refine .of_deleted (by simp [recordsAt, failsAt, act, verification]) unique deleted fun old found chosen => ?_
    have own := (limitRow_mem found).2
    simp only [Bool.or_eq_true, beq_iff_eq, own] at chosen
    exact .recovered username act chosen
  | cleaned now act deleted =>
    refine .of_deleted (by simp [recordsAt, failsAt, act, verification]) unique deleted fun old found chosen => ?_
    exact .expired old now found (by simp at chosen; omega) (Or.inl act)

/-- The counter counts the failures since it was last reset, and ten at most. -/
structure LimitValid (app : App) (key : String) (history : List (Transition Administration AdminAct)) (w : Administration) :
    Prop where
  unique : Rows.Unique Attempts.key w.db.authLimits
  few : countSince (recordsAt app key) (resetsAt key) history ≤ 10
  counted : countSince (recordsAt app key) (resetsAt key) history = 0 ∨ ∃ row, limitRow w.db key = some row ∧
    countSince (recordsAt app key) (resetsAt key) history ≤ row.count

theorem LimitValid.step {history : List (Transition Administration AdminAct)} {w next : Administration} {act : AdminAct}
    (valid : LimitValid app key history w) (moved : Administration.Step app w act next) :
    LimitValid app key (⟨w, act, next⟩ :: history) next := by
  have effect := step_limits moved
  have unique := effect_unique effect valid.unique
  have few := valid.few
  have at_key := @step_key app ⟨w, act, next⟩ effect valid.unique key
  cases at_key with
  | kept quiet same =>
    have unreset : resetsAt key ⟨w, act, next⟩ = false := by
      simp only [resetsAt, same]
      cases limitRow w.db key <;> simp
    refine ⟨unique, ?_, ?_⟩
    all_goals simp only [countSince, quiet, unreset, Bool.false_eq_true, if_false, Nat.add_zero]
    · exact few
    · exact same ▸ valid.counted
  | first v records reached absent after =>
    have unreset : resetsAt key ⟨w, act, next⟩ = false := by simp only [resetsAt, absent]
    have zero : countSince (recordsAt app key) (resetsAt key) history = 0 := by
      rcases valid.counted with zero | ⟨row, found, -⟩
      · exact zero
      · exact absurd (absent.symm.trans found) nofun
    refine ⟨unique, ?_, Or.inr ⟨_, after, ?_⟩⟩
    all_goals simp [countSince, records, unreset, zero]
  | restarted v old records reached own found past after =>
    have reset : resetsAt key ⟨w, act, next⟩ = true := by
      simp only [resetsAt, found, after, Option.all_some, bne_iff_ne]
      omega
    refine ⟨unique, ?_, Or.inr ⟨_, after, ?_⟩⟩
    all_goals simp [countSince, records, reset]
  | counted v old records reached found inside low after =>
    have unreset : resetsAt key ⟨w, act, next⟩ = false := by simp [resetsAt, found, after]
    have below : countSince (recordsAt app key) (resetsAt key) history ≤ old.count := by
      rcases valid.counted with zero | ⟨row, same, below⟩
      · omega
      · cases found.symm.trans same
        exact below
    refine ⟨unique, ?_, Or.inr ⟨_, after, ?_⟩⟩
    all_goals
      simp only [countSince, records, unreset, Bool.false_eq_true, if_false, if_true]
      omega
  | gone old quiet found after cause =>
    have reset : resetsAt key ⟨w, act, next⟩ = true := by simp [resetsAt, found, after]
    refine ⟨unique, ?_, Or.inl ?_⟩
    all_goals simp [countSince, quiet, reset]

theorem limits_valid {history w} (run : Run (administration app) history w)
    (unique : Rows.Unique Attempts.key (origin w history).db.authLimits) (key : String) : LimitValid app key history w := by
  induction run with
  | start _ => exact ⟨unique, Nat.zero_le _, Or.inl rfl⟩
  | next _ moved ih => exact (ih unique).step moved

/-- How a step may treat the counter: its window ends when the failure that
opened it said, and nothing but a reset changes that. -/
structure LimitedStep (app : App) (key : String) (t : Transition Administration AdminAct) : Prop where
  reset : resetsAt key t = true → ResetCause app key t
  opens : recordsAt app key t = true → limitRow t.before.db key = none ∨ resetsAt key t = true →
    ∃ v, verification app t.before.db t.action = some v ∧
      limitRow t.after.db key = some ⟨key, 1, v.now + 15 * 60 * 1000⟩
  stays : resetsAt key t = false → ∀ old, limitRow t.before.db key = some old →
    limitRow t.after.db key = some { old with count := old.count + if recordsAt app key t then 1 else 0 }

theorem KeyEffect.limited {t : Transition Administration AdminAct} (effect : KeyEffect app key t) : LimitedStep app key t := by
  cases effect with
  | kept quiet same =>
    refine ⟨fun reset => ?_, by simp [quiet], fun _ old found => by simp [same, found, quiet]⟩
    simp only [resetsAt, same] at reset
    split at reset <;> simp_all
  | first v records reached absent after =>
    exact ⟨fun reset => by simp [resetsAt, absent] at reset, fun _ _ => ⟨v, reached, after⟩, by simp [absent]⟩
  | restarted v old records reached own found past after =>
    refine ⟨fun _ => .expired old v.now found past (Or.inr ⟨v, reached, own, rfl⟩), fun _ _ => ⟨v, reached, after⟩, ?_⟩
    intro unreset
    simp [resetsAt, found, after] at unreset
    omega
  | counted v old records reached found inside low after =>
    refine ⟨fun reset => by simp [resetsAt, found, after] at reset, fun _ opened => ?_, ?_⟩
    · rcases opened with absent | reset
      · exact absurd (absent.symm.trans found) nofun
      · simp [resetsAt, found, after] at reset
    · rintro - other same
      cases found.symm.trans same
      simp [after, records]
  | gone old quiet found after cause =>
    exact ⟨fun _ => cause, by simp [quiet], fun unreset => by simp [resetsAt, found, after] at unreset⟩

/-- Until this time every attempt under the key is refused, and the answer is
the same whatever the password or the proof is. -/
structure Blocked (app : App) (db : Accounts) (key : String) (windowEnd : Int) : Prop where
  begins : ∀ site r ids now stored, "manage:" ++ r.username = key → now < windowEnd →
    ∃ problem, ∀ compare, (passkeyBegin { app with compare } site db r ids now stored).1 = .error problem
  finishes : ∀ site endpoint r ids now stored row, addressed app db endpoint r = some row →
    limitKey endpoint row.data = key → now < windowEnd →
    ∃ problem, ∀ webauthn, (finishCeremony { app with webauthn } site db endpoint r ids now stored).1 = .error problem

/-- A transaction whose first part does not succeed ends the same way whatever follows. -/
theorem authTransaction_stuck {β : Type} {first : AuthTx β} (α : Type) (db : Accounts) (stored : Bool)
    (stuck : ∀ found middle, first db ≠ some (.ok found, middle)) :
    ∃ problem, ∀ next : β → AuthTx α, (authTransaction db stored (first >>= next)).1 = .error problem := by
  cases stored with
  | false => exact ⟨_, fun _ => rfl⟩
  | true =>
    simp only [authTransaction, commit, if_true, bind]
    cases ran : first db with
    | none => exact ⟨_, fun _ => rfl⟩
    | some outcome =>
      obtain ⟨result, middle⟩ := outcome
      cases result with
      | error problem => exact ⟨problem, fun _ => rfl⟩
      | ok found => exact absurd ran (stuck found middle)

theorem blocked_of_full {row : Attempts} (found : limitRow db key = some row) (full : 10 ≤ row.count) :
    Blocked app db key row.reset := by
  have closed : ∀ {now}, now < row.reset → ¬ UnderLimit db key now := fun inside under =>
    absurd (under row found inside) (Nat.not_lt.mpr full)
  constructor
  · rintro site r ids now stored rfl inside
    simp only [passkeyBegin, beginManaging_eq]
    split
    · exact ⟨_, fun _ => rfl⟩
    · have stuck : ∀ found middle, manageUser site r ids now db ≠ some (.ok found, middle) := fun _ _ ran =>
        closed inside ((manageUser_under r db _ _ ran).2 _ rfl)
      obtain ⟨problem, same⟩ := authTransaction_stuck CeremonyResponse db stored stuck
      exact ⟨problem, fun _ => same _⟩
  · rintro site endpoint r ids now stored pending chosen rfl inside
    simp only [finishCeremony, finishPending_eq]
    split
    · exact ⟨_, fun _ => rfl⟩
    · have stuck : ∀ found middle, finishUser app site endpoint r ids now db ≠ some (.ok found, middle) := by
        rintro ⟨p, rp, u⟩ middle ran
        obtain ⟨under, row, same, rfl⟩ := (finishUser_under endpoint r db _ _ ran).2 p rp u rfl
        cases chosen.symm.trans same
        exact closed inside under
      obtain ⟨problem, same⟩ := authTransaction_stuck Finished db stored stuck
      exact ⟨problem, fun _ => same _⟩

/-- Of the failed verifications under a key that are stored, ten at most lie
between two resets of its counter. Its window ends fifteen minutes after the
first of them, whatever comes later, and after the tenth no attempt is verified
before that end. -/
theorem passkey_limits_strict {history w} (run : Run (administration app) history w)
    (unique : Rows.Unique Attempts.key (origin w history).db.authLimits) (key : String) :
    countSince (recordsAt app key) (resetsAt key) history ≤ 10 ∧
      (∀ t ∈ history, LimitedStep app key t) ∧
      (countSince (recordsAt app key) (resetsAt key) history = 10 →
        ∃ row, limitRow w.db key = some row ∧ Blocked app w.db key row.reset) := by
  have valid := limits_valid run unique key
  refine ⟨valid.few, ?_, fun ten => ?_⟩
  · intro t member
    obtain ⟨later, older, rfl⟩ := List.append_of_mem member
    obtain ⟨before, moved⟩ := run.at_transition
    have start : origin t.before older = origin w (later ++ t :: older) := by
      clear valid member run before moved unique
      induction later generalizing w with
      | nil => rfl
      | cons first later ih => exact ih
    exact (step_key (step_limits moved) (limits_valid before (start ▸ unique) key).unique key).limited
  · rcases valid.counted with zero | ⟨row, found, below⟩
    · omega
    · exact ⟨row, found, blocked_of_full found (by omega)⟩

/-- A failure whose transaction the store rejects is rolled back with it and
answered like any storage error, so such failures are not limited. -/
def wrongPassword (stored : Bool) : AdminAct :=
  .passkeyBegin plainSite ⟨"ops", plainApp.hash "t5", "a guess", "add", "", "laptop"⟩ (authIds "9") 8000 stored

/-- The administrator of the run guesses at the password of the account, and nothing is stored. -/
theorem guess_unstored : Administration.Step plainApp keyedRun.val.2 (wrongPassword false) keyedRun.val.2 :=
  .passkeyBegin _ _ _ _ _

theorem guesses_run (n : Nat) : Run (administration plainApp)
    (List.replicate n ⟨keyedRun.val.2, wrongPassword false, keyedRun.val.2⟩ ++ keyedRun.val.1) keyedRun.val.2 := by
  induction n with
  | zero => exact keyedRun.property
  | succ n ih => exact ih.next guess_unstored

theorem guesses_count (n : Nat) : n ≤ countSince (failsAt plainApp "manage:ops") (resetsAt "manage:ops")
    (List.replicate n ⟨keyedRun.val.2, wrongPassword false, keyedRun.val.2⟩ ++ keyedRun.val.1) := by
  have wrong : failsAt plainApp "manage:ops" ⟨keyedRun.val.2, wrongPassword false, keyedRun.val.2⟩ = true := by
    decide +kernel
  have unreset : resetsAt "manage:ops" ⟨keyedRun.val.2, wrongPassword false, keyedRun.val.2⟩ = false := by decide +kernel
  induction n with
  | zero => exact Nat.zero_le _
  | succ n ih =>
    simp only [List.replicate_succ, List.cons_append, countSince, wrong, unreset, Bool.false_eq_true, if_false, if_true]
    exact Nat.succ_le_succ ih

theorem guesses_origin (n : Nat) : (origin keyedRun.val.2
    (List.replicate n ⟨keyedRun.val.2, wrongPassword false, keyedRun.val.2⟩ ++ keyedRun.val.1)).db.authLimits = [] := by
  induction n with
  | zero => decide +kernel
  | succ n ih => exact ih

theorem guesses_unique (n : Nat) : Rows.Unique Attempts.key (origin keyedRun.val.2
    (List.replicate n ⟨keyedRun.val.2, wrongPassword false, keyedRun.val.2⟩ ++ keyedRun.val.1)).db.authLimits := by
  rw [guesses_origin]
  exact Rows.unique_nil _

theorem unstored_failures_unlimited : ¬ ∀ (app : App) (history : List (Transition Administration AdminAct))
    (w : Administration) (key : String), Run (administration app) history w →
    Rows.Unique Attempts.key (origin w history).db.authLimits → countSince (failsAt app key) (resetsAt key) history ≤ 10 := by
  intro limited
  have few := limited plainApp _ _ "manage:ops" (guesses_run 11) (guesses_unique 11)
  exact absurd (Nat.le_trans (guesses_count 11) few) (by decide)

theorem passkey_limits_strict_guess : ∃ history w, Run (administration plainApp) history w ∧
    countSince (recordsAt plainApp "manage:ops") (resetsAt "manage:ops") history = 1 ∧
    ∀ t ∈ history, LimitedStep plainApp "manage:ops" t := by
  have guessed := keyedRun.property.next (.passkeyBegin plainSite
    ⟨"ops", plainApp.hash "t5", "a guess", "add", "", "laptop"⟩ (authIds "9") 8000 true)
  refine ⟨_, _, guessed, by decide +kernel, ?_⟩
  exact (passkey_limits_strict guessed (guesses_unique 0) "manage:ops").2.1

end SshLogger
