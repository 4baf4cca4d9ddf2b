import SshLogger.Proofs.Ceremonies

/-! What the requests about logins, ceremonies and passwords leave as it is: the
set of accounts, their roles and assignments, and the counters of failed logins. -/

namespace SshLogger
open Library Library.Transaction

/-- Whole counters are deleted, chosen by their key and the end of their window. -/
def Thinned (before after : List Attempts) : Prop :=
  ∃ gone : String → Int → Bool, after = Rows.delete (fun row => gone row.key row.reset) before

theorem Thinned.refl (rows : List Attempts) : Thinned rows rows :=
  ⟨fun _ _ => false, by simp [Rows.delete]⟩

theorem Thinned.trans {first second third : List Attempts} (thinned : Thinned first second)
    (again : Thinned second third) : Thinned first third := by
  obtain ⟨gone, rfl⟩ := thinned
  obtain ⟨also, rfl⟩ := again
  refine ⟨fun key reset => gone key reset || also key reset, ?_⟩
  simp only [Rows.delete, List.filter_filter, Bool.not_or]
  exact List.filter_congr fun row _ => Bool.and_comm _ _

structure Framed (db after : Accounts) : Prop where
  attempts : Thinned db.loginAttempts after.loginAttempts
  admins : ∀ a ∈ after.admins, ∃ old ∈ db.admins, old.username = a.username
  auth : ∀ s ∈ after.accountAuth, (∃ old ∈ db.accountAuth, old.username = s.username) ∨
    ∃ a ∈ db.admins, a.username = s.username
  roles : ∀ row ∈ after.adminRoles, row ∈ db.adminRoles
  servers : ∀ row ∈ after.adminServers, row ∈ db.adminServers

/-- What keeps the accounts, their roles and their assignments, and adds rows
about a second factor for an account that exists. -/
structure Steady (db after : Accounts) : Prop where
  attempts : Thinned db.loginAttempts after.loginAttempts
  admins : after.admins.map Admin.username = db.admins.map Admin.username
  auth : ∀ s ∈ after.accountAuth, (∃ old ∈ db.accountAuth, old.username = s.username) ∨
    ∃ a ∈ db.admins, a.username = s.username
  roles : after.adminRoles = db.adminRoles
  servers : after.adminServers = db.adminServers

theorem Steady.of_eq {db after : Accounts} (attempts : after.loginAttempts = db.loginAttempts)
    (admins : after.admins = db.admins) (auth : after.accountAuth = db.accountAuth)
    (roles : after.adminRoles = db.adminRoles) (servers : after.adminServers = db.adminServers) : Steady db after where
  attempts := attempts ▸ Thinned.refl _
  admins := congrArg (List.map Admin.username) admins
  auth s member := Or.inl ⟨s, auth ▸ member, rfl⟩
  roles := roles
  servers := servers

theorem known_iff {admins : List Admin} {username : String} :
    (∃ a ∈ admins, a.username = username) ↔ username ∈ admins.map Admin.username := by
  simp

theorem Steady.known {db after : Accounts} (steady : Steady db after) {username : String} :
    (∃ a ∈ after.admins, a.username = username) ↔ ∃ a ∈ db.admins, a.username = username := by
  rw [known_iff, known_iff, steady.admins]

instance : IsPreorder Accounts Steady where
  refl _ := .of_eq rfl rfl rfl rfl rfl
  trans := by
    intro db middle after first second
    refine ⟨first.attempts.trans second.attempts, second.admins.trans first.admins, ?_,
      second.roles.trans first.roles, second.servers.trans first.servers⟩
    intro s member
    rcases second.auth s member with ⟨old, there, same⟩ | known
    · exact same ▸ first.auth old there
    · exact Or.inr (first.known.mp known)

theorem Steady.framed {db after : Accounts} (steady : Steady db after) : Framed db after where
  attempts := steady.attempts
  admins a member := steady.known.mp ⟨a, member, rfl⟩
  auth := steady.auth
  roles _ member := steady.roles ▸ member
  servers _ member := steady.servers ▸ member

theorem loadPasskeyUser_steady (name rp fresh : String) : Guarantees Steady (loadPasskeyUser name rp fresh) := by
  refine Guarantees.bind (guarantees_exec fun db => ?_) fun _ => guarantees_query fun _ => guarantees_query fun _ =>
    guarantees_query fun _ => guarantees_fromOption fun _ _ => guarantees_fromOption fun _ _ => guarantees_pure _
  split
  next asked =>
    simp only [Bool.and_eq_true, Rows.has_iff] at asked
    refine ⟨Thinned.refl _, rfl, fun s member => ?_, rfl, rfl⟩
    rcases List.mem_append.mp member with old | new
    · exact Or.inl ⟨s, old, rfl⟩
    · exact Or.inr (List.mem_singleton.mp new ▸ asked.1)
  · exact .of_eq rfl rfl rfl rfl rfl

theorem checkLimit_steady (key : String) (now : Int) : Guarantees Steady (checkLimit key now) :=
  guarantees_query fun _ => check_guarantees _ _

theorem checkActiveSession_steady (session username : String) (now : Int) :
    Guarantees Steady (checkActiveSession session username now) :=
  guarantees_query fun _ => check_guarantees _ _

theorem checkCaller_steady (endpoint : Endpoint) (p : PendingAuth) (now : Int) :
    Guarantees Steady (checkCaller endpoint p now) := by
  unfold checkCaller
  split
  · exact guarantees_pure _
  · exact checkActiveSession_steady _ _ _

theorem recordFailure_steady (key : String) (now : Int) : Guarantees Steady (recordFailure key now) :=
  guarantees_exec fun _ => .of_eq rfl rfl rfl rfl rfl

theorem savePending_steady (hash : String → String) (p : PendingAuth) (id : String) (now : Int) :
    Guarantees Steady (savePending hash p id now) :=
  Guarantees.bind (guarantees_exec fun _ => .of_eq rfl rfl rfl rfl rfl) fun _ => guarantees_query fun _ =>
    guarantees_require fun _ => Guarantees.bind (guarantees_exec fun _ => .of_eq rfl rfl rfl rfl rfl) fun _ =>
      guarantees_pure _

theorem beginCeremony_steady (app : App) (site : Site) (rp : String) (u : PasskeyUser) (p : PendingAuth)
    (registration : Bool) (ids : AuthIds) (now : Int) :
    Guarantees Steady (beginCeremony app site rp u p registration ids now) := by
  refine guarantees_check fun _ => guarantees_fromOption ?_
  rintro ⟨options, session⟩ -
  exact (savePending_steady _ _ _ _).bind fun _ => guarantees_pure _

theorem invalidatePending_steady (username : String) : Guarantees Steady (invalidatePending username) := by
  refine guarantees_exec fun db => ?_
  refine ⟨Thinned.refl _, rfl, fun s member => ?_, rfl, rfl⟩
  obtain ⟨old, there, ⟨-, rfl⟩ | ⟨-, rfl⟩⟩ := Rows.mem_update.mp member
  all_goals exact Or.inl ⟨old, there, rfl⟩

theorem revokeAfterPasskeyChange_steady (name current : String) (all : Bool) :
    Guarantees Steady (revokeAfterPasskeyChange name current all) :=
  (invalidatePending_steady name).bind fun _ => guarantees_exec fun _ => .of_eq rfl rfl rfl rfl rfl

theorem createLoginSession_steady (hash : String → String) (name : String) (ids : AuthIds) (now : Int) :
    Guarantees Steady (createLoginSession hash name ids now) :=
  guarantees_query fun _ => guarantees_require fun _ =>
    Guarantees.bind (guarantees_exec fun _ => .of_eq rfl rfl rfl rfl rfl) fun _ => guarantees_pure _

theorem forgive_steady (ip : String) : Guarantees Steady (exec fun db => { db with
    loginAttempts := Rows.delete (fun row => row.key == ip) db.loginAttempts } : AuthTx Unit) :=
  guarantees_exec fun _ => ⟨⟨fun key _ => key == ip, rfl⟩, rfl, fun s member => Or.inl ⟨s, member, rfl⟩, rfl, rfl⟩

variable {app : App} {site : Site} {ids : AuthIds} {now : Int}

theorem finishLogin_steady (l : VerifiedLogin) : Guarantees Steady (finishLogin app site l ids now) := by
  refine guarantees_query fun _ => guarantees_fromExcept fun _ _ => guarantees_check fun _ => guarantees_query fun _ => ?_
  split
  · refine (checkLimit_steady _ _).bind fun _ => guarantees_fromExcept fun _ _ => ?_
    refine (loadPasskeyUser_steady _ _ _).bind fun _ => ?_
    exact (beginCeremony_steady app site _ _ _ _ ids now).bind fun _ => guarantees_pure _
  · exact (createLoginSession_steady _ _ _ _).bind fun _ => (forgive_steady _).bind fun _ => guarantees_pure _

theorem beginManaging_steady (r : ManageRequest) : Guarantees Steady (beginManaging app site r ids now) := by
  refine guarantees_fromExcept fun _ _ => (checkActiveSession_steady _ _ _).bind fun _ => ?_
  refine (checkLimit_steady _ _).bind fun _ => (loadPasskeyUser_steady _ _ _).bind fun u => ?_
  split
  · exact (recordFailure_steady _ _).bind fun _ => guarantees_refuse _
  · refine guarantees_check fun _ => guarantees_query fun _ => guarantees_check fun _ => ?_
    exact beginCeremony_steady app site _ _ _ _ ids now

theorem complete_steady (rp : String) (endpoint : Endpoint) (p : PendingAuth) (u : PasskeyUser) (credential : Credential)
    (key : String) : Guarantees Steady (complete app site rp endpoint p u credential key ids now) := by
  have clears : Guarantees Steady (exec fun db => { db with
      authLimits := Rows.delete (fun row => row.key == key) db.authLimits } : AuthTx Unit) :=
    guarantees_exec fun _ => .of_eq rfl rfl rfl rfl rfl
  have uses : Guarantees Steady (useKey u credential now) := guarantees_exec fun _ => .of_eq rfl rfl rfl rfl rfl
  cases endpoint with
  | register =>
    have enrols : Guarantees Steady (enrol p u credential now) := guarantees_query fun _ => guarantees_check fun _ =>
      Guarantees.bind (guarantees_exec fun _ => .of_eq rfl rfl rfl rfl rfl) fun _ => revokeAfterPasskeyChange_steady _ _ _
    exact enrols.bind fun _ => clears.bind fun _ => guarantees_pure _
  | login =>
    refine uses.bind fun _ => clears.bind fun _ => (createLoginSession_steady _ _ _ _).bind fun _ => ?_
    exact (forgive_steady _).bind fun _ => guarantees_pure _
  | finish =>
    refine uses.bind fun _ => ?_
    split
    · exact (beginCeremony_steady app site _ _ _ _ ids now).bind fun _ => guarantees_pure _
    · have removes : Guarantees Steady (removeKeys p u) :=
        Guarantees.bind (guarantees_exec fun _ => .of_eq rfl rfl rfl rfl rfl) fun _ => revokeAfterPasskeyChange_steady _ _ _
      exact removes.bind fun _ => clears.bind fun _ => guarantees_pure _

theorem finishPending_steady (endpoint : Endpoint) (r : FinishRequest) :
    Guarantees Steady (finishPending app site endpoint r ids now) := by
  refine guarantees_query fun _ => guarantees_fromExcept fun row _ => guarantees_check fun _ => ?_
  refine Guarantees.bind (guarantees_exec fun _ => .of_eq rfl rfl rfl rfl rfl) fun _ => guarantees_check fun _ => ?_
  refine (checkCaller_steady _ _ _).bind fun _ => guarantees_fromExcept fun _ _ => ?_
  refine (loadPasskeyUser_steady _ _ _).bind fun u => guarantees_check fun _ => (checkLimit_steady _ _).bind fun _ => ?_
  split
  · exact (recordFailure_steady _ _).bind fun _ => guarantees_refuse _
  · exact complete_steady _ _ _ _ _ _

theorem removeFactors_steady (username : String) : Guarantees Steady (removeFactors username) :=
  guarantees_query fun _ => guarantees_require fun _ =>
    Guarantees.bind (guarantees_exec fun _ => .of_eq rfl rfl rfl rfl rfl) fun _ => revokeAfterPasskeyChange_steady _ _ _

theorem replacePassword_steady (c : VerifiedChange) (newHash : String) :
    Guarantees Steady (replacePassword app c newHash now) := by
  refine guarantees_query fun _ => guarantees_query fun _ => guarantees_check fun _ => ?_
  refine Guarantees.bind (guarantees_exec fun db => ?_) fun _ => ?_
  · exact ⟨Thinned.refl _, Rows.map_update fun _ => rfl, fun s member => Or.inl ⟨s, member, rfl⟩, rfl, rfl⟩
  · exact (invalidatePending_steady _).bind fun _ => guarantees_exec fun _ => .of_eq rfl rfl rfl rfl rfl

/-- An account that is no super administrator is deleted with its role and its assignments. -/
structure Struck (db after : Accounts) (target : String) : Prop where
  ordinary : roleOf db target ≠ "super_admin"
  attempts : after.loginAttempts = db.loginAttempts
  admins : after.admins = Rows.delete (fun row => row.username == target) db.admins
  auth : after.accountAuth = Rows.delete (fun row => row.username == target) db.accountAuth
  roles : after.adminRoles = Rows.delete (fun row => row.username == target) db.adminRoles
  servers : after.adminServers = Rows.delete (fun row => row.username == target) db.adminServers

theorem removeAdmin_struck (cookie target : String) (now : Int) (db : Accounts) :
    Ensures (removeAdmin app cookie target now) db fun _ after => after = db ∨ Struck db after target := by
  refine ensures_query (ensures_fromExcept (fun _ _ => Or.inl rfl) fun role _ => ?_)
  refine ensures_check (fun _ => Or.inl rfl) fun _ => ensures_query (ensures_check (fun _ => Or.inl rfl) fun _ => ?_)
  refine ensures_query (ensures_check (fun _ => Or.inl rfl) fun ordinary => ?_)
  rintro _ _ ⟨⟩
  exact Or.inr ⟨by simpa using ordinary, rfl, rfl, rfl, rfl, rfl⟩

theorem deleteAdmin_struck (app : App) (db : Accounts) (cookie target : String) (now : Int) (stored : Bool) :
    (deleteAdmin app db cookie target now stored).2 = db ∨
      Struck db (deleteAdmin app db cookie target now stored).2 target := by
  have ends : deleteAdmin app db cookie target now stored = (.error (503, "관리자 계정 삭제에 실패했습니다."), db) ∨ _ :=
    commit_ensures (removeAdmin_struck cookie target now db)
  exact ends.elim (fun kept => Or.inl (congrArg Prod.snd kept)) id

theorem Struck.framed {db after : Accounts} {target : String} (struck : Struck db after target) : Framed db after where
  attempts := struck.attempts ▸ Thinned.refl _
  admins a member := ⟨a, (Rows.mem_delete.mp (struck.admins ▸ member)).1, rfl⟩
  auth s member := Or.inl ⟨s, (Rows.mem_delete.mp (struck.auth ▸ member)).1, rfl⟩
  roles _ member := (Rows.mem_delete.mp (struck.roles ▸ member)).1
  servers _ member := (Rows.mem_delete.mp (struck.servers ▸ member)).1

theorem failLogin_stored (db : Accounts) (ip : String) (now : Int) (stored : Bool) :
    (failLogin db ip now stored).2 =
      if stored then { db with loginAttempts := countAttempt ip now db.loginAttempts } else db := by
  cases stored <;> rfl

def isGrowing : AdminAct → Bool
  | .failLogin .. | .createAdmin .. | .assign .. => true
  | _ => false

def isDeletion : AdminAct → Bool
  | .deleteAdmin .. => true
  | _ => false

theorem step_steady {w next : Administration} {act : AdminAct} (moved : Administration.Step app w act next)
    (other : isGrowing act = false) (kept : isDeletion act = false) : Steady w.db next.db := by
  have unchanged : Steady w.db w.db := refl_of Steady w.db
  cases moved with
  | failLogin => cases other
  | createAdmin => cases other
  | assign => cases other
  | deleteAdmin => cases kept
  | admitLogin => exact unchanged
  | verifyLogin => exact unchanged
  | verifyChange => exact unchanged
  | login site l ids now stored => exact commit_related (finishLogin_steady l w.db) stored _
  | logout cookie stored =>
    have removes : Guarantees Steady (exec fun db => { db with
        authSessions := Rows.delete (fun row => row.tokenHash == app.hash cookie) db.authSessions } : AuthTx Unit) :=
      guarantees_exec fun _ => .of_eq rfl rfl rfl rfl rfl
    exact commit_related (removes w.db) stored _
  | passkeyBegin site r ids now stored =>
    simp only [passkeyBegin]
    split
    · exact unchanged
    · exact commit_related (beginManaging_steady r w.db) stored _
  | finishCeremony site endpoint r ids now stored =>
    simp only [finishCeremony]
    split
    · exact unchanged
    · exact commit_related (finishPending_steady endpoint r w.db) stored _
  | changePassword c newHash now stored => exact commit_related (replacePassword_steady c newHash w.db) stored _
  | resetTwoFactor username stored => exact commit_related (removeFactors_steady username w.db) stored _
  | cleanup now =>
    exact ⟨⟨fun _ reset => reset < now, rfl⟩, rfl, fun s member => Or.inl ⟨s, member, rfl⟩, rfl, rfl⟩

theorem step_framed {w next : Administration} {act : AdminAct} (moved : Administration.Step app w act next)
    (other : isGrowing act = false) : Framed w.db next.db := by
  cases deletes : isDeletion act with
  | false => exact (step_steady moved other deletes).framed
  | true =>
    cases moved with
    | deleteAdmin cookie target now stored =>
      rcases deleteAdmin_struck app w.db cookie target now stored with kept | struck
      · dsimp only
        rw [kept]
        exact (refl_of Steady w.db).framed
      · exact struck.framed
    | _ => cases deletes

end SshLogger
