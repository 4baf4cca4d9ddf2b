import SshLogger.Proofs.Factors

/-! Pending ceremonies are one-shot and bound: a finish call consumes the request
it names or changes nothing, and a request keeps its account, session and site. -/

namespace SshLogger
open Library Library.Transaction Library.History

def versionOf (db : Accounts) (username : String) : Nat :=
  ((db.accountAuth.find? fun s => s.username == username).map AccountAuth.version).getD 0

def pendingOf (db : Accounts) (idHash : String) : Option AuthPending :=
  db.authPending.find? fun row => row.idHash == idHash

variable {app : App} {site : Site} {ids : AuthIds} {now : Int}

structure Stamped (app : App) (site : Site) (ids : AuthIds) (now : Int) (row : AuthPending) : Prop where
  named : row.idHash = app.hash ids.request
  expires : row.expires = now + ceremonyTTL
  origin : row.data.origin = site.origin
  rp : webAuthn site = .ok row.data.rpId

/-- Each pending request is new and holds its account's version, or it is older
and its account has kept its version. -/
def Pends (new : AuthPending → Prop) (db after : Accounts) : Prop :=
  ∀ row ∈ after.authPending, (new row ∧ row.data.version = versionOf after row.username) ∨
    row ∈ db.authPending ∧ versionOf after row.username = versionOf db row.username

instance (new : AuthPending → Prop) : IsPreorder Accounts (Pends new) where
  refl db row member := Or.inr ⟨member, rfl⟩
  trans := by
    intro db middle after first second row member
    rcases second row member with fresh | ⟨inside, same⟩
    · exact Or.inl fresh
    · rcases first row inside with ⟨fresh, version⟩ | ⟨there, before⟩
      · exact Or.inl ⟨fresh, version.trans same.symm⟩
      · exact Or.inr ⟨there, same.trans before⟩

variable {new : AuthPending → Prop} {db after : Accounts}

theorem Pends.of_eq (pending : after.authPending = db.authPending) (auth : after.accountAuth = db.accountAuth) :
    Pends new db after := by
  intro row member
  rw [pending] at member
  exact Or.inr ⟨member, by simp only [versionOf, auth]⟩

/-- The account as `loadPasskeyUser` finds it, with its version. -/
structure Versioned (db after : Accounts) (name : String) (result : Except Problem PasskeyUser) : Prop where
  pending : after.authPending = db.authPending
  versions : ∀ username, versionOf after username = versionOf db username
  loaded : ∀ u, result = .ok u → u.name = name ∧ u.version = versionOf db name

theorem loadPasskeyUser_versions (name rp fresh : String) (db : Accounts) :
    Ensures (loadPasskeyUser name rp fresh) db fun result after => Versioned db after name result := by
  refine ensures_exec (ensures_query (ensures_query (ensures_query ?_)))
  refine ensures_fromOption fun a _ => ensures_fromOption fun s account => ensures_pure ?_
  have versions : ∀ username, versionOf (if Rows.has Admin.username name db.admins &&
      !(db.accountAuth.any fun s => s.username == name || s.userId == fresh) then
        { db with accountAuth := db.accountAuth ++ [⟨name, fresh, 0⟩] } else db) username = versionOf db username := by
    intro username
    split
    · -- the new row has the version that an absent row stands for
      cases found : db.accountAuth.find? fun s => s.username == username with
      | some s => simp [versionOf, List.find?_append, found]
      | none =>
        simp only [versionOf, List.find?_append, found, Option.none_or, List.find?_singleton]
        split <;> rfl
    · rfl
  refine ⟨by split <;> rfl, versions, ?_⟩
  rintro u ⟨⟩
  refine ⟨rfl, ?_⟩
  rw [← versions name]
  simp only [versionOf, account, Option.map_some, Option.getD_some]

theorem versions_spec {α : Type} {name rp fresh : String} {db : Accounts} {next : PasskeyUser → AuthTx α}
    {post : Except Problem α → Accounts → Prop}
    (refused : ∀ problem after, Quiet db after → Pends new db after → post (.error problem) after)
    (continued : ∀ u after, Quiet db after → Pends new db after → Loaded db name u → u.version = versionOf db name →
      u.version = versionOf after u.name → Ensures (next u) after post) :
    Ensures (loadPasskeyUser name rp fresh >>= next) db post := by
  have both : Ensures (loadPasskeyUser name rp fresh) db fun result after =>
      (Quiet db after ∧ ∀ u, result = .ok u → Loaded db name u) ∧ Versioned db after name result := fun result after ran =>
    ⟨loadPasskeyUser_ensures name rp fresh db result after ran, loadPasskeyUser_versions name rp fresh db result after ran⟩
  have pends : ∀ {after result}, Versioned db after name result → Pends new db after := fun found row member =>
    Or.inr ⟨found.pending ▸ member, found.versions _⟩
  refine ensures_bind both ?_ ?_
  · rintro problem after ⟨⟨quiet, -⟩, found⟩
    exact refused problem after quiet (pends found)
  · rintro u after ⟨⟨quiet, loaded⟩, found⟩
    obtain ⟨named, version⟩ := found.loaded u rfl
    exact continued u after quiet (pends found) (loaded u rfl) version
      (version.trans (named ▸ (found.versions u.name).symm))

theorem versionOf_delete {selected : AccountAuth → Bool} {username : String}
    (kept : ∀ s : AccountAuth, s.username = username → selected s = false) :
    versionOf { db with accountAuth := Rows.delete selected db.accountAuth } username = versionOf db username := by
  simp only [versionOf, Rows.delete, List.find?_filter]
  refine congrArg (fun found => (Option.map AccountAuth.version found).getD 0) (congrArg (List.find? · db.accountAuth) ?_)
  funext s
  by_cases same : s.username = username
  · simp [same, kept s same]
  · simp [same]

theorem versionOf_update {selected : AccountAuth → Bool} {change : AccountAuth → AccountAuth} {username : String}
    (keeps : ∀ s, (change s).username = s.username) (kept : ∀ s : AccountAuth, s.username = username → selected s = false) :
    versionOf { db with accountAuth := Rows.update selected change db.accountAuth } username = versionOf db username := by
  simp only [versionOf, Rows.update, List.find?_map]
  have alike : ((fun s : AccountAuth => s.username == username) ∘ fun s => if selected s then change s else s) =
      fun s => s.username == username := by
    funext s
    simp only [Function.comp_apply]
    split
    · rw [keeps]
    · rfl
  rw [alike]
  cases found : db.accountAuth.find? fun s => s.username == username with
  | none => rfl
  | some s =>
    have own : s.username = username := by simpa using List.find?_some found
    simp [kept s own]

theorem savePending_pends (hash : String → String) (p : PendingAuth) (id : String) (now : Int)
    (stamped : new ⟨hash id, p.username, now + ceremonyTTL, p⟩) (db : Accounts)
    (version : p.version = versionOf db p.username) :
    Ensures (savePending hash p id now) db fun _ after => Pends new db after := by
  refine ensures_exec (ensures_query (ensures_require fun _ => ensures_exec (ensures_pure ?_)))
  intro row member
  rcases List.mem_append.mp member with kept | added
  · exact Or.inr ⟨(Rows.mem_delete.mp kept).1, rfl⟩
  · obtain rfl := List.mem_singleton.mp added
    exact Or.inl ⟨stamped, version⟩

theorem beginCeremony_pends {rp : String} (known : webAuthn site = .ok rp) (u : PasskeyUser) (p : PendingAuth)
    (registration : Bool) (db : Accounts) (version : u.version = versionOf db u.name) :
    Ensures (beginCeremony app site rp u p registration ids now) db fun _ after =>
      Pends (Stamped app site ids now) db after := by
  have unchanged := refl_of (Pends (Stamped app site ids now)) db
  have saved : ∀ p : PendingAuth, p.username = u.name → p.version = u.version → p.rpId = rp → p.origin = site.origin →
      Ensures (savePending app.hash p ids.request now) db fun _ after => Pends (Stamped app site ids now) db after := by
    intro p owner stamp rpId origin
    refine savePending_pends app.hash p ids.request now ⟨rfl, rfl, origin, rpId ▸ known⟩ db ?_
    rw [stamp, owner, version]
  refine ensures_check (fun _ => unchanged) fun _ => ensures_fromOption ?_
  rintro ⟨options, session⟩ -
  exact ensures_bind (saved _ rfl rfl rfl rfl) (fun _ _ pends => pends) fun _ _ pends => ensures_pure pends

theorem invalidatePending_pends (username : String) : Guarantees (Pends new) (invalidatePending username) := by
  refine guarantees_exec fun db row member => ?_
  obtain ⟨there, other⟩ := Rows.mem_delete.mp member
  refine Or.inr ⟨there, versionOf_update (by intro; rfl) fun s own => ?_⟩
  rw [own]
  exact other

theorem revokeAfterPasskeyChange_pends (name current : String) (all : Bool) :
    Guarantees (Pends new) (revokeAfterPasskeyChange name current all) :=
  (invalidatePending_pends name).bind fun _ => guarantees_exec fun _ => Pends.of_eq rfl rfl

theorem beginManaging_pends (r : ManageRequest) (db : Accounts) :
    Ensures (beginManaging app site r ids now) db fun _ after => Pends (Stamped app site ids now) db after := by
  have unchanged := refl_of (Pends (Stamped app site ids now)) db
  refine ensures_fromExcept (fun _ _ => unchanged) fun rp known => ?_
  refine checkActiveSession_spec (fun _ => unchanged) fun _ => checkLimit_spec (fun _ => unchanged) ?_
  refine versions_spec (fun _ _ _ pends => pends) fun u middle _ pends _ _ version => ?_
  split
  · exact ensures_exec (ensures_refuse (trans_of (Pends _) pends (Pends.of_eq rfl rfl)))
  · refine ensures_check (fun _ => pends) fun _ => ensures_query (ensures_check (fun _ => pends) fun _ => ?_)
    exact (beginCeremony_pends known u _ _ middle version).mono fun _ _ later => trans_of (Pends _) pends later

theorem finishLogin_pends (l : VerifiedLogin) (db : Accounts) :
    Ensures (finishLogin app site l ids now) db fun _ after => Pends (Stamped app site ids now) db after := by
  have unchanged := refl_of (Pends (Stamped app site ids now)) db
  refine ensures_query (ensures_fromExcept (fun _ _ => unchanged) fun a _ => ensures_check (fun _ => unchanged) fun _ => ?_)
  refine ensures_query ?_
  split
  · refine checkLimit_spec (fun _ => unchanged) (ensures_fromExcept (fun _ _ => unchanged) fun rp known => ?_)
    refine versions_spec (fun _ _ _ pends => pends) fun u middle _ pends _ _ version => ?_
    refine ensures_bind (beginCeremony_pends known u _ _ middle version) ?_ ?_
    · exact fun _ _ later => trans_of (Pends _) pends later
    · exact fun _ _ later => ensures_pure (trans_of (Pends _) pends later)
  · refine createLoginSession_spec fun _ _ _ _ _ => ensures_exec (ensures_pure ?_)
    exact Pends.of_eq rfl rfl

theorem complete_pends {rp : String} (known : webAuthn site = .ok rp) (endpoint : Endpoint) (p : PendingAuth)
    (u : PasskeyUser) (credential : Credential) (key : String) (db : Accounts) (version : u.version = versionOf db u.name) :
    Ensures (complete app site rp endpoint p u credential key ids now) db fun _ after =>
      Pends (Stamped app site ids now) db after := by
  have clear : Guarantees (Pends (Stamped app site ids now)) (exec fun db => { db with
      authLimits := Rows.delete (fun row => row.key == key) db.authLimits } : AuthTx Unit) :=
    guarantees_exec fun _ => Pends.of_eq rfl rfl
  cases endpoint with
  | register =>
    have enrols : Guarantees (Pends (Stamped app site ids now)) (enrol p u credential now) := by
      refine guarantees_query fun _ => guarantees_check fun _ => ?_
      exact Guarantees.bind (guarantees_exec fun _ => Pends.of_eq rfl rfl) fun _ => revokeAfterPasskeyChange_pends _ _ _
    exact (enrols.bind fun _ => clear.bind fun _ => guarantees_pure _) db
  | login =>
    refine ensures_exec (ensures_exec (createLoginSession_spec fun _ _ _ _ _ => ensures_exec (ensures_pure ?_)))
    exact Pends.of_eq rfl rfl
  | finish =>
    refine ensures_exec ?_
    have used : ∀ keys, Pends (Stamped app site ids now) db { db with passkeys := keys } := fun _ => Pends.of_eq rfl rfl
    split
    · refine ensures_bind (beginCeremony_pends known u _ true _ version) ?_ ?_
      · exact fun _ _ later => trans_of (Pends _) (used _) later
      · exact fun _ _ later => ensures_pure (trans_of (Pends _) (used _) later)
    · have removes : Guarantees (Pends (Stamped app site ids now)) (removeKeys p u) :=
        Guarantees.bind (guarantees_exec fun _ => Pends.of_eq rfl rfl) fun _ => revokeAfterPasskeyChange_pends _ _ _
      refine (Guarantees.bind removes fun _ => clear.bind fun _ => guarantees_pure _ : Guarantees _ _) _ |>.mono ?_
      exact fun _ _ later => trans_of (Pends _) (used _) later

def consumed (db : Accounts) (idHash : String) : Accounts :=
  { db with authPending := Rows.delete (fun row => row.idHash == idHash) db.authPending }

/-- The pending request a finish call names, if it comes from the right endpoint
and, for management, from the session and the account it belongs to. -/
def addressed (app : App) (db : Accounts) (endpoint : Endpoint) (r : FinishRequest) : Option AuthPending :=
  (pendingOf db (app.hash r.requestId)).filter fun row => isAddressed row.data endpoint r

/-- The request has expired, or its account or site is not what it was begun with. -/
def Stale (db : Accounts) (site : Site) (now : Int) (row : AuthPending) : Prop :=
  row.expires ≤ now ∨ versionOf db row.data.username ≠ row.data.version ∨
    hashOf db row.data.username ≠ some row.data.passwordHash ∨ webAuthn site ≠ .ok row.data.rpId ∨
    site.origin ≠ row.data.origin

structure Consumed (app : App) (site : Site) (idHash : String) (ids : AuthIds) (now : Int) (row : AuthPending)
    (db after : Accounts) : Prop where
  pends : Pends (Stamped app site ids now) (consumed db idHash) after
  stale : Stale db site now row → after.authSessions = db.authSessions ∧ after.passkeys = db.passkeys

theorem finishPending_consumes (app : App) (site : Site) (endpoint : Endpoint) (r : FinishRequest) (ids : AuthIds)
    (now : Int) (db : Accounts) :
    Ensures (finishPending app site endpoint r ids now) db fun _ after =>
      (addressed app db endpoint r = none → after = db) ∧
        ∀ row, addressed app db endpoint r = some row → Consumed app site (app.hash r.requestId) ids now row db after := by
  refine ensures_query (ensures_fromExcept ?_ fun row found => ?_)
  · intro problem found
    split at found
    next absent => exact ⟨fun _ => rfl, by simp [addressed, pendingOf, absent]⟩
    · cases found
  split at found
  · cases found
  next first matched =>
    cases found
    have named : pendingOf db (app.hash r.requestId) = some row := matched
    refine ensures_check (fun other => ?_) fun own => ensures_exec ?_
    · exact ⟨fun _ => rfl, by simp [addressed, named, Option.filter, other]⟩
    have chosen : addressed app db endpoint r = some row := by simp [addressed, named, Option.filter, own]
    -- from here on the request is gone and the account untouched until the answer is verified
    let after := consumed db (app.hash r.requestId)
    have taken : Quiet db after := ⟨rfl, rfl, rfl, fun _ member => (Rows.mem_delete.mp member).1⟩
    suffices rest : Ensures _ after fun _ last => Consumed app site (app.hash r.requestId) ids now row db last from
      rest.mono fun _ last ends => ⟨fun absent => by simp [absent] at chosen,
        fun other same => Option.some.inj (chosen.symm.trans same) ▸ ends⟩
    have ended : ∀ {last}, Quiet db last → Pends (Stamped app site ids now) after last →
        Consumed app site (app.hash r.requestId) ids now row db last :=
      fun quiet pends => ⟨pends, fun _ => ⟨quiet.sessions, quiet.passkeys⟩⟩
    have unchanged := refl_of (Pends (Stamped app site ids now)) after
    refine ensures_check (fun _ => ended taken unchanged) fun fresh => ?_
    refine checkCaller_spec (fun _ => ended taken unchanged) fun _ => ?_
    refine ensures_fromExcept (fun _ _ => ended taken unchanged) fun rp known => ?_
    refine versions_spec (fun _ _ quiet pends => ended (taken.trans quiet) pends) fun u middle loading pends loaded version
      current => ?_
    have quiet := taken.trans loading
    refine ensures_check (fun _ => ended quiet pends) fun bound => ?_
    simp only [Bool.and_eq_true, beq_iff_eq] at bound
    have live : ¬ Stale db site now row := by
      rintro (expired | changed | changed | changed | changed)
      · simp at fresh
        omega
      · exact changed (version.symm.trans bound.1.1.1.symm)
      · exact changed (loaded.hash.trans (congrArg some bound.1.1.2.symm))
      · exact changed (known.trans (congrArg Except.ok bound.1.2.symm))
      · exact changed bound.2.symm
    have verified : ∀ {last}, Pends (Stamped app site ids now) middle last →
        Consumed app site (app.hash r.requestId) ids now row db last :=
      fun later => ⟨trans_of (Pends _) pends later, fun stale => absurd stale live⟩
    refine checkLimit_spec (fun _ => ended quiet pends) ?_
    split
    · exact ensures_exec (ensures_refuse (verified (Pends.of_eq rfl rfl)))
    · exact (complete_pends known endpoint row.data u _ _ middle current).mono fun _ _ later => verified later

def ceremonyOf : AdminAct → Option (Site × AuthIds × Int)
  | .login site _ ids now _ => some (site, ids, now)
  | .passkeyBegin site _ ids now _ => some (site, ids, now)
  | .finishCeremony site _ _ ids now _ => some (site, ids, now)
  | _ => none

def Stamps (app : App) (act : AdminAct) (row : AuthPending) : Prop :=
  ∃ site ids now, ceremonyOf act = some (site, ids, now) ∧ Stamped app site ids now row

theorem Pends.mono {other : AuthPending → Prop} (pends : Pends new db after) (implies : ∀ row, new row → other row) :
    Pends other db after :=
  fun row member => (pends row member).imp (fun fresh => ⟨implies row fresh.1, fresh.2⟩) id

theorem Pends.of_consumed {idHash : String} (pends : Pends new (consumed db idHash) after) : Pends new db after :=
  fun row member => (pends row member).imp id fun old => ⟨(Rows.mem_delete.mp old.1).1, old.2⟩

/-- A finish call that is committed consumes the request it names, or does nothing. -/
def consumes (app : App) (idHash : String) (t : Transition Administration AdminAct) : Bool :=
  match t.action with
  | .finishCeremony site endpoint r ids now stored =>
    app.hash r.requestId == idHash && r.origin == site.origin && stored &&
      (addressed app t.before.db endpoint r).isSome && (finishPending app site endpoint r ids now t.before.db).isSome
  | _ => false

theorem finishCeremony_consumes (app : App) (site : Site) (db : Accounts) (endpoint : Endpoint) (r : FinishRequest)
    (ids : AuthIds) (now : Int) (stored : Bool) :
    let after := (finishCeremony app site db endpoint r ids now stored).2
    after = db ∨ (r.origin == site.origin && stored) = true ∧ (finishPending app site endpoint r ids now db).isSome = true ∧
      ∃ row, addressed app db endpoint r = some row ∧ Consumed app site (app.hash r.requestId) ids now row db after := by
  simp only [finishCeremony]
  split
  · exact Or.inl rfl
  next origin =>
    cases stored with
    | false => exact Or.inl rfl
    | true =>
      simp only [authTransaction, commit, if_true]
      cases ran : finishPending app site endpoint r ids now db with
      | none => exact Or.inl rfl
      | some outcome =>
        obtain ⟨ignored, claimed⟩ := finishPending_consumes app site endpoint r ids now db outcome.1 outcome.2 ran
        cases named : addressed app db endpoint r with
        | none => exact Or.inl (ignored named)
        | some row => exact Or.inr ⟨by simpa using origin, rfl, row, rfl, claimed row named⟩

theorem step_pends {w next : Administration} {act : AdminAct} (moved : Administration.Step app w act next) :
    Pends (Stamps app act) w.db next.db := by
  have unchanged := refl_of (Pends (Stamps app act)) w.db
  cases moved with
  | admitLogin => exact unchanged
  | verifyLogin => exact unchanged
  | failLogin ip now stored =>
    have counts : Guarantees (Pends (Stamps app (.failLogin ip now stored))) (do
        exec fun db => { db with loginAttempts := countAttempt ip now db.loginAttempts }
        refuse (401, "계정 또는 비밀번호가 올바르지 않습니다.") : AuthTx Unit) :=
      Guarantees.bind (guarantees_exec fun _ => Pends.of_eq rfl rfl) fun _ => guarantees_refuse _
    exact commit_related (counts w.db) stored _
  | login site l ids now stored =>
    have ran := commit_related (@finishLogin_pends app site ids now l w.db) stored
      (503, "인증 정보를 저장하지 못했습니다. 다시 시도하세요.")
    exact ran.mono fun row stamped => ⟨site, ids, now, rfl, stamped⟩
  | logout cookie stored =>
    have removes : Guarantees (Pends (Stamps app (.logout cookie stored))) (exec fun db => { db with
        authSessions := Rows.delete (fun row => row.tokenHash == app.hash cookie) db.authSessions } : AuthTx Unit) :=
      guarantees_exec fun _ => Pends.of_eq rfl rfl
    exact commit_related (removes w.db) stored _
  | passkeyBegin site r ids now stored =>
    simp only [passkeyBegin]
    split
    · exact unchanged
    · have ran := commit_related (@beginManaging_pends app site ids now r w.db) stored
        (503, "인증 정보를 저장하지 못했습니다. 다시 시도하세요.")
      exact ran.mono fun row stamped => ⟨site, ids, now, rfl, stamped⟩
  | finishCeremony site endpoint r ids now stored =>
    rcases finishCeremony_consumes app site w.db endpoint r ids now stored with same | ⟨-, -, row, -, claimed⟩
    · exact Pends.of_eq (congrArg Accounts.authPending same) (congrArg Accounts.accountAuth same)
    · exact claimed.pends.of_consumed.mono fun row stamped => ⟨site, ids, now, rfl, stamped⟩
  | verifyChange => exact unchanged
  | changePassword c newHash now stored =>
    have replaces : Guarantees (Pends (Stamps app (.changePassword c newHash now stored)))
        (replacePassword app c newHash now) := by
      refine guarantees_query fun _ => guarantees_query fun _ => guarantees_check fun _ => ?_
      refine Guarantees.bind (guarantees_exec fun _ => Pends.of_eq rfl rfl) fun _ => ?_
      exact (invalidatePending_pends _).bind fun _ => guarantees_exec fun _ => Pends.of_eq rfl rfl
    exact commit_related (replaces w.db) stored _
  | createAdmin cookie username password passwordHash now stored =>
    simp only [createAdmin]
    split
    · exact unchanged
    · split
      · exact unchanged
      · have inserts : Guarantees (Pends (Stamps app (.createAdmin cookie username password passwordHash now stored)))
            (insertAdmin app cookie username passwordHash now) := by
          refine guarantees_query fun _ => guarantees_check fun _ => guarantees_query fun _ => guarantees_check fun _ => ?_
          exact guarantees_exec fun _ => Pends.of_eq rfl rfl
        exact commit_related (inserts w.db) stored _
  | deleteAdmin cookie target now stored =>
    have removes : Guarantees (Pends (Stamps app (.deleteAdmin cookie target now stored)))
        (removeAdmin app cookie target now) := by
      refine guarantees_query fun _ => guarantees_fromExcept fun _ _ => guarantees_check fun _ => guarantees_query fun _ => ?_
      refine guarantees_check fun _ => guarantees_query fun _ => guarantees_check fun _ => guarantees_exec fun db row member => ?_
      obtain ⟨there, other⟩ := Rows.mem_delete.mp member
      refine Or.inr ⟨there, versionOf_delete fun s own => ?_⟩
      rw [own]
      exact other
    exact commit_related (removes w.db) stored _
  | resetTwoFactor username stored =>
    have resets : Guarantees (Pends (Stamps app (.resetTwoFactor username stored))) (removeFactors username) := by
      refine guarantees_query fun _ => guarantees_require fun _ => ?_
      exact Guarantees.bind (guarantees_exec fun _ => Pends.of_eq rfl rfl) fun _ => revokeAfterPasskeyChange_pends _ _ _
    exact commit_related (resets w.db) stored _
  | cleanup now => exact fun row member => Or.inr ⟨(Rows.mem_delete.mp member).1, rfl⟩
  | assign roles servers => exact Pends.of_eq rfl rfl

def draws (app : App) (idHash : String) (t : Transition Administration AdminAct) : Bool :=
  (ceremonyOf t.action).any fun (_, ids, _) => app.hash ids.request == idHash

theorem Stamps.draws {row : AuthPending} {t : Transition Administration AdminAct} (stamps : Stamps app t.action row) :
    draws app row.idHash t = true := by
  obtain ⟨site, ids, now, drawn, stamped⟩ := stamps
  simp [SshLogger.draws, drawn, stamped.named]

theorem pendingOf_isSome {idHash : String} :
    (pendingOf db idHash).isSome = true ↔ ∃ row ∈ db.authPending, row.idHash = idHash := by
  simp [pendingOf, List.find?_isSome]

/-- A request that was consumed is pending again only if its id was drawn again. -/
theorem consumes_clears {w next : Administration} {act : AdminAct} {idHash : String}
    (moved : Administration.Step app w act next) (claimed : consumes app idHash ⟨w, act, next⟩ = true) :
    (pendingOf w.db idHash).isSome = true ∧
      ((pendingOf next.db idHash).isSome = true → draws app idHash ⟨w, act, next⟩ = true) := by
  cases moved with
  | finishCeremony site endpoint r ids now stored =>
    simp only [consumes, Bool.and_eq_true, beq_iff_eq] at claimed
    obtain ⟨⟨⟨⟨rfl, origin⟩, rfl⟩, named⟩, ran⟩ := claimed
    obtain ⟨row, chosen⟩ := Option.isSome_iff_exists.mp named
    obtain ⟨outcome, ran⟩ := Option.isSome_iff_exists.mp ran
    refine ⟨?_, fun again => ?_⟩
    · simp only [addressed, Option.filter_eq_some_iff] at chosen
      exact Option.isSome_iff_exists.mpr ⟨row, chosen.1⟩
    · obtain ⟨left, member, same⟩ := pendingOf_isSome.mp again
      have ends : (finishCeremony app site w.db endpoint r ids now true).2 = outcome.2 := by
        simp [finishCeremony, authTransaction, commit, origin, ran]
      rw [ends] at member
      have taken := (finishPending_consumes app site endpoint r ids now w.db outcome.1 outcome.2 ran).2 row chosen
      rcases taken.pends left member with ⟨stamped, -⟩ | ⟨old, -⟩
      · exact same ▸ Stamps.draws ⟨site, ids, now, rfl, stamped⟩
      · exact absurd same (by simpa using (Rows.mem_delete.mp old).2)
  | _ => simp [consumes] at claimed

theorem pending_drawn {w next : Administration} {act : AdminAct} {idHash : String}
    (moved : Administration.Step app w act next) (pending : (pendingOf next.db idHash).isSome = true) :
    (pendingOf w.db idHash).isSome = true ∨ draws app idHash ⟨w, act, next⟩ = true := by
  obtain ⟨row, member, rfl⟩ := pendingOf_isSome.mp pending
  rcases step_pends moved row member with ⟨stamps, -⟩ | ⟨old, -⟩
  · exact Or.inr (Stamps.draws stamps)
  · exact Or.inl (pendingOf_isSome.mpr ⟨row, old, rfl⟩)

/-- Each drawing of an id is matched by at most one consumption, or waits. -/
theorem consumed_drawn {history w} (run : Run (administration app) history w) (idHash : String) :
    history.countP (consumes app idHash) + (if (pendingOf w.db idHash).isSome then 1 else 0) ≤
      history.countP (draws app idHash) := by
  refine run.induct (fun history w => history.countP (consumes app idHash) +
    (if (pendingOf w.db idHash).isSome then 1 else 0) ≤ history.countP (draws app idHash)) ?_ ?_
  · rintro w ⟨-, -, pending, -⟩
    simp [pendingOf, pending]
  · intro history w act next _ balance moved
    simp only [List.countP_cons]
    cases claimed : consumes app idHash ⟨w, act, next⟩ with
    | false =>
      cases again : (pendingOf next.db idHash).isSome with
      | false => simp at balance ⊢; omega
      | true =>
        rcases pending_drawn moved again with before | now
        · simp [before] at balance ⊢; omega
        · simp [now] at balance ⊢; omega
    | true =>
      obtain ⟨before, now⟩ := consumes_clears moved claimed
      cases again : (pendingOf next.db idHash).isSome with
      | false => simp [before] at balance ⊢; omega
      | true => simp [before, now again] at balance ⊢; omega

/-- A consumed id is pending again only after a later drawing of it. -/
theorem consumed_redrawn {later first older w} {idHash : String} (run : Run (administration app) (later ++ first :: older) w)
    (claimed : consumes app idHash first = true) (pending : (pendingOf w.db idHash).isSome = true) :
    ∃ t ∈ later ++ [first], draws app idHash t = true := by
  induction later generalizing w with
  | nil =>
    obtain ⟨rfl, -, moved⟩ := run.newest
    exact ⟨first, by simp, (consumes_clears moved claimed).2 pending⟩
  | cons t later ih =>
    obtain ⟨rfl, before, moved⟩ := run.newest
    rcases pending_drawn moved pending with already | drawn
    · obtain ⟨s, member, drawn⟩ := ih before already
      exact ⟨s, List.mem_cons_of_mem _ member, drawn⟩
    · exact ⟨t, List.mem_cons_self, drawn⟩

def VersionsValid (w : Administration) : Prop :=
  ∀ row ∈ w.db.authPending, row.data.version = versionOf w.db row.username

theorem versions_valid {history w} (run : Run (administration app) history w) : VersionsValid w := by
  refine run.invariant VersionsValid ?_ ?_
  · rintro w ⟨-, -, pending, -⟩
    simp [VersionsValid, pending]
  · intro w act next valid moved row member
    rcases step_pends moved row member with ⟨-, version⟩ | ⟨old, same⟩
    · exact version
    · exact (valid row old).trans same.symm

def Initiates (row : AuthPending) : AdminAct → Prop
  | .passkeyBegin _ r _ _ _ =>
    r.username = row.data.username ∧ r.sessionHash = row.data.sessionHash ∧ row.data.purpose ≠ "login"
  | .login _ l _ _ _ => l.username = row.data.username ∧ row.data.purpose = "login"
  | .finishCeremony _ endpoint r _ _ _ => endpoint = .finish ∧ r.username = row.data.username ∧
    r.sessionHash = row.data.sessionHash ∧ row.data.purpose = "register"
  | _ => False

structure BegunBy (app : App) (row : AuthPending) (t : Transition Administration AdminAct) : Prop where
  created : row ∉ t.before.db.authPending ∧ row ∈ t.after.db.authPending
  stamped : Stamps app t.action row
  initiated : Initiates row t.action
  version : versionOf t.after.db row.data.username = row.data.version
  hash : hashOf t.after.db row.data.username = some row.data.passwordHash

/-- The row was left pending, and its account kept its version and its password hash. -/
def Waits (row : AuthPending) (t : Transition Administration AdminAct) : Prop :=
  row ∈ t.after.db.authPending ∧ versionOf t.after.db row.data.username = versionOf t.before.db row.data.username ∧
    hashOf t.after.db row.data.username = hashOf t.before.db row.data.username

theorem NewPending.initiates {act : AdminAct} {row : AuthPending} (new : NewPending app db row act) : Initiates row act := by
  cases new with
  | managed managed => exact ⟨managed.username.symm, managed.session.symm, managed.purpose⟩
  | login _ own _ _ purpose => exact ⟨own.symm, purpose⟩
  | proved earlier u claimed _ begun =>
    obtain ⟨-, caller, session, -⟩ := claimed.caller nofun
    exact ⟨rfl, caller.trans (claimed.name.symm.trans begun.username.symm), session.trans begun.session.symm, begun.purpose⟩

theorem pending_since {history w} (run : Run (administration app) history w) :
    ∀ row ∈ w.db.authPending, Since (Waits row) (fun t _ => BegunBy app row t) history := by
  refine run.induct (fun history w => ∀ row ∈ w.db.authPending, Since (Waits row) (fun t _ => BegunBy app row t) history) ?_ ?_
  · rintro w ⟨-, -, pending, -⟩
    simp [pending]
  · intro history w act next earlier since moved row member
    have later := earlier.next moved
    have owner := (accounts_valid later).owner row member
    have version := owner ▸ versions_valid later row member
    have hash := owner ▸ (accounts_valid later).pending row member
    by_cases old : row ∈ w.db.authPending
    · refine Since.step ⟨member, ?_, ?_⟩ (since row old)
      · exact version.symm.trans (owner ▸ versions_valid earlier row old)
      · exact hash.trans (owner ▸ (accounts_valid earlier).pending row old).symm
    · have new := ((admin_effect moved).pending member).resolve_left old
      have stamped := ((step_pends moved row member).resolve_right fun kept => old kept.1).1
      exact Since.here ⟨⟨old, member⟩, stamped, new.initiates, version.symm, hash⟩

def endpointOf (purpose : String) : Endpoint :=
  if purpose == "login" then .login else if purpose == "register" then .register else .finish

/-- The call comes to the wrong endpoint, or from another session or account. -/
def Mismatched (p : PendingAuth) (endpoint : Endpoint) (r : FinishRequest) : Prop :=
  endpoint ≠ endpointOf p.purpose ∨ endpoint ≠ .login ∧ (r.sessionHash ≠ p.sessionHash ∨ r.username ≠ p.username)

theorem Mismatched.not_addressed {p : PendingAuth} {endpoint : Endpoint} {r : FinishRequest}
    (mismatched : Mismatched p endpoint r) : isAddressed p endpoint r = false := by
  cases verdict : isAddressed p endpoint r with
  | false => rfl
  | true =>
    exfalso
    rcases mismatched with wrong | ⟨other, wrong⟩
    · cases endpoint <;> simp [isAddressed] at verdict <;> simp [endpointOf, verdict] at wrong
    · rcases wrong with wrong | wrong
      · cases endpoint <;> simp [isAddressed, Ne.symm wrong] at verdict other
      · cases endpoint <;> simp [isAddressed, Ne.symm wrong] at verdict other

/-- What a finish call that names the request of this row can do. -/
structure CeremonyBound (app : App) (t : Transition Administration AdminAct)
    (older : List (Transition Administration AdminAct)) (site : Site) (endpoint : Endpoint) (r : FinishRequest)
    (now : Int) (row : AuthPending) : Prop where
  begun : Since (Waits row) (fun t _ => BegunBy app row t) older
  mismatched : Mismatched row.data endpoint r → t.after.db.authPending = t.before.db.authPending
  stale : Stale t.before.db site now row →
    t.after.db.authSessions = t.before.db.authSessions ∧ t.after.db.passkeys = t.before.db.passkeys

theorem step_finishes {w next : Administration} {endpoint : Endpoint} {r : FinishRequest} {stored : Bool}
    (moved : Administration.Step app w (.finishCeremony site endpoint r ids now stored) next) :
    next.db = (finishCeremony app site w.db endpoint r ids now stored).2 := by
  cases moved
  rfl

/-- No id is consumed more often than it was drawn, or twice without being drawn in between. -/
structure Consumptions (app : App) (history : List (Transition Administration AdminAct)) (idHash : String) : Prop where
  drawn : history.countP (consumes app idHash) ≤ history.countP (draws app idHash)
  redrawn : ∀ later second between first older, history = later ++ second :: (between ++ first :: older) →
    consumes app idHash first = true → consumes app idHash second = true →
      ∃ t ∈ between ++ [first], draws app idHash t = true

theorem ceremonies_one_shot {history w} (run : Run (administration app) history w) :
    (∀ idHash, Consumptions app history idHash) ∧
      ∀ later t older, history = later ++ t :: older → ∀ site endpoint r ids now stored,
        t.action = .finishCeremony site endpoint r ids now stored →
          (consumes app (app.hash r.requestId) t = true ∨ t.after.db = t.before.db) ∧
            ∀ row, pendingOf t.before.db (app.hash r.requestId) = some row →
              CeremonyBound app t older site endpoint r now row := by
  refine ⟨fun idHash => ⟨Nat.le_of_add_right_le (consumed_drawn run idHash), ?_⟩, ?_⟩
  · rintro later second between first older rfl once again
    obtain ⟨before, moved⟩ := run.at_transition
    exact consumed_redrawn before once (consumes_clears moved again).1
  rintro later ⟨w, act, next⟩ older rfl site endpoint r ids now stored rfl
  obtain ⟨before, moved⟩ := run.at_transition
  have ends := step_finishes moved
  have outcome := finishCeremony_consumes app site w.db endpoint r ids now stored
  simp only at ends outcome ⊢
  rw [← ends] at outcome
  refine ⟨?_, fun row named => ?_⟩
  · rcases outcome with same | ⟨committed, ran, row, chosen, -⟩
    · exact Or.inr same
    · simp only [Bool.and_eq_true, beq_iff_eq] at committed
      exact Or.inl (by simp [consumes, committed, ran, chosen])
  · refine ⟨pending_since before row (List.mem_of_find?_eq_some named), fun mismatched => ?_, fun stale => ?_⟩
    · rcases outcome with same | ⟨-, -, other, chosen, -⟩
      · exact congrArg Accounts.authPending same
      · simp [addressed, named, Option.filter, mismatched.not_addressed] at chosen
    · rcases outcome with same | ⟨-, -, other, chosen, claimed⟩
      · exact ⟨congrArg Accounts.authSessions same, congrArg Accounts.passkeys same⟩
      · simp only [addressed, named, Option.filter_eq_some_iff, Option.some.injEq] at chosen
        exact claimed.stale (chosen.1 ▸ stale)

/-- In the run that opens a session with a key, the call that enrols the key
consumes its request. -/
theorem ceremonies_one_shot_enrolled : ∃ t ∈ keyedRun.val.1, consumes plainApp (plainApp.hash "r2") t = true ∧
    Consumptions plainApp keyedRun.val.1 (plainApp.hash "r2") :=
  ⟨keyedRun.val.1.get ⟨4, by decide +kernel⟩, List.get_mem _ _, by decide +kernel,
    (ceremonies_one_shot keyedRun.property).1 (plainApp.hash "r2")⟩

end SshLogger
