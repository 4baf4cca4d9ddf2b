import SshLogger.Administration

/-! What one request can do to the administrator accounts: a spec lemma for each
piece of a transaction and an inversion lemma for each step. -/

namespace SshLogger
open Library Library.Transaction Library.History

def keysOf (db : Accounts) (username : String) : List String := (passkeysOf db username).map Passkey.id

def hashOf (db : Accounts) (username : String) : Option String :=
  (db.admins.find? fun a => a.username == username).map Admin.passwordHash

def AllEncoded (db : Accounts) : Prop := ∀ k ∈ db.passkeys, k.id = encodeID k.credential.id

theorem keysOf_eq_nil {db : Accounts} {username : String} :
    keysOf db username = [] ↔ ∀ k ∈ db.passkeys, k.username ≠ username := by
  simp [keysOf, passkeysOf]

structure Quiet (db after : Accounts) : Prop where
  admins : after.admins = db.admins
  passkeys : after.passkeys = db.passkeys
  sessions : after.authSessions = db.authSessions
  pending : ∀ row ∈ after.authPending, row ∈ db.authPending

theorem Quiet.refl (db : Accounts) : Quiet db db := ⟨rfl, rfl, rfl, fun _ => id⟩

theorem Quiet.trans {db middle after : Accounts} (first : Quiet db middle) (second : Quiet middle after) :
    Quiet db after :=
  ⟨second.admins.trans first.admins, second.passkeys.trans first.passkeys, second.sessions.trans first.sessions,
    fun row member => first.pending row (second.pending row member)⟩

/-- The account as `loadPasskeyUser` finds it. -/
structure Loaded (db : Accounts) (name : String) (u : PasskeyUser) : Prop where
  named : u.name = name
  hash : hashOf db name = some u.passwordHash
  total : u.total = (keysOf db name).length
  own : ∀ c ∈ u.credentials, ∃ k ∈ db.passkeys, k.username = name ∧ k.credential = c

theorem Loaded.congr {db other : Accounts} {name : String} {u : PasskeyUser} (loaded : Loaded db name u)
    (admins : other.admins = db.admins) (passkeys : other.passkeys = db.passkeys) : Loaded other name u := by
  obtain ⟨named, hash, total, own⟩ := loaded
  simp only [hashOf, keysOf, passkeysOf, ← admins, ← passkeys] at hash total own
  exact ⟨named, hash, total, own⟩

theorem loadPasskeyUser_ensures (name rp fresh : String) (db : Accounts) :
    Ensures (loadPasskeyUser name rp fresh) db fun result after =>
      Quiet db after ∧ ∀ u, result = .ok u → Loaded db name u := by
  refine ensures_exec (ensures_query (ensures_query (ensures_query ?_)))
  refine ensures_fromOption fun a admin => ensures_fromOption fun s account => ensures_pure ?_
  have quiet : Quiet db (if Rows.has Admin.username name db.admins &&
      !(db.accountAuth.any fun s => s.username == name || s.userId == fresh) then
        { db with accountAuth := db.accountAuth ++ [⟨name, fresh, 0⟩] } else db) := by
    split
    · exact ⟨rfl, rfl, rfl, fun _ => id⟩
    · exact Quiet.refl db
  refine ⟨quiet, ?_⟩
  rintro u ⟨⟩
  refine Loaded.congr ⟨rfl, congrArg (Option.map Admin.passwordHash) admin, (List.length_map _).symm, ?_⟩
    quiet.admins.symm quiet.passkeys.symm
  intro c member
  obtain ⟨k, own, rfl⟩ := List.mem_map.mp member
  obtain ⟨inside, same⟩ := List.mem_filter.mp (List.mem_filter.mp own).1
  exact ⟨k, inside, by simpa using same, rfl⟩

theorem loadPasskeyUser_spec {α : Type} {name rp fresh : String} {db : Accounts} {next : PasskeyUser → AuthTx α}
    {post : Except Problem α → Accounts → Prop} (refused : ∀ problem after, Quiet db after → post (.error problem) after)
    (continued : ∀ u after, Quiet db after → Loaded db name u → Ensures (next u) after post) :
    Ensures (loadPasskeyUser name rp fresh >>= next) db post :=
  ensures_bind (loadPasskeyUser_ensures name rp fresh db) (fun problem after ran => refused problem after ran.1)
    fun u after ran => continued u after ran.1 (ran.2 u rfl)

theorem checkLimit_spec {α : Type} {key : String} {now : Int} {db : Accounts} {next : Unit → AuthTx α}
    {post : Except Problem α → Accounts → Prop} (refused : ∀ problem, post (.error problem) db)
    (continued : Ensures (next ()) db post) : Ensures (checkLimit key now >>= next) db post := by
  have outcome : Ensures (checkLimit key now) db fun _ after => after = db :=
    ensures_query (check_ensures (fun _ => rfl) fun _ => rfl)
  exact ensures_bind outcome (fun problem _ same => same ▸ refused problem) fun _ _ same => same ▸ continued

def HasSession (db : Accounts) (tokenHash username : String) : Prop :=
  ∃ s ∈ db.authSessions, s.tokenHash = tokenHash ∧ s.username = username

theorem checkActiveSession_ensures (session username : String) (now : Int) (db : Accounts) :
    Ensures (checkActiveSession session username now) db fun result after =>
      after = db ∧ (result = .ok () → HasSession db session username) := by
  refine ensures_query (check_ensures (fun _ => ⟨rfl, nofun⟩) fun active => ⟨rfl, fun _ => ?_⟩)
  simp only [beq_iff_eq] at active
  obtain ⟨s, one⟩ := List.length_eq_one_iff.mp active
  have member : s ∈ db.authSessions.filter fun row =>
      row.tokenHash == session && row.username == username && row.expires > now := one ▸ List.mem_singleton_self s
  simp only [List.mem_filter, Bool.and_eq_true, beq_iff_eq] at member
  exact ⟨s, member.1, member.2.1.1, member.2.1.2⟩

section
variable {α : Type} {now : Int} {db : Accounts} {next : Unit → AuthTx α} {post : Except Problem α → Accounts → Prop}

theorem checkActiveSession_spec {session username : String} (refused : ∀ problem, post (.error problem) db)
    (continued : HasSession db session username → Ensures (next ()) db post) :
    Ensures (checkActiveSession session username now >>= next) db post :=
  ensures_bind (checkActiveSession_ensures session username now db) (fun problem _ ran => ran.1 ▸ refused problem)
    fun _ _ ran => ran.1 ▸ continued (ran.2 rfl)

theorem checkCaller_spec {endpoint : Endpoint} {p : PendingAuth} (refused : ∀ problem, post (.error problem) db)
    (continued : (endpoint ≠ .login → HasSession db p.sessionHash p.username) → Ensures (next ()) db post) :
    Ensures (checkCaller endpoint p now >>= next) db post := by
  unfold checkCaller
  split
  next login => exact continued fun other => absurd (by simpa using login) other
  · exact checkActiveSession_spec refused fun session => continued fun _ => session

end

structure Queued (db after : Accounts) (row : AuthPending) : Prop where
  admins : after.admins = db.admins
  passkeys : after.passkeys = db.passkeys
  sessions : after.authSessions = db.authSessions
  pending : ∀ r ∈ after.authPending, r ∈ db.authPending ∨ r = row

/-- The row holds a ceremony of this account as it is now. -/
structure Begun (u : PasskeyUser) (p : PendingAuth) (row : AuthPending) : Prop where
  owner : row.username = row.data.username
  username : row.data.username = u.name
  hash : row.data.passwordHash = u.passwordHash
  session : row.data.sessionHash = p.sessionHash
  purpose : row.data.purpose = p.purpose

theorem savePending_spec (hash : String → String) (p : PendingAuth) (id : String) (now : Int) (db : Accounts) :
    Ensures (savePending hash p id now) db fun result after =>
      result = .ok id ∧ Queued db after ⟨hash id, p.username, now + ceremonyTTL, p⟩ := by
  refine ensures_exec (ensures_query (ensures_require fun _ => ensures_exec (ensures_pure ⟨rfl, rfl, rfl, rfl, ?_⟩)))
  intro row member
  exact (List.mem_append.mp member).imp (fun kept => (Rows.mem_delete.mp kept).1) List.mem_singleton.mp

theorem beginCeremony_ensures (app : App) (site : Site) (rp : String) (u : PasskeyUser) (p : PendingAuth)
    (registration : Bool) (ids : AuthIds) (now : Int) (db : Accounts) :
    Ensures (beginCeremony app site rp u p registration ids now) db fun result after =>
      ((∃ problem, result = .error problem) → after = db) ∧
        ∀ response, result = .ok response → ∃ row, Queued db after row ∧ Begun u p row := by
  refine ensures_check (fun _ => ⟨fun _ => rfl, nofun⟩) fun _ => ensures_fromOption ?_
  rintro ⟨options, session⟩ -
  refine ensures_bind (savePending_spec _ _ _ _ _) (fun problem after saved => by cases saved.1) ?_
  rintro id after ⟨-, queued⟩
  refine ensures_pure ⟨?_, fun _ _ => ⟨_, queued, rfl, rfl, rfl, rfl, rfl⟩⟩
  rintro ⟨problem, ⟨⟩⟩

theorem beginCeremony_spec {α : Type} {app : App} {site : Site} {rp : String} {u : PasskeyUser} {p : PendingAuth}
    {registration : Bool} {ids : AuthIds} {now : Int} {db : Accounts} {next : CeremonyResponse → AuthTx α}
    {post : Except Problem α → Accounts → Prop} (refused : ∀ problem, post (.error problem) db)
    (continued : ∀ response after row, Queued db after row → Begun u p row → Ensures (next response) after post) :
    Ensures (beginCeremony app site rp u p registration ids now >>= next) db post := by
  refine ensures_bind (beginCeremony_ensures app site rp u p registration ids now db) ?_ ?_
  · rintro problem after ⟨same, -⟩
    exact same ⟨problem, rfl⟩ ▸ refused problem
  · rintro response after ⟨-, begun⟩
    obtain ⟨row, queued, begun⟩ := begun response rfl
    exact continued response after row queued begun

structure Invalidated (db after : Accounts) (name : String) (all : Bool) : Prop where
  admins : after.admins = db.admins
  passkeys : after.passkeys = db.passkeys
  pending : ∀ row ∈ after.authPending, row ∈ db.authPending ∧ row.username ≠ name
  sessions : ∀ s ∈ after.authSessions, s ∈ db.authSessions ∧ (all = true → s.username = name → s.tokenHash = "")

theorem revokeAfterPasskeyChange_spec {α : Type} {name current : String} {all : Bool} {db : Accounts}
    {next : Unit → AuthTx α} {post : Except Problem α → Accounts → Prop}
    (continued : ∀ after, Invalidated db after name all → Ensures (next ()) after post) :
    Ensures (revokeAfterPasskeyChange name current all >>= next) db post := by
  have outcome : Ensures (revokeAfterPasskeyChange name current all) db fun result after =>
      result = .ok () ∧ Invalidated db after name all := by
    rintro result after ⟨⟩
    refine ⟨rfl, rfl, rfl, ?_, ?_⟩
    · intro row member
      simpa using Rows.mem_delete.mp member
    · intro s member
      obtain ⟨there, kept⟩ := Rows.mem_delete.mp member
      refine ⟨there, ?_⟩
      rintro rfl rfl
      simpa using kept
  exact ensures_bind outcome (fun _ _ ran => by cases ran.1) fun _ after ran => continued after ran.2

theorem createLoginSession_spec {α : Type} {hash : String → String} {name : String} {ids : AuthIds} {now : Int}
    {db : Accounts} {next : CompletedLogin → AuthTx α} {post : Except Problem α → Accounts → Prop}
    (continued : ∀ completed s, s.tokenHash = hash ids.token → s.username = name →
      (∀ old ∈ db.authSessions, old.tokenHash ≠ s.tokenHash) →
      Ensures (next completed) { db with authSessions := db.authSessions ++ [s] } post) :
    Ensures (createLoginSession hash name ids now >>= next) db post := by
  have outcome : Ensures (createLoginSession hash name ids now) db fun result after => ∃ completed s,
      result = .ok completed ∧ s.tokenHash = hash ids.token ∧ s.username = name ∧
        (∀ old ∈ db.authSessions, old.tokenHash ≠ s.tokenHash) ∧
        after = { db with authSessions := db.authSessions ++ [s] } := by
    refine ensures_query (ensures_require fun free => ensures_exec (ensures_pure ?_))
    exact ⟨_, _, rfl, rfl, rfl, Rows.has_false_iff.mp (by simpa using free), rfl⟩
  refine ensures_bind outcome ?_ ?_
  · rintro problem _ ⟨_, _, ran, -⟩
    cases ran
  · rintro completed _ ⟨_, s, -, token, own, fresh, rfl⟩
    exact continued completed s token own fresh

/-- Accounts and sets of keys are kept. At most these sessions and requests are new. -/
structure Calm (logins : List AuthSession) (requests : List AuthPending) (db after : Accounts) : Prop where
  admins : after.admins = db.admins
  keys : ∀ username, keysOf after username = keysOf db username
  encoded : AllEncoded db → AllEncoded after
  sessions : ∀ s ∈ after.authSessions, s ∈ db.authSessions ∨ s ∈ logins
  pending : ∀ row ∈ after.authPending, row ∈ db.authPending ∨ row ∈ requests

/-- The keys of one account are replaced: its requests are gone, and all its
sessions when it had no key before. -/
structure Rekeyed (db after : Accounts) (name : String) : Prop where
  admins : after.admins = db.admins
  others : ∀ username, username ≠ name → keysOf after username = keysOf db username
  encoded : AllEncoded db → AllEncoded after
  pending : ∀ row ∈ after.authPending, row ∈ db.authPending ∧ row.username ≠ name
  sessions : ∀ s ∈ after.authSessions, s ∈ db.authSessions
  enrolled : keysOf db name = [] → keysOf after name ≠ [] →
    ∀ s ∈ after.authSessions, s.username = name → s.tokenHash = ""

theorem keysOf_congr {db other : Accounts} (same : other.passkeys = db.passkeys) (username : String) :
    keysOf other username = keysOf db username := by
  simp only [keysOf, passkeysOf, same]

theorem Quiet.calm {db after : Accounts} (quiet : Quiet db after) : Calm [] [] db after :=
  ⟨quiet.admins, keysOf_congr quiet.passkeys, fun encoded k member => encoded k (quiet.passkeys ▸ member),
    fun _ member => Or.inl (quiet.sessions ▸ member), fun row member => Or.inl (quiet.pending row member)⟩

theorem Quiet.then_calm {logins : List AuthSession} {requests : List AuthPending} {db middle after : Accounts}
    (quiet : Quiet db middle) (calm : Calm logins requests middle after) : Calm logins requests db after where
  admins := calm.admins.trans quiet.admins
  keys username := (calm.keys username).trans (keysOf_congr quiet.passkeys username)
  encoded encoded := calm.encoded (quiet.calm.encoded encoded)
  sessions s member := (calm.sessions s member).imp (fun there => quiet.sessions ▸ there) id
  pending row member := (calm.pending row member).imp (quiet.pending row) id

theorem Quiet.then_rekeyed {db middle after : Accounts} {name : String} (quiet : Quiet db middle)
    (rekeyed : Rekeyed middle after name) : Rekeyed db after name where
  admins := rekeyed.admins.trans quiet.admins
  others username other := (rekeyed.others username other).trans (keysOf_congr quiet.passkeys username)
  encoded encoded := rekeyed.encoded (quiet.calm.encoded encoded)
  pending row member := ⟨quiet.pending row (rekeyed.pending row member).1, (rekeyed.pending row member).2⟩
  sessions s member := quiet.sessions ▸ rekeyed.sessions s member
  enrolled none_before := rekeyed.enrolled ((keysOf_congr quiet.passkeys name).trans none_before)

/-- A refused transaction was calm; a successful one has done this. -/
def Outcome {α : Type} (db : Accounts) (done : Accounts → Prop) : Except Problem α → Accounts → Prop
  | .error _, after => Calm [] [] db after
  | .ok _, after => done after

theorem Queued.calm {db after : Accounts} {row : AuthPending} (queued : Queued db after row) :
    Calm [] [row] db after where
  admins := queued.admins
  keys := keysOf_congr queued.passkeys
  encoded encoded k member := encoded k (queued.passkeys ▸ member)
  sessions _ member := Or.inl (queued.sessions ▸ member)
  pending other member := (queued.pending other member).imp id List.mem_singleton.mpr

def Asserted (app : App) (site : Site) (db : Accounts) (username session response : String) : Prop :=
  ∃ u credential, app.webauthn.validateLogin site u session response = some credential ∧ Loaded db username u

theorem useKey_keys (u : PasskeyUser) (credential : Credential) (now : Int) (db : Accounts) (username : String) :
    let after := { db with
      passkeys := Rows.update (fun k => k.id == encodeID credential.id && k.username == u.name)
        (fun k => { k with credential, lastUsed := now }) db.passkeys }
    keysOf after username = keysOf db username ∧ (AllEncoded db → AllEncoded after) := by
  refine ⟨?_, ?_⟩
  · simp only [keysOf, passkeysOf, Rows.update, List.filter_map, List.map_map]
    have alike : ((fun k : Passkey => k.username == username) ∘ fun k =>
        if k.id == encodeID credential.id && k.username == u.name then { k with credential, lastUsed := now } else k) =
        fun k => k.username == username := by
      funext k
      simp only [Function.comp_apply]
      split <;> rfl
    rw [alike]
    refine List.map_congr_left fun k _ => ?_
    simp only [Function.comp_apply]
    split <;> rfl
  · intro encoded k member
    obtain ⟨old, there, ⟨chosen, rfl⟩ | ⟨-, rfl⟩⟩ := Rows.mem_update.mp member
    · simp only [Bool.and_eq_true, beq_iff_eq] at chosen
      exact chosen.1
    · exact encoded old there

theorem enrol_spec {α : Type} {p : PendingAuth} {u : PasskeyUser} {credential : Credential} {now : Int} {db : Accounts}
    {next : Unit → AuthTx α} {post : Except Problem α → Accounts → Prop} (loaded : Loaded db u.name u)
    (refused : ∀ problem, post (.error problem) db)
    (continued : ∀ after, Rekeyed db after u.name → Ensures (next ()) after post) :
    Ensures (enrol p u credential now >>= next) db post := by
  have outcome : Ensures (enrol p u credential now) db fun result after =>
      ((∃ problem, result = .error problem) → after = db) ∧ (result = .ok () → Rekeyed db after u.name) := by
    refine ensures_query (ensures_check (fun _ => ⟨fun _ => rfl, nofun⟩) fun _ => ensures_exec ?_)
    rw [← Tx.bind_pure (revokeAfterPasskeyChange _ _ _)]
    refine revokeAfterPasskeyChange_spec fun after gone => ensures_pure ⟨?_, fun _ => ?_⟩
    · rintro ⟨problem, ⟨⟩⟩
    refine ⟨gone.admins, ?_, ?_, gone.pending, fun s member => (gone.sessions s member).1, ?_⟩
    · intro username other
      rw [keysOf_congr gone.passkeys]
      simp [keysOf, passkeysOf, Ne.symm other]
    · intro encoded k member
      rw [gone.passkeys] at member
      rcases List.mem_append.mp member with old | new
      · exact encoded k old
      · rw [List.mem_singleton.mp new]
    · intro none_before _ s member own
      exact (gone.sessions s member).2 (by simp [loaded.total, none_before]) own
  exact ensures_bind outcome (fun problem after ran => ran.1 ⟨problem, rfl⟩ ▸ refused problem)
    fun _ after ran => continued after (ran.2 rfl)

theorem removeKeys_spec {α : Type} {p : PendingAuth} {u : PasskeyUser} {db : Accounts}
    {next : Unit → AuthTx α} {post : Except Problem α → Accounts → Prop}
    (continued : ∀ after, Rekeyed db after u.name → Ensures (next ()) after post) :
    Ensures (removeKeys p u >>= next) db post := by
  have outcome : Ensures (removeKeys p u) db fun result after => result = .ok () ∧ Rekeyed db after u.name := by
    refine ensures_exec ?_
    rw [← Tx.bind_pure (revokeAfterPasskeyChange _ _ _)]
    refine revokeAfterPasskeyChange_spec fun after gone => ensures_pure ⟨rfl, ?_⟩
    refine ⟨gone.admins, ?_, ?_, gone.pending, fun s member => (gone.sessions s member).1, ?_⟩
    · intro username other
      rw [keysOf_congr gone.passkeys]
      simp only [keysOf, passkeysOf, Rows.delete, List.filter_filter]
      refine congrArg (List.map Passkey.id) (List.filter_congr fun k _ => ?_)
      by_cases own : k.username = username <;> simp [own, other]
    · intro encoded k member
      rw [gone.passkeys] at member
      exact encoded k (Rows.mem_delete.mp member).1
    · intro none_before some_after
      refine absurd (keysOf_eq_nil.mpr fun k member => ?_) some_after
      rw [gone.passkeys] at member
      exact keysOf_eq_nil.mp none_before k (Rows.mem_delete.mp member).1
  exact ensures_bind outcome (fun _ _ ran => by cases ran.1) fun _ after ran => continued after ran.2

inductive Finishes (app : App) (site : Site) (db after : Accounts) (endpoint : Endpoint) (p : PendingAuth)
    (u : PasskeyUser) (response : String) (ids : AuthIds) : Prop
  | rekeyed : Rekeyed db after u.name → endpoint ≠ .login →
      endpoint = .register ∨ Asserted app site db u.name p.session response → Finishes app site db after endpoint p u response ids
  | proved (row : AuthPending) : Calm [] [row] db after → endpoint = .finish → Asserted app site db u.name p.session response →
      Begun u { p with purpose := "register" } row → Finishes app site db after endpoint p u response ids
  | admitted (s : AuthSession) : Calm [s] [] db after → endpoint = .login → Asserted app site db u.name p.session response →
      s.username = u.name → s.tokenHash = app.hash ids.token → (∀ old ∈ db.authSessions, old.tokenHash ≠ s.tokenHash) →
      Finishes app site db after endpoint p u response ids

theorem complete_spec {app : App} {site : Site} {rp : String} {endpoint : Endpoint} {p : PendingAuth} {u : PasskeyUser}
    {credential : Credential} {key : String} {ids : AuthIds} {now : Int} {db : Accounts} {response : String}
    (loaded : Loaded db u.name u) (proved : endpoint ≠ .register → Asserted app site db u.name p.session response) :
    Ensures (complete app site rp endpoint p u credential key ids now) db
      (Outcome db fun after => Finishes app site db after endpoint p u response ids) := by
  have used := useKey_keys u credential now db
  cases endpoint with
  | register =>
    refine enrol_spec loaded (fun _ => (Quiet.refl db).calm) fun after rekeyed => ?_
    refine ensures_exec (ensures_pure (.rekeyed ?_ nofun (Or.inl rfl)))
    exact ⟨rekeyed.admins, rekeyed.others, rekeyed.encoded, rekeyed.pending, rekeyed.sessions, rekeyed.enrolled⟩
  | login =>
    refine ensures_exec (ensures_exec (createLoginSession_spec fun completed s token own fresh => ?_))
    refine ensures_exec (ensures_pure (.admitted s ?_ rfl (proved nofun) own token fresh))
    exact ⟨rfl, fun username => (used username).1, (used "").2, fun _ member => (List.mem_append.mp member), fun _ => Or.inl⟩
  | finish =>
    refine ensures_exec ?_
    split
    · refine beginCeremony_spec (fun _ => ?_) fun answer after row queued begun => ?_
      · exact ⟨rfl, fun username => (used username).1, (used "").2, fun _ => Or.inl, fun _ => Or.inl⟩
      · have calm := queued.calm
        refine ensures_pure (.proved row ?_ rfl (proved nofun) begun)
        exact ⟨calm.admins, fun username => (calm.keys username).trans (used username).1,
          fun encoded => calm.encoded ((used "").2 encoded), calm.sessions, calm.pending⟩
    · refine removeKeys_spec fun after rekeyed => ensures_exec (ensures_pure (.rekeyed ?_ nofun ?_))
      · refine ⟨rekeyed.admins, ?_, fun encoded => rekeyed.encoded ((used "").2 encoded), rekeyed.pending,
          rekeyed.sessions, fun none_before => rekeyed.enrolled ((used u.name).1.trans none_before)⟩
        exact fun username other => (rekeyed.others username other).trans (used username).1
      · exact Or.inr (proved nofun)

/-- The request names a pending ceremony of the account as it is now. -/
structure Claimed (app : App) (db : Accounts) (endpoint : Endpoint) (r : FinishRequest) (row : AuthPending)
    (u : PasskeyUser) : Prop where
  stored : row ∈ db.authPending
  named : row.idHash = app.hash r.requestId
  addressed : isAddressed row.data endpoint r = true
  session : endpoint ≠ .login → HasSession db row.data.sessionHash row.data.username
  loaded : Loaded db row.data.username u
  hash : row.data.passwordHash = u.passwordHash

theorem finishPending_spec (app : App) (site : Site) (endpoint : Endpoint) (r : FinishRequest) (ids : AuthIds) (now : Int)
    (db : Accounts) :
    Ensures (finishPending app site endpoint r ids now) db (Outcome db fun after =>
      ∃ row u, Claimed app db endpoint r row u ∧ Finishes app site db after endpoint row.data u r.response ids) := by
  refine ensures_query (ensures_fromExcept (fun _ _ => (Quiet.refl db).calm) fun row found => ?_)
  split at found
  · cases found
  next first matched =>
    cases found
    have stored := List.mem_of_find?_eq_some matched
    have named : row.idHash = app.hash r.requestId := by simpa using List.find?_some matched
    refine ensures_check (fun _ => (Quiet.refl db).calm) fun addressed => ensures_exec ?_
    have taken : Quiet db { db with
        authPending := Rows.delete (fun row => row.idHash == app.hash r.requestId) db.authPending } :=
      ⟨rfl, rfl, rfl, fun _ member => (Rows.mem_delete.mp member).1⟩
    refine ensures_check (fun _ => taken.calm) fun _ => ?_
    refine checkCaller_spec (fun _ => taken.calm) fun session => ?_
    refine ensures_fromExcept (fun _ _ => taken.calm) fun rp _ => ?_
    refine loadPasskeyUser_spec (fun _ _ quiet => (taken.trans quiet).calm) fun u after loading loaded => ?_
    have quiet := taken.trans loading
    refine ensures_check (fun _ => quiet.calm) fun fresh => ?_
    refine checkLimit_spec (fun _ => quiet.calm) ?_
    simp only [Bool.and_eq_true, beq_iff_eq] at fresh
    have claimed : Claimed app db endpoint r row u :=
      ⟨stored, named, addressed, session, loaded.congr rfl rfl, fresh.1.1.2⟩
    split
    · exact ensures_exec (ensures_refuse (quiet.then_calm ⟨rfl, fun _ => rfl, id, fun _ => Or.inl, fun _ => Or.inl⟩))
    next credential verified =>
      have here : Loaded after u.name u := loaded.named ▸ loaded.congr loading.admins loading.passkeys
      have back : ∀ {name}, Asserted app site after name row.data.session r.response →
          Asserted app site db name row.data.session r.response := by
        rintro name ⟨user, answer, accepted, known⟩
        exact ⟨user, answer, accepted, known.congr quiet.admins.symm quiet.passkeys.symm⟩
      have proved : endpoint ≠ .register → Asserted app site after u.name row.data.session r.response := by
        intro other
        refine ⟨u, credential, ?_, here⟩
        simpa [other] using verified
      refine (complete_spec here proved).mono fun result last ran => ?_
      cases result with
      | error => exact quiet.then_calm ran
      | ok =>
        refine ⟨row, u, claimed, ?_⟩
        cases ran with
        | rekeyed rekeyed other asserted => exact .rekeyed (quiet.then_rekeyed rekeyed) other (asserted.imp id back)
        | proved row calm here asserted begun => exact .proved row (quiet.then_calm calm) here (back asserted) begun
        | admitted s calm here asserted own token fresh =>
          exact .admitted s (quiet.then_calm calm) here (back asserted) own token
            fun old member => fresh old (quiet.sessions ▸ member)

/-- The row was begun by this request with the account's password. -/
structure Managed (app : App) (db : Accounts) (r : ManageRequest) (row : AuthPending) : Prop where
  owner : row.username = row.data.username
  username : row.data.username = r.username
  session : row.data.sessionHash = r.sessionHash
  hash : hashOf db r.username = some row.data.passwordHash
  verified : app.compare row.data.passwordHash r.password = true
  active : HasSession db r.sessionHash r.username
  purpose : row.data.purpose ≠ "login"
  first : row.data.purpose = "register" → keysOf db r.username = []

theorem beginManaging_spec (app : App) (site : Site) (r : ManageRequest) (ids : AuthIds) (now : Int) (db : Accounts)
    (manageable : isManageable r = true) :
    Ensures (beginManaging app site r ids now) db
      (Outcome db fun after => ∃ row, Calm [] [row] db after ∧ Managed app db r row) := by
  have unchanged := (Quiet.refl db).calm
  refine ensures_fromExcept (fun _ _ => unchanged) fun rp _ => ?_
  refine checkActiveSession_spec (fun _ => unchanged) fun active => ?_
  refine checkLimit_spec (fun _ => unchanged) ?_
  refine loadPasskeyUser_spec (fun _ _ quiet => quiet.calm) fun u middle quiet loaded => ?_
  split
  · exact ensures_exec (ensures_refuse (quiet.then_calm ⟨rfl, fun _ => rfl, id, fun _ => Or.inl, fun _ => Or.inl⟩))
  next verified =>
    refine ensures_check (fun _ => quiet.calm) fun _ => ensures_query ?_
    refine ensures_check (fun _ => quiet.calm) fun _ => ?_
    refine (beginCeremony_ensures app site rp u _ _ ids now middle).mono fun result after ran => ?_
    cases result with
    | error problem => exact ran.1 ⟨problem, rfl⟩ ▸ quiet.calm
    | ok response =>
      obtain ⟨row, queued, begun⟩ := ran.2 response rfl
      have known : r.action = "add" ∨ r.action = "delete" ∨ r.action = "disable" := by
        simp only [isManageable, Bool.and_eq_true, Bool.or_eq_true, beq_iff_eq] at manageable
        tauto
      refine ⟨row, quiet.then_calm queued.calm, ?_⟩
      have purpose := begun.purpose
      refine ⟨begun.owner, begun.username.trans loaded.named, begun.session, begun.hash ▸ loaded.hash,
        begun.hash ▸ by simpa using verified, active, ?_, ?_⟩
      · simp only at purpose
        rw [purpose]
        split
        · decide
        · rcases known with same | same | same <;> rw [same] <;> decide
      · intro registers
        simp only at purpose
        rw [registers] at purpose
        split at purpose
        next none => exact List.length_eq_zero_iff.mp (loaded.total ▸ by simpa using none)
        · rcases known with same | same | same <;> simp [same] at purpose

inductive LogsIn (app : App) (db after : Accounts) (l : VerifiedLogin) (ids : AuthIds) : Prop
  | asked (row : AuthPending) : Calm [] [row] db after → row.username = row.data.username →
      row.data.username = l.username → row.data.passwordHash = l.passwordHash → row.data.purpose = "login" →
      LogsIn app db after l ids
  | created (s : AuthSession) : Calm [s] [] db after → keysOf db l.username = [] → s.username = l.username →
      s.tokenHash = app.hash ids.token → (∀ old ∈ db.authSessions, old.tokenHash ≠ s.tokenHash) →
      LogsIn app db after l ids

theorem finishLogin_spec (app : App) (site : Site) (l : VerifiedLogin) (ids : AuthIds) (now : Int) (db : Accounts) :
    Ensures (finishLogin app site l ids now) db
      (Outcome db fun after => hashOf db l.username = some l.passwordHash ∧ LogsIn app db after l ids) := by
  have unchanged := (Quiet.refl db).calm
  refine ensures_query (ensures_fromExcept (fun _ _ => unchanged) fun a found => ?_)
  split at found
  · cases found
  next admin matched =>
    cases found
    refine ensures_check (fun _ => unchanged) fun same => ensures_query ?_
    have hash : hashOf db l.username = some l.passwordHash := by
      rw [hashOf, matched, Option.map_some, eq_of_beq same]
    split
    next secured =>
      refine checkLimit_spec (fun _ => unchanged) ?_
      refine ensures_fromExcept (fun _ _ => unchanged) fun rp _ => ?_
      refine loadPasskeyUser_spec (fun _ _ quiet => quiet.calm) fun u middle quiet loaded => ?_
      refine beginCeremony_spec (fun _ => quiet.calm) fun response after row queued begun => ?_
      refine ensures_pure ⟨hash, .asked row (quiet.then_calm queued.calm) begun.owner
        (begun.username.trans loaded.named) ?_ begun.purpose⟩
      rw [begun.hash]
      exact Option.some.inj (loaded.hash.symm.trans hash)
    next free =>
      have none_stored : keysOf db l.username = [] := by
        have empty : passkeysOf db l.username = [] := List.length_eq_zero_iff.mp (by omega)
        rw [keysOf, empty, List.map_nil]
      refine createLoginSession_spec fun completed s token own fresh => ensures_exec (ensures_pure ⟨hash, ?_⟩)
      exact .created s ⟨rfl, fun _ => rfl, id, fun _ => List.mem_append.mp, fun _ => Or.inl⟩ none_stored own token fresh

/-- The password of an account was replaced; its sessions and requests are gone. -/
structure Replaced (db after : Accounts) (c : VerifiedChange) (newHash : String) : Prop where
  known : ∃ a ∈ db.admins, a.username = c.username ∧ a.passwordHash = c.oldHash
  admins : after.admins = Rows.update (fun a => a.username == c.username && a.passwordHash == c.oldHash)
    (fun a => { a with passwordHash := newHash }) db.admins
  passkeys : after.passkeys = db.passkeys
  pending : ∀ row ∈ after.authPending, row ∈ db.authPending ∧ row.username ≠ c.username
  sessions : ∀ s ∈ after.authSessions, s ∈ db.authSessions ∧ s.username ≠ c.username

theorem replacePassword_spec (app : App) (c : VerifiedChange) (newHash : String) (now : Int) (db : Accounts) :
    Ensures (replacePassword app c newHash now) db (Outcome db fun after => Replaced db after c newHash) := by
  refine ensures_query (ensures_query (ensures_check (fun _ => (Quiet.refl db).calm) fun known => ?_))
  refine ensures_exec ?_
  rintro _ _ ⟨⟩
  simp only [Bool.and_eq_true, List.any_eq_true, beq_iff_eq] at known
  refine ⟨known.2, rfl, rfl, ?_, ?_⟩
  · exact fun row member => by simpa using Rows.mem_delete.mp member
  · exact fun s member => by simpa using Rows.mem_delete.mp member

structure Created (db after : Accounts) (username passwordHash : String) : Prop where
  fresh : ∀ a ∈ db.admins, a.username ≠ username
  admins : after.admins = db.admins ++ [⟨username, passwordHash⟩]
  passkeys : after.passkeys = db.passkeys
  pending : after.authPending = db.authPending
  sessions : after.authSessions = db.authSessions

theorem insertAdmin_spec (app : App) (cookie username passwordHash : String) (now : Int) (db : Accounts) :
    Ensures (insertAdmin app cookie username passwordHash now) db
      (Outcome db fun after => Created db after username passwordHash) := by
  refine ensures_query (ensures_check (fun _ => (Quiet.refl db).calm) fun _ => ensures_query ?_)
  refine ensures_check (fun _ => (Quiet.refl db).calm) fun fresh => ?_
  rintro _ _ ⟨⟩
  exact ⟨Rows.has_false_iff.mp (by simpa using fresh), rfl, rfl, rfl, rfl⟩

structure Deleted (db after : Accounts) (target : String) : Prop where
  admins : after.admins = Rows.delete (fun a => a.username == target) db.admins
  passkeys : after.passkeys = Rows.delete (fun k => k.username == target) db.passkeys
  pending : ∀ row ∈ after.authPending, row ∈ db.authPending ∧ row.username ≠ target
  sessions : ∀ s ∈ after.authSessions, s ∈ db.authSessions ∧ s.username ≠ target

theorem removeAdmin_spec (app : App) (cookie target : String) (now : Int) (db : Accounts) :
    Ensures (removeAdmin app cookie target now) db (Outcome db fun after => Deleted db after target) := by
  have unchanged := (Quiet.refl db).calm
  refine ensures_query (ensures_fromExcept (fun _ _ => unchanged) fun role _ => ?_)
  refine ensures_check (fun _ => unchanged) fun _ => ensures_query (ensures_check (fun _ => unchanged) fun _ => ?_)
  refine ensures_query (ensures_check (fun _ => unchanged) fun _ => ?_)
  rintro _ _ ⟨⟩
  refine ⟨rfl, rfl, ?_, ?_⟩
  · exact fun row member => by simpa using Rows.mem_delete.mp member
  · exact fun s member => by simpa using Rows.mem_delete.mp member

theorem removeFactors_spec (username : String) (db : Accounts) :
    Ensures (removeFactors username) db (Outcome db fun after => Rekeyed db after username ∧ keysOf after username = []) := by
  refine ensures_query (ensures_require fun _ => ensures_exec ?_)
  rw [← Tx.bind_pure (revokeAfterPasskeyChange _ _ _)]
  refine revokeAfterPasskeyChange_spec fun after gone => ensures_pure ?_
  have none_left : keysOf after username = [] := by
    refine keysOf_eq_nil.mpr fun k member => ?_
    rw [gone.passkeys] at member
    simpa using (Rows.mem_delete.mp member).2
  refine ⟨⟨gone.admins, ?_, ?_, gone.pending, fun s member => (gone.sessions s member).1, ?_⟩, none_left⟩
  · intro other different
    rw [keysOf_congr gone.passkeys]
    simp only [keysOf, passkeysOf, Rows.delete, List.filter_filter]
    refine congrArg (List.map Passkey.id) (List.filter_congr fun k _ => ?_)
    by_cases own : k.username = other <;> simp [own, different]
  · intro encoded k member
    rw [gone.passkeys] at member
    exact encoded k (Rows.mem_delete.mp member).1
  · exact fun _ some_after => absurd none_left some_after

inductive AdminEffect (app : App) (db after : Accounts) : AdminAct → Prop
  | calm (act : AdminAct) : Calm [] [] db after → AdminEffect app db after act
  | managed {site r ids now stored} (row : AuthPending) : Calm [] [row] db after → Managed app db r row →
      AdminEffect app db after (.passkeyBegin site r ids now stored)
  | loggedIn {site l ids now stored} : hashOf db l.username = some l.passwordHash → LogsIn app db after l ids →
      AdminEffect app db after (.login site l ids now stored)
  | finished {site endpoint r ids now stored} (row : AuthPending) (u : PasskeyUser) : Claimed app db endpoint r row u →
      Finishes app site db after endpoint row.data u r.response ids →
      AdminEffect app db after (.finishCeremony site endpoint r ids now stored)
  | replaced {c newHash now stored} : Replaced db after c newHash →
      AdminEffect app db after (.changePassword c newHash now stored)
  | created {cookie username password passwordHash now stored} : Created db after username passwordHash →
      AdminEffect app db after (.createAdmin cookie username password passwordHash now stored)
  | deleted {cookie target now stored} : Deleted db after target →
      AdminEffect app db after (.deleteAdmin cookie target now stored)
  | reset {username stored} : Rekeyed db after username → keysOf after username = [] →
      AdminEffect app db after (.resetTwoFactor username stored)

theorem commit_done {α : Type} {db : Accounts} {stored : Bool} {unstored : Problem} {body : AuthTx α}
    {done : Accounts → Prop} (holds : Ensures body db (Outcome db done)) {value : α}
    (answered : (commit db stored unstored body).1 = .ok value) : done (commit db stored unstored body).2 := by
  have ends : commit db stored unstored body = (.error unstored, db) ∨ _ := commit_ensures holds
  rcases ends with same | outcome
  · rw [same] at answered
    cases answered
  · exact (answered ▸ outcome :)

/-- A transaction does nothing, is refused calmly, or succeeds with its effect. -/
theorem commit_outcome {α : Type} {db : Accounts} {stored : Bool} {unstored : Problem} {body : AuthTx α}
    {done : Accounts → Prop} (holds : Ensures body db (Outcome db done)) :
    Calm [] [] db (commit db stored unstored body).2 ∨
      (∃ value, (commit db stored unstored body).1 = .ok value) ∧ done (commit db stored unstored body).2 := by
  rcases commit_ensures holds with same | outcome
  · rw [same]
    exact Or.inl (Quiet.refl db).calm
  · cases result : (commit db stored unstored body).1 with
    | error problem => exact Or.inl (result ▸ outcome :)
    | ok value => exact Or.inr ⟨⟨value, rfl⟩, (result ▸ outcome :)⟩

theorem admin_effect {app : App} {w next : Administration} {act : AdminAct}
    (moved : Administration.Step app w act next) : AdminEffect app w.db next.db act := by
  have unchanged := (Quiet.refl w.db).calm
  cases moved with
  | admitLogin => exact .calm _ unchanged
  | verifyLogin => exact .calm _ unchanged
  | failLogin ip now stored =>
    have counted : Ensures (do
        exec fun db => { db with loginAttempts := countAttempt ip now db.loginAttempts }
        refuse (401, "계정 또는 비밀번호가 올바르지 않습니다.") : AuthTx Unit) w.db (Outcome w.db fun _ => False) :=
      ensures_exec (ensures_refuse ⟨rfl, fun _ => rfl, id, fun _ => Or.inl, fun _ => Or.inl⟩)
    exact .calm _ ((commit_outcome counted).resolve_right (·.2))
  | login site l ids now stored =>
    rcases commit_outcome (finishLogin_spec app site l ids now w.db) with calm | ⟨-, hash, done⟩
    · exact .calm _ calm
    · exact .loggedIn hash done
  | logout cookie stored =>
    have removed : Ensures (exec fun db => { db with
        authSessions := Rows.delete (fun row => row.tokenHash == app.hash cookie) db.authSessions } : AuthTx Unit) w.db
        (Outcome w.db (Calm [] [] w.db)) := by
      rintro _ _ ⟨⟩
      exact ⟨rfl, fun _ => rfl, id, fun s member => Or.inl (Rows.mem_delete.mp member).1, fun _ => Or.inl⟩
    exact .calm _ ((commit_outcome removed).elim id (·.2))
  | passkeyBegin site r ids now stored =>
    simp only [passkeyBegin]
    split
    · exact .calm _ unchanged
    next manageable =>
      rcases commit_outcome (beginManaging_spec app site r ids now w.db (by simpa using manageable)) with
        calm | ⟨-, row, calm, managed⟩
      · exact .calm _ calm
      · exact .managed row calm managed
  | finishCeremony site endpoint r ids now stored =>
    simp only [finishCeremony]
    split
    · exact .calm _ unchanged
    · rcases commit_outcome (finishPending_spec app site endpoint r ids now w.db) with calm | ⟨-, row, u, claimed, done⟩
      · exact .calm _ calm
      · exact .finished row u claimed done
  | verifyChange => exact .calm _ unchanged
  | changePassword c newHash now stored =>
    rcases commit_outcome (replacePassword_spec app c newHash now w.db) with calm | ⟨-, done⟩
    · exact .calm _ calm
    · exact .replaced done
  | createAdmin cookie username password passwordHash now stored =>
    simp only [createAdmin]
    split
    · exact .calm _ unchanged
    · split
      · exact .calm _ unchanged
      · rcases commit_outcome (insertAdmin_spec app cookie username passwordHash now w.db) with calm | ⟨-, done⟩
        · exact .calm _ calm
        · exact .created done
  | deleteAdmin cookie target now stored =>
    rcases commit_outcome (removeAdmin_spec app cookie target now w.db) with calm | ⟨-, done⟩
    · exact .calm _ calm
    · exact .deleted done
  | resetTwoFactor username stored =>
    rcases commit_outcome (removeFactors_spec username w.db) with calm | ⟨-, rekeyed, none_left⟩
    · exact .calm _ calm
    · exact .reset rekeyed none_left
  | cleanup now =>
    refine .calm _ ⟨rfl, fun _ => rfl, id, ?_, ?_⟩
    · exact fun s member => Or.inl (Rows.mem_delete.mp member).1
    · exact fun row member => Or.inl (Rows.mem_delete.mp member).1
  | assign roles servers => exact .calm _ ⟨rfl, fun _ => rfl, id, fun _ => Or.inl, fun _ => Or.inl⟩

end SshLogger
