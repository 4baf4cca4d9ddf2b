import SshLogger.Console
import SshLogger.Proofs.Passwords
import SshLogger.Proofs.Serving

/-! Whether a change is still authorized when it is committed. Only the deletion of
an account makes the checks of the middleware again in its transaction; the other
handlers rely on nothing having happened since. -/

namespace SshLogger
open Library Library.Transaction Library.History

variable {app : App} {c next : Console} {act : ConsoleAct} {f : Checked}

def permitted (app : App) (db : Db) (m : Mutation) (cookie : String) (now : Int) : Bool :=
  match principalOf app db.toAccounts cookie now with
  | none => false
  | some who => (!m.isSuper || who.role == "super_admin") &&
    m.server.all fun id => db.servers.any (isEditable db.toAccounts who id)

namespace Mutation

/-- The caller's login session: that it is there, or that it has not expired either. -/
def readsSession : Mutation → Bool
  | createAdmin .. | deleteAdmin _ | terminateSession .. => true
  | _ => false

def readsExpiry : Mutation → Bool
  | createAdmin .. | deleteAdmin _ => true
  | _ => false

def readsRole : Mutation → Bool
  | deleteAdmin _ => true
  | _ => false

def readsServer : Mutation → Bool
  | terminateSession .. => true
  | _ => false

end Mutation

/-- What the transaction of a request does not read again is as its checks found it. -/
structure Standing (app : App) (c : Console) (f : Checked) : Prop where
  session : f.mutation.readsSession = false → HasSession c.admin.db (app.hash f.cookie) f.who.username
  account : f.mutation.readsRole = false →
    ∀ s ∈ c.admin.db.authSessions, s.tokenHash = app.hash f.cookie → s.username = f.who.username
  role : f.mutation.readsRole = false → f.mutation.isSuper = true → roleOf c.admin.db f.who.username = "super_admin"
  scope : ∀ id, f.mutation.server = some id → f.placed = true ∨ f.who.role = "super_admin" →
    scope c.admin.db ⟨f.who.username, roleOf c.admin.db f.who.username⟩ id = true
  server : f.mutation.readsServer = false → ∀ id, f.mutation.server = some id → f.placed = true →
    ∃ s ∈ c.fleet.servers, s.id = id ∧ s.revoked = false

theorem principalOf_eq {db : Accounts} {cookie username : String} {now : Int} {row : AuthSession}
    (active : activeSession db (app.hash cookie) now = some row)
    (account : ∀ s ∈ db.authSessions, s.tokenHash = app.hash cookie → s.username = username) :
    principalOf app db cookie now = some ⟨username, roleOf db username⟩ := by
  have token : row.tokenHash = app.hash cookie := by
    have found := List.find?_some active
    simp only [Bool.and_eq_true, beq_iff_eq] at found
    exact found.1
  have own := account row (List.mem_of_find?_eq_some active) token
  simp only [principalOf, active, Option.map_some, own]

theorem activeSession_of_mem {db : Accounts} {token : String} {now : Int} {s : AuthSession} (member : s ∈ db.authSessions)
    (same : s.tokenHash = token) (live : now < s.expires) : ∃ row, activeSession db token now = some row := by
  refine Option.isSome_iff_exists.mp (List.find?_isSome.mpr ⟨s, member, ?_⟩)
  simp [same, live]

/-- What a transaction that changes anything has read again. -/
structure Reread (app : App) (db : Db) (f : Checked) (now : Int) : Prop where
  present : f.mutation.readsSession = true → ∃ s ∈ db.authSessions, s.tokenHash = app.hash f.cookie
  active : f.mutation.readsExpiry = true → ∃ row, activeSession db.toAccounts (app.hash f.cookie) now = some row
  role : f.mutation.readsRole = true →
    ∃ who, principalOf app db.toAccounts f.cookie now = some who ∧ who.role = "super_admin"
  server : f.mutation.readsServer = true → ∀ id, f.mutation.server = some id → ∃ s ∈ db.servers, s.id = id ∧ s.revoked = false

theorem insertAdmin_rereads (cookie username passwordHash : String) (now : Int) (db : Accounts) :
    Ensures (insertAdmin app cookie username passwordHash now) db fun _ after =>
      after = db ∨ ∃ row, activeSession db (app.hash cookie) now = some row := by
  refine ensures_query (ensures_check (fun _ => Or.inl rfl) fun one => ?_)
  refine fun _ _ _ => Or.inr ?_
  simp only [beq_iff_eq] at one
  obtain ⟨row, rows⟩ := List.length_eq_one_iff.mp one
  have member : row ∈ db.authSessions.filter fun row => row.tokenHash == app.hash cookie && row.expires > now :=
    rows ▸ List.mem_singleton_self row
  simp only [List.mem_filter, Bool.and_eq_true, beq_iff_eq, decide_eq_true_eq] at member
  exact activeSession_of_mem member.1 member.2.1 member.2.2

theorem createAdmin_rereads {cookie username password passwordHash : String} {now : Int} {db : Accounts} {stored : Bool}
    (changed : (createAdmin app db cookie username password passwordHash now stored).2 ≠ db) :
    ∃ row, activeSession db (app.hash cookie) now = some row := by
  simp only [createAdmin] at changed
  split at changed
  · exact absurd rfl changed
  · split at changed
    · exact absurd rfl changed
    · exact commit_changed (insertAdmin_rereads cookie username passwordHash now db) changed

theorem removeAdmin_rereads (cookie target : String) (now : Int) (db : Accounts) :
    Ensures (removeAdmin app cookie target now) db fun _ after =>
      after = db ∨ ∃ who, principalOf app db cookie now = some who ∧ who.role = "super_admin" := by
  refine ensures_query (ensures_fromExcept (fun _ _ => Or.inl rfl) fun role found => ?_)
  refine ensures_check (fun _ => Or.inl rfl) fun super => fun _ _ _ => Or.inr ?_
  cases active : activeSession db (app.hash cookie) now with
  | none => simp [active] at found
  | some row =>
    refine ⟨⟨row.username, roleOf db row.username⟩, by simp [principalOf, active], ?_⟩
    simp only [active, Option.map_some, Except.ok.injEq] at found
    simpa [found] using super

theorem terminateSession_rereads {db : Fleet} {authSessions : List AuthSession} {cookieHash server id : String}
    {session : Bytes} {now : Int} {stored : Bool}
    (changed : (terminateSession db authSessions cookieHash server session id now stored).2 ≠ db) :
    (∃ s ∈ authSessions, s.tokenHash = cookieHash) ∧ ∃ s ∈ db.servers, s.id = server ∧ s.revoked = false := by
  obtain ⟨active, answer, ends⟩ :=
    (terminateSession_ends db authSessions cookieHash server session id now stored).resolve_left changed
  generalize (terminateSession _ _ _ _ _ _ _ _).2 = after at changed ends
  refine ⟨?_, ?_⟩
  · cases ends with
    | pending => exact absurd rfl changed
    | forgotten => exact absurd rfl changed
    | added known =>
      obtain ⟨row, found, -⟩ := Option.map_eq_some_iff.mp known
      exact ⟨row, List.mem_of_find?_eq_some found, by simpa using List.find?_some found⟩
  · simp only [canTerminateNow, List.any_eq_true, Bool.and_eq_true, beq_iff_eq] at active
    obtain ⟨_, -, ⟨-, s, member, ⟨⟨⟨own, live⟩, -⟩, -⟩⟩, -⟩ := active
    exact ⟨s, member, own, by simpa using live⟩

theorem perform_rereads {db : Db} {now : Int} {stored : Bool} (changed : (perform app db f now stored).2 ≠ db) :
    Reread app db f now := by
  have accounts : ∀ {after : Accounts}, ({ db with toAccounts := after } : Db) ≠ db → after ≠ db.toAccounts := by
    rintro _ other rfl
    exact other rfl
  have member : ∀ {row}, activeSession db.toAccounts (app.hash f.cookie) now = some row →
      ∃ s ∈ db.authSessions, s.tokenHash = app.hash f.cookie := by
    intro row active
    have found := List.find?_some active
    simp only [Bool.and_eq_true, beq_iff_eq] at found
    exact ⟨row, List.mem_of_find?_eq_some active, found.1⟩
  obtain ⟨m, cookie, who, placed⟩ := f
  cases m with
  | createAdmin username password passwordHash =>
    have active := createAdmin_rereads (accounts changed)
    exact ⟨fun _ => member active.choose_spec, fun _ => active, nofun, nofun⟩
  | deleteAdmin target =>
    have super := commit_changed (removeAdmin_rereads cookie target now db.toAccounts) (accounts changed)
    have active : ∃ row, activeSession db.toAccounts (app.hash cookie) now = some row := by
      obtain ⟨who, found, -⟩ := super
      obtain ⟨row, active, -⟩ := Option.map_eq_some_iff.mp found
      exact ⟨row, active⟩
    exact ⟨fun _ => member active.choose_spec, fun _ => active, fun _ => super, nofun⟩
  | updateAdminAccess => exact ⟨nofun, nofun, nofun, nofun⟩
  | changeFirewall => exact ⟨nofun, nofun, nofun, nofun⟩
  | terminateSession server session id =>
    have fleet : (terminateSession db.toFleet db.authSessions (app.hash cookie) server session id now stored).2 ≠
        db.toFleet := by
      intro same
      exact changed (congrArg (fun fleet => ({ db with toFleet := fleet } : Db)) same)
    obtain ⟨present, live⟩ := terminateSession_rereads fleet
    refine ⟨fun _ => present, nofun, nofun, ?_⟩
    rintro - _ ⟨⟩
    exact live

/-- The login session has not expired, unless the transaction checks that itself. -/
def Timely (app : App) (c : Console) (f : Checked) (now : Int) : Prop :=
  f.mutation.readsExpiry = false → ∀ s ∈ c.admin.db.authSessions, s.tokenHash = app.hash f.cookie → now < s.expires

theorem Standing.permitted {now : Int} {stored : Bool} (standing : Standing app c f) (placed : f.placed = true)
    (timely : Timely app c f now) (changed : (perform app c.db f now stored).2 ≠ c.db) :
    permitted app c.db f.mutation f.cookie now = true := by
  have reread := perform_rereads changed
  have active : ∃ row, activeSession c.admin.db (app.hash f.cookie) now = some row := by
    cases expiry : f.mutation.readsExpiry with
    | true => exact reread.active expiry
    | false =>
      have present : ∃ s ∈ c.admin.db.authSessions, s.tokenHash = app.hash f.cookie := by
        cases session : f.mutation.readsSession with
        | true => exact reread.present session
        | false =>
          obtain ⟨s, member, token, -⟩ := standing.session session
          exact ⟨s, member, token⟩
      obtain ⟨s, member, token⟩ := present
      exact activeSession_of_mem member token (timely expiry s member token)
  obtain ⟨row, active⟩ := active
  cases reads : f.mutation.readsRole with
  | true =>
    obtain ⟨who, found, super⟩ := reread.role reads
    have none_named : f.mutation.server = none := by
      revert reads
      cases f.mutation <;> intro reads <;> first | rfl | cases reads
    have found : principalOf app c.db.toAccounts f.cookie now = some who := found
    simp [SshLogger.permitted, found, super, none_named]
  | false =>
    have who : principalOf app c.db.toAccounts f.cookie now = _ := principalOf_eq active (standing.account reads)
    simp only [SshLogger.permitted, who, Bool.and_eq_true, Bool.or_eq_true, Bool.not_eq_true', beq_iff_eq]
    refine ⟨?_, ?_⟩
    · cases super : f.mutation.isSuper with
      | false => exact Or.inl rfl
      | true => exact Or.inr (standing.role reads super)
    · cases server : f.mutation.server with
      | none => rfl
      | some id =>
        have inside := standing.scope id server (Or.inl placed)
        have live : ∃ s ∈ c.fleet.servers, s.id = id ∧ s.revoked = false := by
          cases again : f.mutation.readsServer with
          | true => exact reread.server again id server
          | false => exact standing.server again id server placed
        obtain ⟨s, member, rfl, unrevoked⟩ := live
        simp only [Option.all_some, List.any_eq_true]
        refine ⟨s, member, ?_⟩
        simp only [isEditable, unrevoked, beq_self_eq_true, Bool.not_false, Bool.true_and]
        exact inside

theorem assignServers_rows {servers : List ServerRow} {target : String} {ids : List String} {before rows : List AdminServer}
    (done : assignServers servers target ids before = some rows) :
    ∀ row ∈ rows, row ∈ before ∨ row.username = target := by
  induction ids generalizing before with
  | nil =>
    obtain rfl := Option.some.inj done
    exact fun _ => Or.inl
  | cons id rest ih =>
    simp only [assignServers] at done
    split at done
    · intro row member
      rcases ih done row member with inserted | own
      · rcases Rows.mem_insertOrIgnore.mp inserted with old | ⟨-, rfl⟩
        · exact Or.inl old
        · exact Or.inr rfl
      · exact Or.inr own
    · cases done

structure Granted (db : Db) (target : String) (after : Db) : Prop where
  known : ∃ a ∈ db.admins, a.username = target
  stored : ∃ role rows, after = { db with
      adminServers := rows, adminRoles := Rows.upsert AdminRole.username ⟨target, role⟩ (fun r => { r with role }) db.adminRoles } ∧
    ∀ row ∈ rows, row ∈ db.adminServers ∨ row.username = target

/-- The last super administrator keeps the role; the old assignments of the account are replaced. -/
theorem grantAccess_ok {db after : Db} {target role : String} {ids : List String} {result : Unit}
    (done : grantAccess db target role ids = .ok (result, after)) : ∃ rows,
      (∃ a ∈ db.admins, a.username = target) ∧
      (role = "super_admin" ∨ ∃ other ∈ db.adminRoles, other.role = "super_admin" ∧ other.username ≠ target) ∧
      (∀ row ∈ rows, row ∈ db.adminServers ∨ row.username = target) ∧
      after = { db with
        adminServers := rows
        adminRoles := Rows.upsert AdminRole.username ⟨target, role⟩ (fun r => { r with role }) db.adminRoles } := by
  simp only [grantAccess] at done
  split at done
  · cases done
  next known =>
    split at done
    · cases done
    next guarded =>
      split at done
      · cases done
      next rows granted =>
        refine ⟨rows, Rows.has_iff.mp (by simpa using known), ?_, ?_, (Prod.mk.inj (Except.ok.inj done)).2.symm⟩
        · refine or_iff_not_imp_left.mpr fun other => ?_
          have another : db.adminRoles.any (fun r => r.role == "super_admin" && r.username != target) = true := by
            simpa [other] using guarded
          simpa using another
        · exact fun row member => (assignServers_rows granted row member).imp (fun old => (Rows.mem_delete.mp old).1) id

theorem updateAdminAccess_ends (db : Db) (target role : String) (ids : List String) (stored : Bool) :
    (updateAdminAccess db target role ids stored).2 = db ∨
      ∃ result, grantAccess db target role ids = .ok (result, (updateAdminAccess db target role ids stored).2) := by
  simp only [updateAdminAccess]
  split
  · exact Or.inl rfl
  · rcases transaction_snd db stored (503, "권한 저장 실패") (grantAccess db target role ids) with kept | ⟨result, done, -⟩
    · exact Or.inl kept
    · exact Or.inr ⟨result, done⟩

theorem updateAdminAccess_cases (db : Db) (target role : String) (ids : List String) (stored : Bool) :
    (updateAdminAccess db target role ids stored).2 = db ∨
      Granted db target (updateAdminAccess db target role ids stored).2 := by
  refine (updateAdminAccess_ends db target role ids stored).imp id ?_
  rintro ⟨result, done⟩
  obtain ⟨rows, known, -, listed, after⟩ := grantAccess_ok done
  exact ⟨known, role, rows, after, listed⟩

/-- A new server is assigned to administrators that exist. -/
theorem createServer_grants (hash : String → String) (db : Db) (who : Principal) (name id token : String) (now : Int)
    (stored : Bool) : ∃ rows, (createServer hash db who name id token now stored).2.toAccounts =
      { db.toAccounts with adminServers := rows } ∧
      ∀ row ∈ rows, row ∈ db.adminServers ∨ ∃ a ∈ db.admins, a.username = row.username := by
  have kept : ∃ rows, db.toAccounts = { db.toAccounts with adminServers := rows } ∧
      ∀ row ∈ rows, row ∈ db.adminServers ∨ ∃ a ∈ db.admins, a.username = row.username :=
    ⟨db.adminServers, rfl, fun _ => Or.inl⟩
  simp only [createServer]
  split
  · exact kept
  · rcases transaction_snd db stored (409, "서버를 등록할 수 없습니다. 중복 이름인지 확인하세요.")
      (insertServer db who id (trimSpace name) (hash token) now) with same | ⟨result, done, -⟩
    · rw [same]
      exact kept
    · generalize (transaction _ _ _ _).2 = after at done ⊢
      simp only [insertServer] at done
      split at done
      · cases done
      · rw [← (Prod.mk.inj (Except.ok.inj done)).2]
        refine ⟨_, rfl, fun row member => ?_⟩
        split at member
        · rcases List.mem_append.mp member with old | new
          · exact Or.inl old
          · obtain ⟨a, chosen, rfl⟩ := List.mem_map.mp new
            exact Or.inr ⟨a, (List.mem_filter.mp chosen).1, rfl⟩
        · exact Or.inl member

/-- The accounts under the console are accounts under their requests. -/
theorem Console.Step.admin (moved : Console.Step app c act next) :
    next.admin = c.admin ∨ ∃ act, Administration.Step app c.admin act next.admin := by
  have assigns : ∀ {db : Accounts} roles servers, db = { c.admin.db with adminRoles := roles, adminServers := servers } →
      ∃ act, Administration.Step app c.admin act { c.admin with db } := by
    rintro _ roles servers rfl
    exact ⟨_, .assign roles servers⟩
  cases moved with
  | account act after _ moved => exact Or.inr ⟨act, moved⟩
  | enter => exact Or.inl rfl
  | place => exact Or.inl rfl
  | updateServer => exact Or.inl rfl
  | changeToken => exact Or.inl rfl
  | ingest => exact Or.inl rfl
  | cleanupFleet => exact Or.inl rfl
  | createServer who name id token now stored =>
    obtain ⟨rows, same, -⟩ := createServer_grants app.hash c.db who name id token now stored
    exact Or.inr (assigns _ _ same)
  | transact f now stored later earlier _ _ fresh =>
    obtain ⟨m, cookie, who, placed⟩ := f
    cases m with
    | createAdmin username password passwordHash =>
      exact Or.inr ⟨_, .createAdmin cookie username password passwordHash now stored (fresh _ rfl)⟩
    | deleteAdmin target => exact Or.inr ⟨_, .deleteAdmin cookie target now stored⟩
    | updateAdminAccess target role servers =>
      rcases updateAdminAccess_cases c.db target role servers stored with same | granted
      · have kept : (updateAdminAccess c.db target role servers stored).2.toAccounts = c.admin.db :=
          congrArg Db.toAccounts same
        exact Or.inr (assigns c.admin.db.adminRoles c.admin.db.adminServers kept)
      · obtain ⟨role, rows, same, -⟩ := granted.stored
        exact Or.inr (assigns _ _ (congrArg Db.toAccounts same))
    | changeFirewall => exact Or.inl rfl
    | terminateSession => exact Or.inl rfl

theorem console_admin {history} (run : Run (console app) history c) :
    ∃ acts, Run (administration app) acts c.admin := by
  induction run with
  | start started => exact ⟨[], .start started.1⟩
  | next _ moved ih =>
    obtain ⟨acts, earlier⟩ := ih
    rcases Console.Step.admin moved with same | ⟨act, step⟩
    · exact ⟨acts, same ▸ earlier⟩
    · exact ⟨_, earlier.next step⟩

theorem Standing.congr (standing : Standing app c f) (admin : next.admin = c.admin) (fleet : next.fleet = c.fleet) :
    Standing app next f := by
  obtain ⟨session, account, role, scope, server⟩ := standing
  rw [← admin] at session account role scope
  rw [← fleet] at server
  exact ⟨session, account, role, scope, server⟩

/-- A request that has just passed `App.auth` and `App.super`. -/
theorem enter_standing {site : Site} {m : Mutation} {r : Headers} {now : Int} (unique : TokensUnique c.admin.db)
    (entered : enter app site c.admin.db m r now = .ok f) : Standing app c f := by
  simp only [enter] at entered
  split at entered
  · cases entered
  next cookie who passed =>
    split at entered
    · cases entered
    next super =>
      obtain rfl := Except.ok.inj entered
      simp only [auth] at passed
      split at passed
      · cases passed
      · split at passed
        · cases passed
        next row active =>
          split at passed
          · cases passed
          · obtain ⟨rfl, rfl⟩ := Prod.mk.inj (Except.ok.inj passed)
            have found := List.find?_some active
            simp only [Bool.and_eq_true, beq_iff_eq] at found
            have member := List.mem_of_find?_eq_some active
            refine ⟨fun _ => ⟨row, member, found.1, rfl⟩, ?_, ?_, ?_, ?_⟩
            · intro _ s also token
              rw [unique s also row member (token.trans found.1.symm)]
            · intro _ only
              simp only [only, if_true, superOnly] at super
              split at super
              · cases super
              next equal => simpa using equal
            · rintro id named (placed | role)
              · simp [named] at placed
              · simp only at role
                simp [scope, role]
            · intro _ id named placed
              simp [named] at placed

theorem enterServer_ok {db : Db} {g : Checked} (placed : enterServer db f = .ok g) : g = { f with placed := true } := by
  simp only [enterServer] at placed
  split at placed
  · exact (Except.ok.inj placed).symm
  · simp only [assigned] at placed
    split at placed
    · exact (Except.ok.inj placed).symm
    · cases placed

/-- A request that has just passed `App.assigned`. -/
theorem enterServer_standing {g : Checked} (standing : Standing app c f) (placed : enterServer c.db f = .ok g) :
    Standing app c g := by
  simp only [enterServer] at placed
  split at placed
  next unnamed =>
    obtain rfl := Except.ok.inj placed
    refine ⟨standing.session, standing.account, standing.role, ?_, ?_⟩
    · intro id named
      simp [unnamed] at named
    · intro _ id named
      simp [unnamed] at named
  next id named =>
    simp only [assigned] at placed
    split at placed
    next editable =>
      obtain rfl := Except.ok.inj placed
      simp only [List.any_eq_true, isEditable, Bool.and_eq_true, beq_iff_eq, Bool.not_eq_true'] at editable
      obtain ⟨s, member, ⟨own, live⟩, inside⟩ := editable
      refine ⟨standing.session, standing.account, standing.role, ?_, ?_⟩
      · intro other also _
        obtain rfl : id = other := Option.some.inj (named.symm.trans also)
        rw [own] at inside
        simp only [SshLogger.scope, Bool.or_eq_true, beq_iff_eq] at inside
        rcases inside with super | among
        · exact standing.scope id named (Or.inr super)
        · simp only [SshLogger.scope, Bool.or_eq_true]
          exact Or.inr among
      · intro _ other also _
        obtain rfl : id = other := Option.some.inj (named.symm.trans also)
        exact ⟨s, member, own, live⟩
    · cases placed

theorem Console.Step.waits (moved : Console.Step app c act next) {g : Checked} (member : g ∈ next.waiting) :
    g ∈ c.waiting ∨ next.admin = c.admin ∧ next.fleet = c.fleet ∧
      ((∃ site m r now, SshLogger.enter app site c.admin.db m r now = .ok g) ∨
        ∃ f ∈ c.waiting, enterServer c.db f = .ok g) := by
  cases moved with
  | enter site m r now _ =>
    simp only at member
    split at member
    next f entered =>
      rcases List.mem_cons.mp member with rfl | old
      · exact Or.inr ⟨rfl, rfl, Or.inl ⟨site, m, r, now, entered⟩⟩
      · exact Or.inl old
    · exact Or.inl member
  | place f later earlier split_at =>
    have kept : ∀ {g}, g ∈ later ++ earlier → g ∈ c.waiting := by
      intro g there
      rw [split_at]
      exact List.mem_append.mpr ((List.mem_append.mp there).imp id (List.mem_cons_of_mem f))
    simp only at member
    split at member
    next placed done =>
      rcases List.mem_cons.mp member with rfl | old
      · exact Or.inr ⟨rfl, rfl, Or.inr ⟨f, split_at ▸ by simp, done⟩⟩
      · exact Or.inl (kept old)
    · exact Or.inl (kept member)
  | transact f now stored later earlier split_at =>
    refine Or.inl ?_
    rw [split_at]
    exact List.mem_append.mpr ((List.mem_append.mp member).imp id (List.mem_cons_of_mem f))
  | createServer =>
    simp only [Console.commit] at member
    exact Or.inl member
  | _ => exact Or.inl member

theorem Console.Step.transacts {now : Int} {stored : Bool} (moved : Console.Step app c (.transact f now stored) next) :
    f ∈ c.waiting ∧ f.placed = true := by
  cases moved with
  | transact _ _ _ later earlier split_at placed _ =>
    rw [split_at]
    exact ⟨List.mem_append_right _ List.mem_cons_self, placed⟩

/-- While the request waits, the step takes nothing from it that its transaction
does not read again. -/
def Undisturbed (app : App) (f : Checked) (t : Transition Console ConsoleAct) : Prop :=
  ∀ placed, { f with placed } ∈ t.before.waiting → { f with placed } ∈ t.after.waiting →
    Standing app t.before { f with placed } → Standing app t.after { f with placed }

theorem waiting_standing {history} (run : Run (console app) history c) (undisturbed : ∀ t ∈ history, Undisturbed app f t) :
    ∀ placed, { f with placed } ∈ c.waiting → Standing app c { f with placed } := by
  induction run with
  | start started =>
    intro placed member
    rw [started.2] at member
    exact absurd member List.not_mem_nil
  | @next history c act next earlier moved ih =>
    have standing := ih fun t member => undisturbed t (List.mem_cons_of_mem _ member)
    obtain ⟨acts, accounts⟩ := console_admin earlier
    intro placed member
    rcases Console.Step.waits moved member with old | ⟨admin, fleet, ⟨site, m, r, now, entered⟩ | ⟨g, there, done⟩⟩
    · exact undisturbed _ List.mem_cons_self placed old member (standing placed old)
    · exact (enter_standing (tokens_unique accounts) entered).congr admin fleet
    · -- the request was the same before it was placed
      have same : { f with placed := g.placed } = g := by
        have shape : { f with placed } = { g with placed := true } := enterServer_ok done
        cases f
        cases g
        simp only [Checked.mk.injEq] at shape ⊢
        exact ⟨shape.1, shape.2.1, shape.2.2.1, trivial⟩
      have before := standing g.placed (same ▸ there)
      rw [same] at before
      exact (enterServer_standing before done).congr admin fleet

def Commits (app : App) (f : Checked) (now : Int) (t : Transition Console ConsoleAct) : Prop :=
  ∃ stored, t.action = .transact f now stored ∧ (perform app t.before.db f now stored).2 ≠ t.before.db

theorem changes_authorized {later older} {t : Transition Console ConsoleAct} {now : Int}
    (run : Run (console app) (later ++ t :: older) c) (commits : Commits app f now t)
    (undisturbed : ∀ s ∈ older, Undisturbed app f s) (timely : Timely app t.before f now) :
    permitted app t.before.db f.mutation f.cookie now = true := by
  obtain ⟨stored, action, changed⟩ := commits
  obtain ⟨before, moved⟩ := run.at_transition
  rw [action] at moved
  obtain ⟨waits, placed⟩ := Console.Step.transacts moved
  exact (waiting_standing before undisturbed f.placed waits).permitted placed timely changed

/-- A super administrator is demoted between the checks of a request and its
transaction. -/
def consoleStart : Console where
  admin := { opsStart with
    db := { opsStart.db with
      admins := [⟨"ops", "$first password"⟩, ⟨"dev", "$second password"⟩]
      adminRoles := [⟨"ops", "super_admin"⟩, ⟨"dev", "super_admin"⟩] }
    minted := ["$first password", "$second password"] }
  fleet := emptyFleet
  waiting := []

def devLogin : LoginRequest := ⟨"https://logs", "10.0.0.2", "dev", "second password"⟩

def sessionHeaders (n : String) : Headers := ⟨some ("t" ++ n), "https://logs", "x" ++ n, false⟩

/-- The request of `dev`, past its checks. -/
def hireRequest : Checked :=
  ⟨.createAdmin "guest" "third password" "$third password", "t1", ⟨"dev", "super_admin"⟩, true⟩

/-- The request of `ops`, past its checks. -/
def demoteRequest : Checked := ⟨.updateAdminAccess "dev" "admin" [], "t2", ⟨"ops", "super_admin"⟩, true⟩

/-- `dev` has logged in and asked for a new account. -/
def askedRun : { p : List (Transition Console ConsoleAct) × Console //
    Run (console plainApp) p.1 p.2 ∧ ∀ t ∈ p.1, t.before.waiting = [] } := by
  have start : Run (console plainApp) [] consoleStart :=
    .start ⟨⟨rfl, rfl, rfl, by unfold Rows.Unique; decide +kernel, by decide +kernel, rfl, rfl, rfl, rfl⟩, rfl⟩
  have asked := start.next (.account _ _ rfl (.admitLogin plainSite devLogin 1000))
  have verified := asked.next (.account _ _ rfl (.verifyLogin devLogin (by decide +kernel)))
  have opened := verified.next (.account _ _ rfl
    (.login plainSite ⟨"dev", "$second password", "10.0.0.2"⟩ (authIds "1") 2000 true (by decide +kernel)))
  have entered := opened.next (.enter plainSite hireRequest.mutation (sessionHeaders "1") 3000 rfl)
  refine ⟨(_, _), entered, ?_⟩
  simp only [List.forall_mem_cons]
  exact ⟨rfl, rfl, rfl, rfl, fun _ member => absurd member List.not_mem_nil⟩

/-- `ops` has logged in meanwhile and taken the role from `dev`. -/
def demotedRun : { p : List (Transition Console ConsoleAct) × Console //
    Run (console plainApp) p.1 p.2 ∧ p.2.waiting = [hireRequest] } := by
  have asked := askedRun.property.1.next (.account _ _ rfl (.admitLogin plainSite opsLogin 4000))
  have verified := asked.next (.account _ _ rfl (.verifyLogin opsLogin (by decide +kernel)))
  have opened := verified.next (.account _ _ rfl (.login plainSite opsVerified (authIds "2") 5000 true (by decide +kernel)))
  have entered := opened.next (.enter plainSite demoteRequest.mutation (sessionHeaders "2") 6000 rfl)
  have demoted := entered.next (.transact demoteRequest 7000 true [] [hireRequest] (by decide +kernel) rfl nofun)
  exact ⟨(_, _), demoted, by decide +kernel⟩

theorem change_unauthorized : ¬ ∀ (app : App) (older : List (Transition Console ConsoleAct))
    (t : Transition Console ConsoleAct) (c : Console) (f : Checked) (now : Int),
    Run (console app) (t :: older) c → Commits app f now t → permitted app t.before.db f.mutation f.cookie now = true := by
  intro authorized
  have hired := demotedRun.property.1.next
    (.transact hireRequest 8000 true [] [] demotedRun.property.2 rfl (by rintro _ ⟨⟩; decide +kernel))
  have answer := authorized _ _ _ _ hireRequest 8000 hired ⟨true, rfl, by decide +kernel⟩
  exact absurd answer (by decide +kernel)

/-- Without the demotion the account is created with the right to. -/
theorem changes_authorized_hired : ∃ c now, Run (console plainApp) askedRun.val.1 c ∧
    permitted plainApp c.db hireRequest.mutation hireRequest.cookie now = true := by
  have hired := askedRun.property.1.next
    (.transact hireRequest 8000 true [] [] (by decide +kernel) rfl (by rintro _ ⟨⟩; decide +kernel))
  refine ⟨_, 8000, askedRun.property.1, @changes_authorized plainApp _ hireRequest [] _ _ 8000 hired
    ⟨true, rfl, by decide +kernel⟩ ?_ nofun⟩
  intro t member placed there
  rw [askedRun.property.2 t member] at there
  exact absurd there List.not_mem_nil

end SshLogger
