import SshLogger.Proofs.Authorization
import SshLogger.Proofs.Frame

/-! A deleted account leaves no row behind, takes no row of another account with
it, and no request that is still under way brings one back: every row about an
account is written by a transaction that has found the account. -/

namespace SshLogger
open Library Library.Transaction Library.History

variable {app : App} {db after : Accounts} {target : String}

def withoutAdmin (db : Accounts) (target : String) : Accounts :=
  { db with
    authSessions := Rows.delete (fun row => row.username == target) db.authSessions
    adminServers := Rows.delete (fun row => row.username == target) db.adminServers
    adminRoles := Rows.delete (fun row => row.username == target) db.adminRoles
    admins := Rows.delete (fun row => row.username == target) db.admins
    accountAuth := Rows.delete (fun row => row.username == target) db.accountAuth
    passkeys := Rows.delete (fun row => row.username == target) db.passkeys
    authPending := Rows.delete (fun row => row.username == target) db.authPending }

structure Gone (db : Accounts) (target : String) : Prop where
  admins : ∀ a ∈ db.admins, a.username ≠ target
  roles : ∀ row ∈ db.adminRoles, row.username ≠ target
  servers : ∀ row ∈ db.adminServers, row.username ≠ target
  sessions : ∀ s ∈ db.authSessions, s.username ≠ target
  auth : ∀ row ∈ db.accountAuth, row.username ≠ target
  passkeys : ∀ k ∈ db.passkeys, k.username ≠ target
  pending : ∀ row ∈ db.authPending, row.username ≠ target

def others {ρ : Type} (owner : ρ → String) (target : String) (rows : List ρ) : List ρ :=
  rows.filter fun row => owner row != target

/-- The rows of every other account, and the counters of failed attempts, are as they were. -/
structure Spared (db after : Accounts) (target : String) : Prop where
  admins : others Admin.username target after.admins = others Admin.username target db.admins
  roles : others AdminRole.username target after.adminRoles = others AdminRole.username target db.adminRoles
  servers : others AdminServer.username target after.adminServers = others AdminServer.username target db.adminServers
  sessions : others AuthSession.username target after.authSessions = others AuthSession.username target db.authSessions
  auth : others AccountAuth.username target after.accountAuth = others AccountAuth.username target db.accountAuth
  passkeys : others Passkey.username target after.passkeys = others Passkey.username target db.passkeys
  pending : others AuthPending.username target after.authPending = others AuthPending.username target db.authPending
  limits : after.authLimits = db.authLimits
  attempts : after.loginAttempts = db.loginAttempts

theorem deleted_none {ρ : Type} (owner : ρ → String) (target : String) (rows : List ρ) :
    ∀ row ∈ Rows.delete (fun row => owner row == target) rows, owner row ≠ target :=
  fun _ member => by simpa using (Rows.mem_delete.mp member).2

theorem deleted_others {ρ : Type} (owner : ρ → String) (target : String) (rows : List ρ) :
    others owner target (Rows.delete (fun row => owner row == target) rows) = others owner target rows := by
  simp only [others, Rows.delete, List.filter_filter]
  refine List.filter_congr fun row _ => ?_
  cases same : owner row == target <;> simp [bne, same]

theorem withoutAdmin_gone (db : Accounts) (target : String) : Gone (withoutAdmin db target) target :=
  ⟨deleted_none _ _ _, deleted_none _ _ _, deleted_none _ _ _, deleted_none _ _ _, deleted_none _ _ _,
    deleted_none _ _ _, deleted_none _ _ _⟩

theorem withoutAdmin_spared (db : Accounts) (target : String) : Spared db (withoutAdmin db target) target :=
  ⟨deleted_others _ _ _, deleted_others _ _ _, deleted_others _ _ _, deleted_others _ _ _, deleted_others _ _ _,
    deleted_others _ _ _, deleted_others _ _ _, rfl, rfl⟩

theorem removeAdmin_deletes (cookie target : String) (now : Int) (db : Accounts) :
    Ensures (removeAdmin app cookie target now) db (Outcome db fun after => after = withoutAdmin db target) := by
  have unchanged := (Quiet.refl db).calm
  refine ensures_query (ensures_fromExcept (fun _ _ => unchanged) fun role _ => ?_)
  refine ensures_check (fun _ => unchanged) fun _ => ensures_query (ensures_check (fun _ => unchanged) fun _ => ?_)
  refine ensures_query (ensures_check (fun _ => unchanged) fun _ => ?_)
  rintro _ _ ⟨⟩
  rfl

/-- A new account has nothing but its password. -/
theorem createAdmin_cases (db : Accounts) (cookie username password passwordHash : String) (now : Int) (stored : Bool) :
    (createAdmin app db cookie username password passwordHash now stored).2 = db ∨
      (createAdmin app db cookie username password passwordHash now stored).1 = .ok () ∧
        (createAdmin app db cookie username password passwordHash now stored).2 =
          { db with admins := db.admins ++ [⟨username, passwordHash⟩] } := by
  have inserts : Ensures (insertAdmin app cookie username passwordHash now) db fun result after =>
      after = db ∨ result = .ok () ∧ after = { db with admins := db.admins ++ [⟨username, passwordHash⟩] } := by
    refine ensures_query (ensures_check (fun _ => Or.inl rfl) fun _ => ensures_query ?_)
    refine ensures_check (fun _ => Or.inl rfl) fun _ => ?_
    rintro _ _ ⟨⟩
    exact Or.inr ⟨rfl, rfl⟩
  simp only [createAdmin]
  split
  · exact Or.inl rfl
  · split
    · exact Or.inl rfl
    · rcases commit_ensures inserts with kept | done
      · exact Or.inl (congrArg Prod.snd kept)
      · exact done

theorem Gone.unknown (gone : Gone db target) : hashOf db target = none := hashOf_eq_none.mpr gone.admins

/-- Sessions, keys and requests are only made for an account that has a password. -/
theorem Gone.effect {act : AdminAct} (gone : Gone db target) (effect : AdminEffect app db after act)
    (framed : Framed db after) : Gone after target := by
  refine ⟨?_, ?_, ?_, ?_, ?_, ?_, ?_⟩
  · intro a member own
    obtain ⟨old, there, same⟩ := framed.admins a member
    exact gone.admins old there (same.trans own)
  · exact fun row member => gone.roles row (framed.roles row member)
  · exact fun row member => gone.servers row (framed.servers row member)
  · rintro s member rfl
    rcases effect.session member with old | new
    · exact gone.sessions s old rfl
    · exact new.known gone.unknown
  · rintro row member rfl
    rcases framed.auth row member with ⟨old, there, same⟩ | ⟨a, there, same⟩
    · exact gone.auth old there same
    · exact gone.admins a there same
  · have none_before : keysOf db target = [] := keysOf_eq_nil.mpr gone.passkeys
    refine keysOf_eq_nil.mp ?_
    cases effect.keys target with
    | kept _ same => exact same.trans none_before
    | finished row u claimed own _ _ _ =>
      have known := claimed.loaded.hash
      rw [← claimed.name, own, gone.unknown] at known
      cases known
    | deleted none_left _ => exact none_left
    | reset none_left _ => exact none_left
  · rintro row member rfl
    rcases effect.pending member with old | new
    · exact gone.pending row old rfl
    · have known := new.known
      rw [gone.unknown] at known
      cases known

theorem Gone.admin {w next : Administration} {act : AdminAct} (gone : Gone w.db target)
    (moved : Administration.Step app w act next) (other : isGrowing act = false) : Gone next.db target :=
  gone.effect (admin_effect moved) (step_framed moved other)

/-- Failed logins are counted whether or not there is such an account. -/
theorem Gone.account {w next : Administration} {act : AdminAct} (gone : Gone w.db target)
    (moved : Administration.Step app w act next) (other : isRouted act = false) : Gone next.db target := by
  cases growing : isGrowing act with
  | false => exact gone.admin moved growing
  | true =>
    cases moved with
    | failLogin ip now stored =>
      simp only [failLogin_stored]
      split
      · exact ⟨gone.admins, gone.roles, gone.servers, gone.sessions, gone.auth, gone.passkeys, gone.pending⟩
      · exact gone
    | createAdmin => cases other
    | assign => cases other
    | _ => cases growing

variable {c next : Console} {act : ConsoleAct}

def Fulfils (app : App) (wanted : Mutation → Prop) (t : Transition Console ConsoleAct) : Prop :=
  ∃ f now stored answer, t.action = .transact f now stored ∧ wanted f.mutation ∧
    (perform app t.before.db f now stored).1 = .ok answer

def createsAdmin (target : String) : Mutation → Prop
  | .createAdmin username _ _ => username = target
  | _ => False

def deletesAdmin (target : String) : Mutation → Prop
  | .deleteAdmin username => username = target
  | _ => False

/-- No change but the creation of the account itself brings a row of it back. -/
theorem Gone.perform {f : Checked} {now : Int} {stored : Bool} (gone : Gone c.admin.db target)
    (uncreated : createsAdmin target f.mutation → ∀ answer, (perform app c.db f now stored).1 ≠ .ok answer) :
    Gone (perform app c.db f now stored).2.toAccounts target := by
  obtain ⟨m, cookie, who, placed⟩ := f
  cases m with
  | createAdmin username password passwordHash =>
    show Gone (createAdmin app c.admin.db cookie username password passwordHash now stored).2 target
    rcases @createAdmin_cases app c.admin.db cookie username password passwordHash now stored with
      same | ⟨done, same⟩
    all_goals rw [same]
    · exact gone
    · refine ⟨?_, gone.roles, gone.servers, gone.sessions, gone.auth, gone.passkeys, gone.pending⟩
      intro a member own
      rcases List.mem_append.mp member with old | new
      · exact gone.admins a old own
      · obtain rfl := List.mem_singleton.mp new
        exact uncreated own username (congrArg (Except.map fun _ => username) done)
  | deleteAdmin other =>
    exact gone.admin (.deleteAdmin (w := c.admin) cookie other now stored) rfl
  | updateAdminAccess other role servers =>
    show Gone (updateAdminAccess c.db other role servers stored).2.toAccounts target
    rcases updateAdminAccess_cases c.db other role servers stored with same | granted
    · rw [same]
      exact gone
    · obtain ⟨a, there, named⟩ := granted.known
      have different : other ≠ target := fun own => gone.admins a there (named.trans own)
      obtain ⟨_, rows, same, owned⟩ := granted.stored
      rw [same]
      refine ⟨gone.admins, ?_, ?_, gone.sessions, gone.auth, gone.passkeys, gone.pending⟩
      · intro row member
        rcases Rows.mem_upsert member with ⟨old, -⟩ | ⟨-, rfl⟩ | ⟨old, there, own, rfl⟩
        · exact gone.roles row old
        · exact different
        · exact gone.roles old there
      · intro row member
        rcases owned row member with old | own
        · exact gone.servers row old
        · exact own ▸ different
  | changeFirewall => exact gone
  | terminateSession => exact gone

theorem Gone.step (gone : Gone c.admin.db target) (moved : Console.Step app c act next)
    (uncreated : ¬ Fulfils app (createsAdmin target) ⟨c, act, next⟩) : Gone next.admin.db target := by
  cases moved with
  | account act after other moved => exact gone.account moved other
  | createServer who name id token now stored =>
    obtain ⟨rows, same, granted⟩ := createServer_grants app.hash c.db who name id token now stored
    simp only [Console.commit, same]
    refine ⟨gone.admins, gone.roles, ?_, gone.sessions, gone.auth, gone.passkeys, gone.pending⟩
    rintro row member rfl
    rcases granted row member with old | ⟨a, there, own⟩
    · exact gone.servers row old rfl
    · exact gone.admins a there own
  | transact f now stored later earlier split_at placed fresh =>
    exact gone.perform fun creates answer answered => uncreated ⟨f, now, stored, answer, rfl, creates, answered⟩
  | enter => exact gone
  | place => exact gone
  | updateServer => exact gone
  | changeToken => exact gone
  | ingest => exact gone
  | cleanupFleet => exact gone

/-- A request to delete the account that succeeds drops exactly its rows. -/
theorem Fulfils.erased (deleted : Fulfils app (deletesAdmin target) ⟨c, act, next⟩) (moved : Console.Step app c act next) :
    next.admin.db = withoutAdmin c.admin.db target ∧ next.fleet = c.fleet := by
  obtain ⟨⟨m, cookie, who, placed⟩, now, stored, answer, rfl, wanted, answered⟩ := deleted
  cases m with
  | deleteAdmin other =>
    obtain rfl : other = target := wanted
    have succeeded : ∃ value, (deleteAdmin app c.admin.db cookie other now stored).1 = .ok value := by
      have answered : ((deleteAdmin app c.admin.db cookie other now stored).1.map fun _ => other) = .ok answer := answered
      cases result : (deleteAdmin app c.admin.db cookie other now stored).1 with
      | error problem => rw [result] at answered; cases answered
      | ok value => exact ⟨value, rfl⟩
    obtain ⟨value, succeeded⟩ := succeeded
    have erased := commit_done (removeAdmin_deletes cookie other now c.admin.db) succeeded
    cases moved with
    | transact => exact ⟨erased, rfl⟩
  | _ => exact wanted.elim

theorem deletion_final {later older} {t : Transition Console ConsoleAct}
    (run : Run (console app) (later ++ t :: older) c) (deleted : Fulfils app (deletesAdmin target) t) :
    Gone t.after.admin.db target ∧ Spared t.before.admin.db t.after.admin.db target ∧ t.after.fleet = t.before.fleet ∧
      ((∀ s ∈ later, ¬ Fulfils app (createsAdmin target) s) → Gone c.admin.db target) := by
  obtain ⟨erased, fleet⟩ := deleted.erased run.at_transition.2
  have gone : Gone t.after.admin.db target := erased ▸ withoutAdmin_gone _ _
  refine ⟨gone, erased ▸ withoutAdmin_spared _ _, fleet, fun uncreated => ?_⟩
  refine run.persists_while (fun c => Gone c.admin.db target) (fun s => ¬ Fulfils app (createsAdmin target) s) gone uncreated ?_
  exact fun _ _ _ _ _ gone still moved => gone.step moved still

/-- The demoted administrator is deleted while a request of that account waits. -/
def deleteRequest : Checked := ⟨.deleteAdmin "dev", "t2", ⟨"ops", "super_admin"⟩, true⟩

theorem deletion_final_dismissed : ∃ c : Console, (∃ history, Run (console plainApp) history c) ∧ Gone c.admin.db "dev" ∧
    others Admin.username "dev" c.admin.db.admins ≠ [] := by
  have asked := demotedRun.property.1.next (.enter plainSite deleteRequest.mutation (sessionHeaders "2") 8000 rfl)
  have dismissed := asked.next (.transact deleteRequest 9000 true [] [hireRequest] (by decide +kernel) rfl nofun)
  have refused := dismissed.next (.transact hireRequest 10000 true [] [] (by decide +kernel) rfl
    (by rintro _ ⟨⟩; decide +kernel))
  have final := @deletion_final plainApp "dev" _ [_] _ _ refused
    ⟨deleteRequest, 9000, true, "dev", rfl, rfl, by decide +kernel⟩
  refine ⟨_, ⟨_, refused⟩, final.2.2.2 ?_, by decide +kernel⟩
  rintro _ (_ | ⟨_, ⟨⟩⟩) ⟨_, _, _, _, ⟨⟩, creates, -⟩
  have same : "guest" = "dev" := creates
  exact absurd same (by decide)

end SshLogger
