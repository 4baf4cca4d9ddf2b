import SshLogger.Proofs.Authorization
import SshLogger.Proofs.Frame

/-! There is always a super administrator. The last one cannot be demoted, because
the change counts the others in its transaction, and none can be deleted. The
roles its caller had at the middleware do not matter. -/

namespace SshLogger
open Library Library.Transaction Library.History

variable {app : App}

/-- The primary key of the roles, and what roles and assignments refer to. -/
structure Referring (db : Accounts) : Prop where
  roles : Rows.Unique AdminRole.username db.adminRoles
  holders : ∀ row ∈ db.adminRoles, ∃ a ∈ db.admins, a.username = row.username
  assignees : ∀ row ∈ db.adminServers, ∃ a ∈ db.admins, a.username = row.username

def Supervised (db : Accounts) : Prop :=
  ∃ a ∈ db.admins, ∃ row ∈ db.adminRoles, row.username = a.username ∧ row.role = "super_admin"

theorem Referring.supervised {db : Accounts} (referring : Referring db) {row : AdminRole} (member : row ∈ db.adminRoles)
    (super : row.role = "super_admin") : Supervised db := by
  obtain ⟨a, known, own⟩ := referring.holders row member
  exact ⟨a, known, row, member, own.symm, super⟩

def Governed (db : Accounts) : Prop := Referring db ∧ Supervised db

variable {db after : Accounts}

/-- Accounts may be added as long as roles and assignments stay as they are. -/
theorem Governed.grow (governed : Governed db) (admins : ∀ a ∈ db.admins, ∃ kept ∈ after.admins, kept.username = a.username)
    (roles : after.adminRoles = db.adminRoles)
    (servers : ∀ row ∈ after.adminServers, row ∈ db.adminServers ∨ ∃ a ∈ db.admins, a.username = row.username) :
    Governed after := by
  obtain ⟨⟨unique, holders, assignees⟩, a, known, row, member, own, super⟩ := governed
  have still : ∀ {username}, (∃ a ∈ db.admins, a.username = username) → ∃ a ∈ after.admins, a.username = username := by
    rintro _ ⟨a, known, rfl⟩
    exact admins a known
  refine ⟨⟨?_, ?_, ?_⟩, ?_⟩
  · rw [roles]
    exact unique
  · rw [roles]
    exact fun row member => still (holders row member)
  · exact fun row member => still ((servers row member).elim (assignees row) id)
  · obtain ⟨kept, there, same⟩ := admins a known
    exact ⟨kept, there, row, roles ▸ member, own.trans same.symm, super⟩

theorem Steady.governed (steady : Steady db after) (governed : Governed db) : Governed after :=
  governed.grow (fun a member => steady.known.mpr ⟨a, member, rfl⟩) steady.roles
    fun _ member => Or.inl (steady.servers ▸ member)

/-- The deleted account held no role of a super administrator. -/
theorem Struck.governed {target : String} (struck : Struck db after target) (governed : Governed db) : Governed after := by
  obtain ⟨⟨unique, holders, assignees⟩, a, known, row, member, own, super⟩ := governed
  have other : row.username ≠ target := by
    rintro rfl
    refine struck.ordinary ?_
    rw [roleOf, unique.find? member]
    exact super
  have still : ∀ {username}, username ≠ target → (∃ a ∈ db.admins, a.username = username) →
      ∃ a ∈ after.admins, a.username = username := by
    rintro _ different ⟨a, known, rfl⟩
    exact ⟨a, struck.admins ▸ Rows.mem_delete.mpr ⟨known, by simpa using different⟩, rfl⟩
  refine ⟨⟨?_, ?_, ?_⟩, ?_⟩
  · rw [struck.roles]
    exact unique.delete _
  · intro role left
    obtain ⟨old, kept⟩ := Rows.mem_delete.mp (struck.roles ▸ left)
    exact still (by simpa using kept) (holders role old)
  · intro assigned left
    obtain ⟨old, kept⟩ := Rows.mem_delete.mp (struck.servers ▸ left)
    exact still (by simpa using kept) (assignees assigned old)
  · obtain ⟨kept, there, same⟩ := still (own ▸ other) ⟨a, known, rfl⟩
    refine ⟨kept, there, row, ?_, own.trans same.symm, super⟩
    exact struck.roles ▸ Rows.mem_delete.mpr ⟨member, by simpa using other⟩

theorem createAdmin_governed (cookie username password passwordHash : String) (now : Int) (stored : Bool)
    (governed : Governed db) : Governed (createAdmin app db cookie username password passwordHash now stored).2 := by
  have inserts : Ensures (insertAdmin app cookie username passwordHash now) db fun _ after => Governed after := by
    refine ensures_query (ensures_check (fun _ => governed) fun _ => ensures_query ?_)
    refine ensures_check (fun _ => governed) fun _ => ?_
    rintro _ _ ⟨⟩
    exact governed.grow (fun a member => ⟨a, List.mem_append_left _ member, rfl⟩) rfl fun _ => Or.inl
  simp only [createAdmin]
  split
  · exact governed
  · split
    · exact governed
    · exact (commit_ensures inserts).elim (fun kept => by rw [kept]; exact governed) id

theorem deleteAdmin_governed (cookie target : String) (now : Int) (stored : Bool) (governed : Governed db) :
    Governed (deleteAdmin app db cookie target now stored).2 := by
  rcases deleteAdmin_struck app db cookie target now stored with kept | struck
  · rw [kept]
    exact governed
  · exact struck.governed governed

/-- Whoever loses the role leaves another who has it. -/
theorem grantAccess_governed {db after : Db} {target role : String} {ids : List String} {result : Unit}
    (done : grantAccess db target role ids = .ok (result, after)) (governed : Governed db.toAccounts) :
    Governed after.toAccounts := by
  obtain ⟨rows, known, another, listed, rfl⟩ := grantAccess_ok done
  obtain ⟨⟨unique, holders, assignees⟩, -⟩ := governed
  have referring : Referring { db with
      adminServers := rows
      adminRoles := Rows.upsert AdminRole.username ⟨target, role⟩ (fun r => { r with role }) db.adminRoles }.toAccounts := by
    refine ⟨unique.upsert _ fun _ => rfl, ?_, ?_⟩
    · intro row member
      rcases Rows.mem_upsert member with ⟨old, -⟩ | ⟨-, rfl⟩ | ⟨old, there, -, rfl⟩
      · exact holders row old
      · exact known
      · exact holders old there
    · intro row member
      rcases listed row member with old | own
      · exact assignees row old
      · exact own ▸ known
  refine ⟨referring, ?_⟩
  rcases another with rfl | ⟨other, member, super, different⟩
  · have added : ∃ row ∈ Rows.upsert AdminRole.username ⟨target, "super_admin"⟩
        (fun r => { r with role := "super_admin" }) db.adminRoles, row.username = target :=
      Rows.exists_upsert_self (fun old => (rfl : (⟨old.username, "super_admin"⟩ : AdminRole).username = old.username)) _ _
    obtain ⟨row, member, own⟩ := added
    refine referring.supervised member ?_
    rcases Rows.mem_upsert member with ⟨-, other⟩ | ⟨-, rfl⟩ | ⟨_, -, -, rfl⟩
    · exact absurd own other
    · rfl
    · rfl
  · exact referring.supervised (Rows.mem_upsert_of_ne member different) super

theorem account_governed {w next : Administration} {act : AdminAct} (moved : Administration.Step app w act next)
    (other : isRouted act = false) (governed : Governed w.db) : Governed next.db := by
  cases growing : isGrowing act with
  | true =>
    cases moved with
    | failLogin ip now stored =>
      dsimp only
      rw [failLogin_stored]
      split
      · exact governed.grow (fun a member => ⟨a, member, rfl⟩) rfl fun _ => Or.inl
      · exact governed
    | createAdmin => cases other
    | assign => cases other
    | _ => cases growing
  | false =>
    have kept : isDeletion act = false := by
      cases act with
      | deleteAdmin => cases other
      | _ => rfl
    exact (step_steady moved growing kept).governed governed

variable {c next : Console} {act : ConsoleAct}

theorem perform_governed (f : Checked) (now : Int) (stored : Bool) (governed : Governed c.db.toAccounts) :
    Governed (perform app c.db f now stored).2.toAccounts := by
  obtain ⟨m, cookie, who, placed⟩ := f
  cases m with
  | createAdmin username password passwordHash => exact createAdmin_governed _ _ _ _ now stored governed
  | deleteAdmin target => exact deleteAdmin_governed cookie target now stored governed
  | updateAdminAccess target role servers =>
    dsimp only [perform]
    rcases updateAdminAccess_ends c.db target role servers stored with same | ⟨result, done⟩
    · rw [same]
      exact governed
    · exact grantAccess_governed done governed
  | changeFirewall => exact governed
  | terminateSession => exact governed

theorem console_governed (moved : Console.Step app c act next) (governed : Governed c.admin.db) :
    Governed next.admin.db := by
  cases moved with
  | account act next other step => exact account_governed step other governed
  | createServer who name id token now stored =>
    obtain ⟨rows, same, listed⟩ := createServer_grants app.hash c.db who name id token now stored
    dsimp only [Console.commit]
    rw [same]
    exact governed.grow (fun a member => ⟨a, member, rfl⟩) rfl listed
  | transact f now stored later earlier _ _ _ => exact perform_governed f now stored governed
  | enter => exact governed
  | place => exact governed
  | updateServer => exact governed
  | changeToken => exact governed
  | ingest => exact governed
  | cleanupFleet => exact governed

/-- Any accounts with a super administrator, with login sessions, requests and
password changes under way. -/
def supervision (app : App) : System Console ConsoleAct where
  init c := Referring c.admin.db ∧ Supervised c.admin.db
  step := Console.Step app

theorem super_admin_remains {history : List (Transition Console ConsoleAct)} (run : Run (supervision app) history c) :
    (∃ a ∈ c.admin.db.admins, ∃ row ∈ c.admin.db.adminRoles, row.username = a.username ∧ row.role = "super_admin") ∧
      (∀ row ∈ c.admin.db.adminRoles, ∃ a ∈ c.admin.db.admins, a.username = row.username) ∧
      ∀ row ∈ c.admin.db.adminServers, ∃ a ∈ c.admin.db.admins, a.username = row.username := by
  have governed : Governed c.admin.db :=
    run.invariant (fun c => Governed c.admin.db) (fun _ started => started) fun _ _ _ held moved =>
      console_governed moved held
  exact ⟨governed.2, governed.1.holders, governed.1.assignees⟩

/-- Two super administrators demote each other; the second request finds no other left. -/
def counterRequest : Checked := ⟨.updateAdminAccess "ops" "admin" [], "t1", ⟨"dev", "super_admin"⟩, true⟩

theorem super_admin_remains_duel : ∃ c : Console, (∃ history, Run (supervision plainApp) history c) ∧
    (∃ a ∈ c.admin.db.admins, ∃ row ∈ c.admin.db.adminRoles, row.username = a.username ∧ row.role = "super_admin") ∧
    c.admin.db.adminRoles = [⟨"ops", "super_admin"⟩, ⟨"dev", "admin"⟩] ∧ c.waiting = [] := by
  have start : Run (supervision plainApp) [] { consoleStart with waiting := [demoteRequest, counterRequest] } :=
    .start ⟨⟨by unfold Rows.Unique; decide, by decide, by decide⟩, by unfold Supervised; decide⟩
  have demoted := start.next (.transact demoteRequest 1000 true [] [counterRequest] rfl rfl (by simp [demoteRequest, Mutation.minted]))
  have refused := demoted.next (.transact counterRequest 2000 true [] [] rfl rfl (by simp [counterRequest, Mutation.minted]))
  exact ⟨_, ⟨_, refused⟩, (super_admin_remains refused).1, by decide +kernel, rfl⟩

end SshLogger
