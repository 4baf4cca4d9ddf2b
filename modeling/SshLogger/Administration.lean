import SshLogger.Accounts
import SshLogger.Library.History

/-! The administrator accounts under their requests, in any order of steps. A
login or a password change waits between its parts while other requests are
served. -/

namespace SshLogger
open Library Library.History

/-- Logins that passed the limit, whose password was wrong, and whose password was
right; password changes whose old password was right. `minted` holds every hash
bcrypt has made so far. -/
structure Administration where
  db : Accounts
  admitted : List LoginRequest
  failures : List String
  logins : List VerifiedLogin
  changes : List VerifiedChange
  minted : List String

inductive AdminAct
  | admitLogin (site : Site) (r : LoginRequest) (now : Int)
  | verifyLogin (r : LoginRequest)
  | failLogin (ip : String) (now : Int) (stored : Bool)
  | login (site : Site) (l : VerifiedLogin) (ids : AuthIds) (now : Int) (stored : Bool)
  | logout (cookie : String) (stored : Bool)
  | passkeyBegin (site : Site) (r : ManageRequest) (ids : AuthIds) (now : Int) (stored : Bool)
  | finishCeremony (site : Site) (endpoint : Endpoint) (r : FinishRequest) (ids : AuthIds) (now : Int) (stored : Bool)
  | verifyChange (r : PasswordRequest) (now : Int)
  | changePassword (c : VerifiedChange) (newHash : String) (now : Int) (stored : Bool)
  | createAdmin (cookie username password passwordHash : String) (now : Int) (stored : Bool)
  | deleteAdmin (cookie target : String) (now : Int) (stored : Bool)
  | resetTwoFactor (username : String) (stored : Bool)
  | cleanup (now : Int)
  | assign (roles : List AdminRole) (servers : List AdminServer)

section
variable (app : App)

/-- Each call of bcrypt makes a hash of its own. -/
inductive Administration.Step (w : Administration) : AdminAct → Administration → Prop
  | admitLogin (site r now) : Step w (.admitLogin site r now) { w with
      admitted := match SshLogger.admitLogin site w.db r now with
        | .ok () => r :: w.admitted
        | .error _ => w.admitted }
  | verifyLogin (r) : r ∈ w.admitted → Step w (.verifyLogin r) { w with
      admitted := w.admitted.erase r
      logins := (SshLogger.verifyLogin app w.db r).toList ++ w.logins
      failures := if (SshLogger.verifyLogin app w.db r).isSome then w.failures else r.ip :: w.failures }
  | failLogin (ip now stored) : ip ∈ w.failures → Step w (.failLogin ip now stored) { w with
      db := (SshLogger.failLogin w.db ip now stored).2
      failures := w.failures.erase ip }
  | login (site l ids now stored) : l ∈ w.logins → Step w (.login site l ids now stored) { w with
      db := (SshLogger.login app site w.db l ids now stored).2
      logins := w.logins.erase l }
  | logout (cookie stored) : Step w (.logout cookie stored) { w with
      db := (SshLogger.logout app w.db cookie stored).2 }
  | passkeyBegin (site r ids now stored) : Step w (.passkeyBegin site r ids now stored) { w with
      db := (SshLogger.passkeyBegin app site w.db r ids now stored).2 }
  | finishCeremony (site endpoint r ids now stored) : Step w (.finishCeremony site endpoint r ids now stored) { w with
      db := (SshLogger.finishCeremony app site w.db endpoint r ids now stored).2 }
  | verifyChange (r now) : Step w (.verifyChange r now) { w with
      changes := match SshLogger.verifyChange app w.db r now with
        | .ok c => c :: w.changes
        | .error _ => w.changes }
  | changePassword (c newHash now stored) : c ∈ w.changes → newHash ∉ w.minted →
      Step w (.changePassword c newHash now stored) { w with
        db := (SshLogger.changePassword app w.db c newHash now stored).2
        changes := w.changes.erase c
        minted := newHash :: w.minted }
  | createAdmin (cookie username password passwordHash now stored) : passwordHash ∉ w.minted →
      Step w (.createAdmin cookie username password passwordHash now stored) { w with
        db := (SshLogger.createAdmin app w.db cookie username password passwordHash now stored).2
        minted := passwordHash :: w.minted }
  | deleteAdmin (cookie target now stored) : Step w (.deleteAdmin cookie target now stored) { w with
      db := (SshLogger.deleteAdmin app w.db cookie target now stored).2 }
  | resetTwoFactor (username stored) : Step w (.resetTwoFactor username stored) { w with
      db := (SshLogger.resetTwoFactor w.db username stored).2 }
  | cleanup (now) : Step w (.cleanup now) { w with db := cleanupAccounts w.db now }
  | assign (roles servers) : Step w (.assign roles servers) { w with
      db := { w.db with adminRoles := roles, adminServers := servers } }

def administration : System Administration AdminAct where
  init w := w.db.authSessions = [] ∧ w.db.passkeys = [] ∧ w.db.authPending = [] ∧
    Rows.Unique Admin.username w.db.admins ∧ (∀ a ∈ w.db.admins, a.passwordHash ∈ w.minted) ∧
    w.admitted = [] ∧ w.failures = [] ∧ w.logins = [] ∧ w.changes = []
  step := Administration.Step app

end

end SshLogger
