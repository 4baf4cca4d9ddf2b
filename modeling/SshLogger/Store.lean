import SshLogger.Event
import SshLogger.Library.Rows

/-! The tables of the central store (`server/store.go`, `server/migrations.go`)
and its serialized write transactions. -/

namespace SshLogger
open Library

structure Admin where
  username : String
  passwordHash : String
  deriving DecidableEq, Repr

structure AdminRole where
  username : String
  role : String
  deriving DecidableEq, Repr

structure AdminServer where
  username : String
  serverId : String
  deriving DecidableEq, Repr

structure AuthSession where
  tokenHash : String
  csrf : String
  expires : Int
  username : String
  deriving DecidableEq, Repr

structure AccountAuth where
  username : String
  userId : String
  version : Nat
  deriving DecidableEq, Repr

/-- A registered authenticator. `state` is what the WebAuthn library keeps
beside the id in the stored JSON text. -/
structure Credential where
  id : Bytes
  state : String
  deriving DecidableEq, Repr

structure Passkey where
  id : String
  username : String
  rpId : String
  credential : Credential
  name : String
  created : Int
  lastUsed : Int
  deriving DecidableEq, Repr

/-- The JSON data of a pending ceremony. `session` is the library's own text. -/
structure PendingAuth where
  username : String
  passwordHash : String
  sessionHash : String
  purpose : String
  target : String
  name : String
  rpId : String
  origin : String
  ip : String
  version : Nat
  session : String
  deriving DecidableEq, Repr

structure AuthPending where
  idHash : String
  username : String
  expires : Int
  data : PendingAuth
  deriving DecidableEq, Repr

/-- A row of `auth_limits` or `login_attempts`. -/
structure Attempts where
  key : String
  count : Nat
  reset : Int
  deriving DecidableEq, Repr

structure Accounts where
  admins : List Admin
  adminRoles : List AdminRole
  adminServers : List AdminServer
  authSessions : List AuthSession
  accountAuth : List AccountAuth
  passkeys : List Passkey
  authPending : List AuthPending
  authLimits : List Attempts
  loginAttempts : List Attempts
  deriving DecidableEq, Repr

inductive Status
  | pending
  | succeeded
  | failed
  | superseded
  deriving DecidableEq, Repr

structure ServerRow where
  id : String
  name : String
  tokenHash : String
  created : Int
  lastSeen : Int
  health : Bytes
  backlog : Int
  dropped : Int
  revoked : Bool
  deriving DecidableEq, Repr

structure SessionRow where
  serverId : String
  id : Bytes
  user : Bytes
  ip : Bytes
  started : Int
  ended : Option Int
  live : Bool
  deriving DecidableEq, Repr

/-- The columns of `events` that an event fills stand together in `event`. -/
structure EventRow where
  serverId : String
  received : Int
  event : Event
  command : Bytes
  deriving DecidableEq, Repr

structure ControlRow where
  serverId : String
  enabled : Bool
  deriving DecidableEq, Repr

structure TerminationRow where
  id : String
  serverId : String
  sessionId : Bytes
  requestedBy : String
  created : Int
  expires : Int
  status : Status
  error : Bytes
  deriving DecidableEq, Repr

structure PolicyRow where
  serverId : String
  revision : String
  policy : FirewallPolicy
  appliedRevision : String
  error : Bytes
  reported : Int
  capable : Nat
  deriving DecidableEq, Repr

structure HistoryRow where
  id : String
  serverId : String
  revision : String
  ip : String
  action : String
  requestedBy : String
  created : Int
  status : Status
  error : Bytes
  deriving DecidableEq, Repr

structure Fleet where
  servers : List ServerRow
  sessions : List SessionRow
  events : List EventRow
  serverControl : List ControlRow
  sessionTerminations : List TerminationRow
  firewallPolicies : List PolicyRow
  firewallHistory : List HistoryRow
  deriving DecidableEq, Repr

structure Db extends Accounts, Fleet
  deriving DecidableEq, Repr

def SessionRow.key (row : SessionRow) : String × Bytes := (row.serverId, row.id)

def EventRow.key (row : EventRow) : String × Bytes := (row.serverId, row.event.id)

/-- A refused request: the status code and the message of its answer. -/
abbrev Problem := Nat × String

/-- Writers are serialized and a failed transaction changes nothing. `stored` is
false when a statement or the commit fails, which answers `unstored`. -/
def transaction {σ α : Type} (db : σ) (stored : Bool) (unstored : Problem) (body : Except Problem (α × σ)) :
    Except Problem α × σ :=
  if !stored then (.error unstored, db)
  else match body with
    | .error problem => (.error problem, db)
    | .ok (result, after) => (.ok result, after)

/-- A transaction leaves the state alone or commits what its body computed. -/
theorem transaction_snd {σ α : Type} (db : σ) (stored : Bool) (unstored : Problem)
    (body : Except Problem (α × σ)) :
    (transaction db stored unstored body).2 = db ∨
      ∃ result, body = .ok (result, (transaction db stored unstored body).2) ∧
        (transaction db stored unstored body).1 = .ok result := by
  cases stored with
  | false => exact Or.inl rfl
  | true =>
    cases body with
    | error problem => exact Or.inl rfl
    | ok outcome => exact Or.inr ⟨outcome.1, rfl, rfl⟩

theorem transaction_ok {σ α : Type} {db : σ} {stored : Bool} {unstored : Problem}
    {body : Except Problem (α × σ)} {result : α} (answered : (transaction db stored unstored body).1 = .ok result) :
    body = .ok (result, (transaction db stored unstored body).2) := by
  cases stored with
  | false => cases answered
  | true =>
    cases body with
    | error problem => cases answered
    | ok outcome =>
      obtain rfl : outcome.1 = result := by simpa [transaction] using answered
      rfl

structure Principal where
  username : String
  role : String
  deriving DecidableEq, Repr

def scope (accounts : Accounts) (who : Principal) (server : String) : Bool :=
  who.role == "super_admin" ||
    accounts.adminServers.any fun row => row.username == who.username && row.serverId == server

end SshLogger
