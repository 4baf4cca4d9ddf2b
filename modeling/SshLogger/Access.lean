import SshLogger.Firewall
import SshLogger.Library.NetipText
import SshLogger.Library.OrderedMap

/-! What a server's firewall policy is for, apart from how it is stored: a mode,
the SSH ports, the allowed hosts in the order they were added with an optional
name each, the protected hosts and the legacy bans. -/

namespace SshLogger
open Library Library.Netip

/-- An address that access can be decided by: no zone, no IPv4-mapped form, and
neither unspecified, multicast nor loopback. -/
structure IsHost (addr : Addr) : Prop where
  wellFormed : WellFormed addr
  unzoned : zone addr = []
  unmapped : unmap addr = addr
  ordinary : (isUnspecified addr || isMulticast addr || isLoopback addr) = false

instance (addr : Addr) : Decidable (WellFormed addr) :=
  match addr with
  | .v4 octets => inferInstanceAs (Decidable (octets.length = 4 ∧ ∀ octet ∈ octets, octet < 256))
  | .v6 groups _ => inferInstanceAs (Decidable (groups.length = 8 ∧ ∀ group ∈ groups, group < 65536))

instance (addr : Addr) : Decidable (IsHost addr) :=
  decidable_of_iff (WellFormed addr ∧ zone addr = [] ∧ unmap addr = addr ∧
      (isUnspecified addr || isMulticast addr || isLoopback addr) = false)
    ⟨fun ⟨one, two, three, four⟩ => ⟨one, two, three, four⟩, fun h => ⟨h.1, h.2, h.3, h.4⟩⟩

structure Host where
  addr : Addr
  usable : IsHost addr
  deriving DecidableEq

def Host.text (host : Host) : String := addrText host.addr

/-- The host a text stands for, however it is spelled. -/
def readHost (text : String) : Option Host :=
  (parseAddr text).bind fun addr =>
    if usable : zone addr = [] ∧ IsHost (unmap addr) then some ⟨unmap addr, usable.2⟩ else none

inductive AccessMode
  | legacy
  | allowlist
  | off
  deriving DecidableEq, Repr

def AccessMode.text : AccessMode → String
  | legacy => ""
  | allowlist => "allowlist"
  | off => "off"

structure Access where
  mode : AccessMode
  ports : List Int
  allowed : OrderedMap Host (Option String)
  protectedIPs : List Host
  bans : OrderedMap Host Bool

namespace Access

def default : Access := ⟨.legacy, [22], .empty, [], .empty⟩

/-- Bans belong to the legacy mode only, and an allowlist that is in force allows somebody. -/
structure Valid (a : Access) : Prop where
  unbanned : a.mode ≠ .legacy → a.bans.entries = []
  enabled : a.mode = .allowlist → a.allowed.entries ≠ []
  unprotected : ∀ host ∈ a.bans.keys, host ∉ a.protectedIPs
  ports : a.ports ≠ [] ∧ a.ports.length ≤ 32 ∧ ∀ port ∈ a.ports, 1 ≤ port ∧ port ≤ 65535
  sizes : a.allowed.entries.length ≤ 1000 ∧ a.protectedIPs.length ≤ 1000 ∧ a.bans.entries.length ≤ 1000
  names : ∀ entry ∈ a.allowed.entries, ∀ name ∈ entry.2, name.length ≤ 100

instance (a : Access) : Decidable a.Valid :=
  decidable_of_iff ((a.mode ≠ .legacy → a.bans.entries = []) ∧ (a.mode = .allowlist → a.allowed.entries ≠ []) ∧
      (∀ host ∈ a.bans.keys, host ∉ a.protectedIPs) ∧
      (a.ports ≠ [] ∧ a.ports.length ≤ 32 ∧ ∀ port ∈ a.ports, 1 ≤ port ∧ port ≤ 65535) ∧
      (a.allowed.entries.length ≤ 1000 ∧ a.protectedIPs.length ≤ 1000 ∧ a.bans.entries.length ≤ 1000) ∧
      ∀ entry ∈ a.allowed.entries, ∀ name ∈ entry.2, name.length ≤ 100)
    ⟨fun ⟨one, two, three, four, five, six⟩ => ⟨one, two, three, four, five, six⟩,
      fun valid => ⟨valid.1, valid.2, valid.3, valid.4, valid.5, valid.6⟩⟩

theorem default_valid : default.Valid := by decide

end Access

/-- What an administrator may ask for. A name is trimmed text; `none` for a name
that is asked for removes it. -/
inductive Edit
  | ban (host : Host) (disconnect : Bool)
  | unban (host : Host)
  | settings (ports : List Int) (protectedIPs : Option (List Host)) (mode : Option AccessMode)
  | allow (host : Host) (name : Option (Option String))
  | rename (host : Host) (name : Option String)
  | remove (host : Host)

namespace Access

def apply (a : Access) : Edit → Option Access
  | .ban host disconnect =>
    if a.mode = .legacy then some { a with bans := a.bans.put host disconnect fun _ => disconnect } else none
  | .unban host => some { a with bans := a.bans.erase host }
  | .settings ports protectedIPs mode =>
    let a := { a with ports, protectedIPs := protectedIPs.getD a.protectedIPs }
    match mode with
    | none => some a
    | some mode => some { a with mode, bans := .empty }
  | .allow host name => some { a with allowed := a.allowed.put host (name.getD none) name.getD }
  | .rename host name =>
    if host ∈ a.allowed.keys then some { a with allowed := a.allowed.put host name fun _ => name } else none
  | .remove host => some { a with allowed := a.allowed.erase host }

end Access

/-- The access in force, and what the server's agent can do: nothing, legacy
bans, or allowlists as well. -/
structure Guard where
  access : Access
  capable : Nat
  valid : access.Valid

/-- What happens to a guard. `edit` is `none` for a request that means no edit,
and `stored` is false when its transaction cannot be written. -/
inductive GuardEvent
  | request (edit : Option Edit) (stored : Bool)
  | heartbeat (capable : Nat)

namespace Guard

def initial : Guard := ⟨.default, 0, Access.default_valid⟩

/-- The access an edit leads to, when it is allowed. -/
def edited (g : Guard) (edit : Option Edit) (stored : Bool) : Option Guard :=
  (edit.bind g.access.apply).bind fun next =>
    if valid : next.Valid ∧ (next.mode = .allowlist → 2 ≤ g.capable) ∧ stored = true then
      some ⟨next, g.capable, valid.1⟩
    else none

def step (g : Guard) : GuardEvent → Guard
  | .request edit stored => (g.edited edit stored).getD g
  | .heartbeat capable => { g with capable }

end Guard

def editName (name : String) : Option String := if trimSpace name == "" then none else some (trimSpace name)

def editMode : Option String → Option (Option AccessMode)
  | none => some none
  | some mode =>
    if mode == "allowlist" then some (some .allowlist) else if mode == "off" then some (some .off) else none

def editHosts : Option (List String) → Option (Option (List Host))
  | none => some none
  | some ips => (ips.mapM readHost).map some

def FirewallChange.edit : FirewallChange → Option Edit
  | ban ip disconnect => (readHost ip).map (.ban · disconnect)
  | unban ip => (readHost ip).map .unban
  | settings ports protectedIPs mode =>
    (editHosts protectedIPs).bind fun hosts => (editMode mode).map fun mode => .settings ports hosts mode
  | allow ip name => (readHost ip).map (.allow · (name.map editName))
  | updateAllow ip name => (readHost ip).bind fun host => name.map fun name => .rename host (editName name)
  | removeAllow ip => (readHost ip).map .remove

end SshLogger
