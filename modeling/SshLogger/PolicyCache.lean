import SshLogger.Policy
import SshLogger.Library.Json

/-! The policy an agent keeps in its spool, as JSON text (`saveFirewall` and
`cachedFirewall` in `agent/firewall.go`, the tags in `internal/model/firewall.go`). -/

namespace SshLogger
open Library Library.Json

/-- Which of the lists are nil: their text differs, and they read back alike. -/
structure NilLists where
  ports : Bool
  protectedIPs : Bool
  bans : Bool
  deriving DecidableEq, Repr

def listValue (isNil : Bool) (items : List Value) : Value := if isNil && items.isEmpty then .null else .arr items

/-- The keys of a map are written in order. -/
def sortedNames (names : List (String × String)) : List (String × String) :=
  names.mergeSort fun a b => !decide (b.1 < a.1)

def banValue (b : IPBan) : Value := .obj [("ip", .str b.ip), ("disconnect", .bool b.disconnect)]

def policyMembers (nils : NilLists) (p : FirewallPolicy) : List (String × Value) :=
  [("revision", .str p.revision)] ++
  (if p.mode == "" then [] else [("mode", .str p.mode)]) ++
  (if p.allowed.isEmpty then [] else [("allowed", .arr (p.allowed.map .str))]) ++
  (if p.allowedNames.isEmpty then []
    else [("allowed_names", .obj ((sortedNames p.allowedNames).map fun (ip, name) => (ip, .str name)))]) ++
  [("ports", listValue nils.ports (p.ports.map .int)),
    ("protected", listValue nils.protectedIPs (p.protectedIPs.map .str)),
    ("bans", listValue nils.bans (p.bans.map banValue))]

/-- `json.Marshal` of a policy. -/
def marshalPolicy (nils : NilLists) (p : FirewallPolicy) : List Char := write (.obj (policyMembers nils p))

/-- Names of fields are compared without case. -/
def foldName (name : String) : List Char :=
  name.toList.map fun char => if char == '\u017f' then 's' else if char == '\u212a' then 'k' else char.toLower

def isField (key field : String) : Bool := foldName key == field.toList

/-- `null` leaves what is there. -/
def decodeString (old : String) : Value → Option String
  | .str value => some value
  | .null => some old
  | _ => none

def decodeBool (old : Bool) : Value → Option Bool
  | .bool value => some value
  | .null => some old
  | _ => none

def decodeInt (old : Int) : Value → Option Int
  | .num value => (readInt value.val).filter fun value => -2 ^ 63 ≤ value && value < 2 ^ 63
  | .null => some old
  | _ => none

def decodeList {α : Type} (item : Value → Option α) : Value → Option (List α)
  | .arr items => items.mapM item
  | .null => some []
  | _ => none

def putName (names : List (String × String)) (key value : String) : List (String × String) :=
  if names.any fun entry => entry.1 == key then names.map fun entry => if entry.1 == key then (key, value) else entry
  else names ++ [(key, value)]

def decodeName (names : List (String × String)) : String × Value → Option (List (String × String))
  | (key, value) => (decodeString "" value).map (putName names key)

def decodeNames (old : List (String × String)) : Value → Option (List (String × String))
  | .obj members => members.foldlM decodeName old
  | .null => some []
  | _ => none

def decodeBanField (b : IPBan) : String × Value → Option IPBan
  | (key, value) =>
    if isField key "ip" then (decodeString b.ip value).map fun ip => { b with ip }
    else if isField key "disconnect" then (decodeBool b.disconnect value).map fun disconnect => { b with disconnect }
    else some b

def decodeBan : Value → Option IPBan
  | .obj members => members.foldlM decodeBanField ⟨"", false⟩
  | .null => some ⟨"", false⟩
  | _ => none

/-- Members of other names are ignored. -/
def decodeField (p : FirewallPolicy) : String × Value → Option FirewallPolicy
  | (key, value) =>
    if isField key "revision" then (decodeString p.revision value).map fun revision => { p with revision }
    else if isField key "mode" then (decodeString p.mode value).map fun mode => { p with mode }
    else if isField key "allowed" then
      (decodeList (decodeString "") value).map fun allowed => { p with allowed }
    else if isField key "allowed_names" then
      (decodeNames p.allowedNames value).map fun allowedNames => { p with allowedNames }
    else if isField key "ports" then (decodeList (decodeInt 0) value).map fun ports => { p with ports }
    else if isField key "protected" then
      (decodeList (decodeString "") value).map fun protectedIPs => { p with protectedIPs }
    else if isField key "bans" then (decodeList decodeBan value).map fun bans => { p with bans }
    else some p

def zeroPolicy : FirewallPolicy := ⟨"", "", [], [], [], [], []⟩

/-- `json.Unmarshal` into a new policy. -/
def unmarshalPolicy (raw : List Char) : Option FirewallPolicy :=
  match parse raw with
  | some (.obj members) => members.foldlM decodeField zeroPolicy
  | some .null => some zeroPolicy
  | _ => none

/-- The row of `firewall_cache`, if there is one. -/
abbrev CacheRow := Option (List Char)

/-- `stored` tells whether the statement can be written. -/
def saveFirewall (row : CacheRow) (nils : NilLists) (p : FirewallPolicy) (stored : Bool) : Except String Unit × CacheRow :=
  match p.validate with
  | .error problem => (.error problem, row)
  | .ok () => if stored then (.ok (), some (marshalPolicy nils p)) else (.error "database", row)

def cachedFirewall : CacheRow → Except String (Option FirewallPolicy)
  | none => .ok none
  | some raw =>
    match unmarshalPolicy raw with
    | none => .error "json"
    | some p =>
      match p.validate with
      | .error problem => .error problem
      | .ok () => .ok (some p)

end SshLogger
