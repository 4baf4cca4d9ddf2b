import SshLogger.Library.Netip
import SshLogger.Library.Bytes

/-! Firewall policies, the checks both programs apply to them
(`internal/model/firewall.go`) and the script an agent loads one with
(`firewallScript` in `agent/firewall.go`). -/

namespace SshLogger
open Library Library.Netip

structure IPBan where
  ip : String
  disconnect : Bool
  deriving DecidableEq, Repr

/-- `mode` is empty for the legacy denylist. A nil list is an empty list, and
`allowedNames` lists the entries of a map, one for each address. -/
structure FirewallPolicy where
  revision : String
  mode : String
  allowed : List String
  allowedNames : List (String × String)
  ports : List Int
  protectedIPs : List String
  bans : List IPBan
  deriving DecidableEq, Repr

structure FirewallResult where
  revision : String
  error : Bytes
  deriving DecidableEq, Repr

def canonicalIP (raw : String) : Except String String :=
  match parseAddr raw with
  | none => .error "IPv4 또는 IPv6 주소를 입력하세요."
  | some addr =>
    if !(zone addr).isEmpty then .error "IPv4 또는 IPv6 주소를 입력하세요."
    else
      let ip := unmap addr
      if isUnspecified ip || isMulticast ip || isLoopback ip then
        .error "루프백·멀티캐스트·미지정 주소는 사용할 수 없습니다."
      else .ok (addrText ip)

def isCanonicalIP (ip : String) : Bool :=
  match canonicalIP ip with
  | .ok value => value == ip
  | .error _ => false

namespace FirewallPolicy

def validate (p : FirewallPolicy) : Except String Unit :=
  if p.mode != "" && p.mode != "allowlist" && p.mode != "off" then
    .error "알 수 없는 SSH 접근 정책입니다."
  else if p.mode != "" && p.bans.length > 0 then
    .error "화이트리스트와 기존 차단 규칙을 함께 적용할 수 없습니다."
  else if p.mode == "allowlist" && p.allowed.length == 0 then
    .error "화이트리스트를 사용하려면 허용 IP가 최소 1개 필요합니다."
  else if p.allowed.length > 1000 then
    .error "허용 IP는 최대 1000개까지 등록할 수 있습니다."
  else if !(p.allowed.all isCanonicalIP && decide p.allowed.Nodup) then
    .error "중복 또는 잘못된 허용 IP입니다."
  else if p.allowedNames.any fun (ip, name) => !p.allowed.contains ip || name.length > 100 then
    .error "허용 IP 이름은 등록된 IP에만 지정할 수 있으며 최대 100자입니다."
  else if p.revision == "" || p.revision.utf8ByteSize > 100 || p.ports.length == 0 || p.ports.length > 32 ||
      p.protectedIPs.length > 1000 || p.bans.length > 1000 then
    .error "잘못된 방화벽 정책입니다."
  else if p.ports.any fun port => port < 1 || port > 65535 then
    .error "SSH 포트는 1–65535여야 합니다."
  else if !p.protectedIPs.all isCanonicalIP then
    .error "잘못된 보호 IP입니다."
  else if !(p.bans.all (fun b => isCanonicalIP b.ip && !p.protectedIPs.contains b.ip) &&
      decide (p.bans.map IPBan.ip).Nodup) then
    .error "중복·보호 IP 또는 잘못된 차단 IP입니다."
  else .ok ()

def isValid (p : FirewallPolicy) : Bool :=
  match p.validate with
  | .ok _ => true
  | .error _ => false

/-- A policy under which the generated ruleset can drop a packet. -/
def hasDropRules (p : FirewallPolicy) : Bool := p.mode == "allowlist" || !p.bans.isEmpty

end FirewallPolicy

/-- `ip` or `ip6`, by the spelling of the address. -/
def addressFamily (ip : String) : String := if ip.toList.contains ':' then "ip6" else "ip"

/-- All interpolated values are validated literals. One transaction replaces only our table. -/
def firewallScript (p : FirewallPolicy) : Except String String :=
  match p.validate with
  | .error problem => .error problem
  | .ok () =>
    let ports := String.intercalate ", " (p.ports.map toString)
    let out := "add table inet ssh_logger\n" ++ "delete table inet ssh_logger\n" ++ "add table inet ssh_logger\n" ++
      "add chain inet ssh_logger input { type filter hook input priority -10; policy accept; }\n"
    if p.mode == "allowlist" then
      -- Only packets that open a connection are filtered.
      let accepts := p.allowed.map fun ip =>
        "add rule inet ssh_logger input " ++ addressFamily ip ++ " saddr " ++ ip ++ " tcp dport \x7b " ++ ports ++ " \x7d accept\n"
      .ok (out ++ String.join accepts ++
        ("add rule inet ssh_logger input tcp dport \x7b " ++ ports ++ " \x7d tcp flags & (syn | ack) == syn drop\n"))
    else
      let drops := p.bans.map fun b =>
        let state := if b.disconnect then "" else "tcp flags & (syn | ack) == syn "
        "add rule inet ssh_logger input " ++ addressFamily b.ip ++ " saddr " ++ b.ip ++ " tcp dport \x7b " ++ ports ++ " \x7d " ++
          state ++ "drop\n"
      .ok (out ++ String.join drops)

end SshLogger
